import ConfigSchema.Docs.Outline
import ConfigSchema.Json.Display
import ConfigSchema.Log
import ConfigSchema.Marks
import ConfigSchema.Settings

/-!
# Documentation fragments

Every object type that carries the directive `md` gets a file: its description and an empty line,
if it has a description, and then the lines of its outline.
-/

namespace ConfigSchema

structure Fragment where
  file : String
  content : String
  typeName : String
  deriving DecidableEq, Inhabited

namespace TypeGraph

/-- The texts of the fields of a type, with all that is expanded below them. -/
def fieldLines [Runtime] (graph : TypeGraph) (type : TypeDef) (level : Int) (chain : List String)
    (under : List Call := []) : Except GraphError (List String) :=
  inRoom (.renderFields :: under)
    (match type.fields? with
    | none => .error (.fieldless type.name)
    | some fields =>
        let outline := graph.outline chain level (.renderField :: .renderFields :: under)
          (fields.map .field)
        outline.result.map fun _ => outline.trail.map Line.render)

def fragmentText (description : Option String) (lines : List String) : String :=
  let about := Text.stripped (description.getD "")
  (if about = "" then "" else about ++ "\n\n") ++ String.join (lines.map (· ++ "\n"))

def fragmentOf [Runtime] (graph : TypeGraph) (type : TypeDef) (under : List Call := []) :
    Except GraphError String :=
  (graph.fieldLines type 0 [type.name] (.renderType :: under)).map (fragmentText type.description)

/-- The object types that are documented, in order. -/
def documented (graph : TypeGraph) : List TypeDef :=
  graph.objects.filter fun type => type.directives.contains docsDirective

/-- The fragments of a graph, in the order of its types. -/
def fragments [Runtime] (graph : TypeGraph) (settings : Settings) :
    Except GraphError (List Fragment) :=
  inRoom [.render]
    (graph.documented.mapM fun type =>
      (graph.fragmentOf type [.render]).map fun content =>
        { file := type.name ++ settings.markdownSuffix.display, content, typeName := type.name })

/-- What is reported while types are documented, up to the first that cannot be. -/
def fragmentsLog [Runtime] (graph : TypeGraph) : List TypeDef → Log
  | [] => []
  | type :: rest =>
      let under : List Call := [.renderFields, .renderType, .render]
      let outline := graph.outline [type.name] 0 (.renderField :: under) (type.fields.map .field)
      ⟨.debug, .docs, "Rendering documentation for " ++ type.name⟩ ::
        (if Runtime.hasRoom under then
          ((Line.backReferences outline.trail).map fun name =>
            ⟨.debug, .docs, "Cycle on " ++ name ++ ", rendering a back reference"⟩) ++
          (if outline.result.isOk then graph.fragmentsLog rest else [])
        else [])

end TypeGraph

end ConfigSchema
