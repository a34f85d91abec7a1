import ConfigSchema.Docs.Fragment
import ConfigSchema.JsonSchema.Document
import ConfigSchema.Sources.Loading
import ConfigSchema.Typings.Compiler

/-!
# Artifacts

A generation makes the schema document of a graph and its text, and if they are asked for, the
documentation fragments and the type declarations.  The first of these that fails ends it, and
nothing has been written by then.
-/

namespace ConfigSchema

structure Artifacts where
  document : SchemaDocument
  text : String
  fragments : List Fragment := []
  typings : Option String := none
  deriving Inhabited

structure Demand where
  docs : Bool := false
  typings : Bool := false
  deriving DecidableEq, Inhabited

inductive GenerationError where
  | loading (cause : LoadError)
  | document (cause : DocumentError)
  | indentation (cause : Json.Unindentable)
  | docs (cause : GraphError)
  | typings (cause : TypingsError)
  /-- A setting that is needed is missing. -/
  | settings (cause : SettingsFault)
  deriving Inhabited

def GenerationError.message [Runtime] : GenerationError → Option String
  | .loading cause => cause.message
  | .document cause => cause.message
  | .indentation _ => none
  | .docs cause => (DocumentError.graph cause).message
  | .typings cause => cause.message
  | .settings _ => none

/-- The failure of a document that has too much of something to be written. -/
def GenerationError.beyond (limit : Json.Limit) : GenerationError :=
  .loading (.beyond limit)

abbrev Generating := Traced Event GenerationError

namespace Generation

def events (log : Log) : List Event :=
  log.map .logged

def documentLog [Runtime] (graph : TypeGraph) (settings : Settings) (document : SchemaDocument) :
    Log :=
  let root := settings.rootType
  (if graph.hasRoot root then [] else
    [⟨.warning, .compiler,
      "Root type " ++ root.display ++ " not found, top-level schema is empty"⟩]) ++
  [⟨.debug, .compiler, "Compiled " ++ toString document.definitions.length ++
    " definitions for root type " ++ root.display⟩]

def documentStep [Runtime] (graph : TypeGraph) (settings : Settings) :
    Generating (SchemaDocument × String) := do
  let document ← (graph.document settings).mapError GenerationError.document
  Traced.leave (events (documentLog graph settings document))
  let style ← (Json.Indentation.ofJson settings.indent).mapError GenerationError.indentation
  let text ← (document.text style).mapError GenerationError.beyond
  return (document, text)

def docsStep [Runtime] (graph : TypeGraph) (settings : Settings) : Generating (List Fragment) := do
  Traced.leave (events
    (if Runtime.hasRoom [.render] then graph.fragmentsLog graph.documented else []))
  let fragments ← (graph.fragments settings).mapError GenerationError.docs
  Traced.leave [.logged ⟨.debug, .generator,
    "Rendered " ++ toString fragments.length ++ " documentation fragments"⟩]
  return fragments

def typingsStep [Runtime] (tools : Toolbox) (settings : Settings) (text : String) :
    Generating String := do
  match settings.typingsCommand with
  | none => Traced.ofExcept (.error (.settings .commandless))
  | some command =>
      Traced.leave (events (Typings.log tools command))
      (Typings.compile tools command Typings.defaultTimeout text).mapError
        GenerationError.typings

def generate [Runtime] (tools : Toolbox) (graph : TypeGraph) (settings : Settings)
    (demand : Demand) : Generating Artifacts := do
  let (document, text) ← documentStep graph settings
  let fragments ← if demand.docs then docsStep graph settings else pure []
  let typings ←
    if demand.typings then (do return some (← typingsStep tools settings text)) else pure none
  return { document, text, fragments, typings }

/-- Loads the graph of sources, which are asked for as the settings say. -/
def load [Runtime] (files : FileSystem) (web : Web) (settings : Settings) (sources : List String) :
    Generating TypeGraph :=
  (Sources.graph { files, web, asking := { timeout := settings.fetchTimeout } } sources).mapError
    .loading

end Generation

end ConfigSchema
