import ConfigSchema.Chain
import ConfigSchema.Text.Blank
import ConfigSchema.Traced
import ConfigSchema.TypeGraph

/-!
# Outlines

The outline of a type lists its fields, and below each field that leads to an object, an
interface or a union the fields or members of that type, one level deeper.  A type that is
already being expanded further up is not expanded again; its line refers back to it.  Every
expansion puts the own name of a type of the graph on the chain, so outlines are finite whatever
the types refer to.  An outline ends at a name that stands for no type, and where there is no room
for the calls that lead to a line; the lines before that are its trail.
-/

namespace ConfigSchema

/-- What is listed: a field, or a member of a union. -/
inductive Item where
  | field (field : Field)
  | member (name : String)
  deriving DecidableEq, Inhabited

/-- The part of a line that does not depend on what is listed below it. -/
inductive Head where
  | field (name label : String) (isRequired : Bool) (description : String)
  /-- A member that has parts of its own. -/
  | member (name label : String)
  /-- A member without parts. -/
  | plain (label : String)
  deriving DecidableEq, Inhabited

inductive Ending where
  | leaf
  /-- The parts of the type follow one level deeper. -/
  | opened
  /-- The type is being expanded further up. -/
  | backReference (type : String)
  deriving DecidableEq, Inhabited

structure Line where
  level : Int
  head : Head
  ending : Ending
  deriving DecidableEq, Inhabited

namespace TypeRef

/-- The label of a reference whose base has the given one; every list layer is shown. -/
def labelOver (base : String) : TypeRef → String
  | .named _ => base
  | .list of => "Array<" ++ of.labelOver base ++ ">"
  | .required of => of.labelOver base

/-- The calls that label a reference, one for each layer and one for the name. -/
def labelCalls (ref : TypeRef) : List Call :=
  .annotateNamed ref.base :: List.replicate (ref.layers + 1) .annotate

end TypeRef

namespace TypeDef

def label (type : TypeDef) : String :=
  match type.shape with
  | .object .. => "object"
  | .union _ => "one of"
  | .enum values => "String (" ++ " | ".intercalate values ++ ")"
  | _ => type.name

/-- What is listed below a type, if anything can be. -/
def parts? (type : TypeDef) : Option (List Item) :=
  match type.shape with
  | .object fields _ => some (fields.map .field)
  | .interface fields _ => some (fields.map .field)
  | .union members => some (members.map .member)
  | _ => none

/-- The calls that lead from the line of a type to those of its parts. -/
def partsCalls (type : TypeDef) : List Call :=
  match type.shape with
  | .union _ => [.renderMembers, .expand type.name]
  | _ => [.renderField, .renderFields, .expand type.name]

end TypeDef

namespace Item

def target : Item → String
  | .field f => f.type.base
  | .member name => name

/-- The calls that label the type of an item. -/
def calls : Item → List Call
  | .field f => f.type.labelCalls
  | .member name => [.annotateNamed name]

def head (type : TypeDef) : Item → Head
  | .field f =>
      .field f.name (f.type.labelOver type.label) f.type.isRequired
        ((f.description.map Text.oneLine).getD "")
  | .member name =>
      if type.parts?.isSome then .member name type.label else .plain type.label

end Item

theorem Entries.mem_values_of_get? {α : Type u} {entries : Entries α} {name : String} {value : α}
    (h : entries.get? name = some value) : value ∈ entries.map (·.2) := by
  induction entries with
  | nil => simp [Entries.get?] at h
  | cons pair rest ih =>
      by_cases hname : pair.1 = name
      · simp_all [Entries.get?]
      · simp only [Entries.get?, hname, if_false] at h
        exact List.mem_cons_of_mem _ (ih h)

namespace TypeGraph

/-- The own names of the types that can be looked up. -/
def ownNames (graph : TypeGraph) : List String :=
  (graph.index.map (·.2)).map (·.name)

theorem ownName_mem {graph : TypeGraph} {name : String} {type : TypeDef}
    (h : graph.index.get? name = some type) : type.name ∈ graph.ownNames :=
  List.mem_map_of_mem (Entries.mem_values_of_get? h)

/-- The lines of items, and of all that is expanded below them; `under` are the calls that have
led to the items. -/
def outline [Runtime] (graph : TypeGraph) (chain : List String) (level : Int) (under : List Call) :
    List Item → Traced Line GraphError Unit
  | [] => pure ()
  | item :: rest =>
      if !Runtime.hasRoom (item.calls ++ under) then Traced.ofExcept (.error .tooDeep)
      else
        match _hget : graph.index.get? item.target with
        | none => Traced.ofExcept (.error (.unknownType item.target))
        | some type =>
            match type.parts? with
            | none => do
                Traced.leave [{ level, head := item.head type, ending := .leaf }]
                graph.outline chain level under rest
            | some parts =>
                if _hnew : type.name ∈ chain then do
                  Traced.leave
                    [{ level, head := item.head type, ending := .backReference type.name }]
                  graph.outline chain level under rest
                else do
                  Traced.leave [{ level, head := item.head type, ending := .opened }]
                  graph.outline (type.name :: chain) (level + 1) (type.partsCalls ++ under) parts
                  graph.outline chain level under rest
termination_by items => (Chain.room graph.ownNames chain, items.length)
decreasing_by
  · exact Prod.Lex.right _ (by simp)
  · exact Prod.Lex.right _ (by simp)
  · exact Prod.Lex.left _ _ (Chain.room_cons_lt (ownName_mem _hget) _hnew)
  · exact Prod.Lex.right _ (by simp)

def label [Runtime] (graph : TypeGraph) (ref : TypeRef) (under : List Call := []) :
    Except GraphError String :=
  inRoom (ref.labelCalls ++ under)
    ((graph.type ref.base).map fun type => ref.labelOver type.label)

end TypeGraph

namespace Line

/-- The types that lines refer back to. -/
def backReferences (lines : List Line) : List String :=
  lines.filterMap fun line =>
    match line.ending with
    | .backReference type => some type
    | _ => none

def code (text : String) : String :=
  "\x60" ++ text ++ "\x60"

def indent (level : Int) : String :=
  String.ofList (List.replicate (2 * level.toNat) ' ')

end Line

def Head.render : Head → String
  | .field name label isRequired description =>
      Line.code name ++ " (type: " ++ Line.code label ++
        (if isRequired then ", required" else "") ++ ")" ++
        (if description = "" then "" else " - " ++ description)
  | .member name label => Line.code name ++ " (type: " ++ Line.code label ++ ")"
  | .plain label => Line.code label

def Ending.render : Ending → String
  | .leaf => ""
  | .opened => ":"
  | .backReference type => ": see " ++ Line.code type

def Line.render (line : Line) : String :=
  Line.indent line.level ++ "* " ++ line.head.render ++ line.ending.render

end ConfigSchema
