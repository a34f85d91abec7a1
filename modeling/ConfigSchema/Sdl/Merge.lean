import ConfigSchema.Sdl.Printer

/-!
# Merging documents

The definitions of several documents are joined in order.  A type may be defined again in the
same words, and then the first definition stands for all; defined in other words it is a
conflict.  Of the definitions of a directive the first one counts.  All else is kept.
-/

namespace ConfigSchema

namespace Sdl

/-- What a merge has met so far: the written forms of the types, and the names of the
directives. -/
structure Met where
  types : List (String × String) := []
  directives : List String := []
  deriving Inhabited

/-- What becomes of a definition in a merge. -/
inductive Verdict where
  | kept
  /-- Said before in the same words, or a directive that is defined already. -/
  | repeated
  | conflicting (type : String)
  deriving DecidableEq, Inhabited

/-- Judges a definition by what was met before it, types by the written form that `form` gives
them. -/
def Met.judge (form : Option Literal → TypeNode → String) (met : Met) :
    Definition → Verdict × Met
  | .directive d =>
      if met.directives.contains d.name then (.repeated, met)
      else (.kept, { met with directives := d.name :: met.directives })
  | .type description node =>
      let written := form description node
      match met.types.lookup node.name with
      | none => (.kept, { met with types := (node.name, written) :: met.types })
      | some first =>
          if first = written then (.repeated, met) else (.conflicting node.name, met)
  | _ => (.kept, met)

/-- Joins definitions to those met before; fails with the name of the first type that conflicts. -/
def mergeFrom (form : Option Literal → TypeNode → String) (met : Met) :
    List Definition → Except String (List Definition)
  | [] => .ok []
  | definition :: rest =>
      match met.judge form definition with
      | (.kept, met) => (mergeFrom form met rest).map (definition :: ·)
      | (.repeated, met) => mergeFrom form met rest
      | (.conflicting type, _) => .error type

/-- Merges documents, types compared by the form that `form` gives them. -/
def mergeBy (form : Option Literal → TypeNode → String) (documents : List Document) :
    Except String Document :=
  mergeFrom form {} documents.flatten

/-- Merges documents; fails with the name of the first type that conflicts. -/
def merge (documents : List Document) : Except String Document :=
  mergeBy (fun description node => node.render description) documents

/-- The types that are defined again in the same words, up to the first conflict. -/
def repeatedFrom (form : Option Literal → TypeNode → String) (met : Met) :
    List Definition → List String
  | [] => []
  | definition :: rest =>
      match met.judge form definition with
      | (.kept, met) => repeatedFrom form met rest
      | (.repeated, met) => definition.definedType?.toList ++ repeatedFrom form met rest
      | (.conflicting _, _) => []

/-- The types that are defined again in the same words in documents to be merged. -/
def repeatedTypes (documents : List Document) : List String :=
  repeatedFrom (fun description node => node.render description) {} documents.flatten

end Sdl

end ConfigSchema
