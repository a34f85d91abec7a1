import ConfigSchema.Proofs.MergeOutcome
import Mathlib.Data.List.Perm.Basic

/-!
# Merges in any order

Whether definitions have a conflict does not depend on their order, and neither does what is kept
of the types and of all that has no title.  Of a directive the first definition is kept, whatever
the others say, so there the order of the documents decides which definition counts, but not
which names are defined.
-/

namespace ConfigSchema

namespace Sdl

variable {form : Option Literal → TypeNode → String} {definition : Definition}
variable {document one other rest : Document}

/-! ## Definitions of one title -/

theorem haveSameTitle_eq_of_haveSameTitle {first second : Definition}
    (hsame : haveSameTitle first second = true) (another : Definition) :
    haveSameTitle first another = haveSameTitle second another := by
  rw [Bool.eq_iff_iff]
  constructor
  · intro hfirst
    rw [haveSameTitle_symm] at hsame
    exact haveSameTitle_trans hsame hfirst
  · intro hsecond
    exact haveSameTitle_trans hsame hsecond

/-- One definition of a title counts, and the others do as if none of the title were there. -/
theorem firsts_perm_of_titled (htitled : definition.isUntitled = false)
    (hmem : definition ∈ document) :
    ∃ first ∈ document, haveSameTitle first definition = true ∧
      (firsts document).Perm
        (first :: firsts (document.filter fun d => !haveSameTitle d definition)) := by
  let picks (d : Definition) : Bool := haveSameTitle d definition
  have hself : picks definition = true := by
    simp only [picks, haveSameTitle_self_iff, htitled, Bool.not_false]
  have hsome : (document.find? picks).isSome := List.find?_isSome.2 ⟨_, hmem, hself⟩
  rcases Option.isSome_iff_exists.1 hsome with ⟨first, hfirst⟩
  have hkept : (firsts document).filter picks = [first] := by
    rw [filter_firsts, hfirst]
    · rfl
    · intro d hd another
      rw [haveSameTitle_eq_of_haveSameTitle hd, haveSameTitle_symm]
  have hothers : (firsts document).filter (fun d => !picks d) =
      firsts (document.filter fun d => !picks d) := by
    rw [firsts_filter]
    intro d another hsame
    simp only [picks, haveSameTitle_eq_of_haveSameTitle hsame]
  have hsplit := List.filter_append_perm picks (firsts document)
  rw [hkept, hothers] at hsplit
  exact ⟨first, List.mem_of_find?_eq_some hfirst, by simpa using List.find?_some hfirst,
    hsplit.symm⟩

theorem firsts_perm_of_untitled (huntitled : definition.isUntitled = true)
    (before after : Document) :
    (firsts (before ++ definition :: after)).Perm (definition :: firsts (before ++ after)) := by
  rw [firsts_insert huntitled, firsts_append]
  exact List.perm_middle

/-- A definition that stands in front of some order of a document may be chosen first in every
order, or another one of its title may. -/
theorem exists_firsts_perm_cons (hperm : (definition :: rest).Perm document) :
    ∃ first remaining, (first = definition ∨ haveSameTitle definition first = true) ∧
      first ∈ document ∧ (rest.filter fun d => !haveSameTitle d definition).Perm remaining ∧
      (firsts document).Perm (first :: firsts remaining) := by
  have hmem : definition ∈ document := hperm.subset List.mem_cons_self
  cases huntitled : definition.isUntitled with
  | true =>
      rcases List.append_of_mem hmem with ⟨before, after, rfl⟩
      have hall : (rest.filter fun d => !haveSameTitle d definition) = rest := by
        rw [List.filter_eq_self]
        intro d _
        rw [haveSameTitle_of_isUntitled huntitled]
        rfl
      have hrest : rest.Perm (before ++ after) :=
        (hperm.trans List.perm_middle).cons_inv
      exact ⟨definition, before ++ after, .inl rfl, hmem, by rw [hall]; exact hrest,
        firsts_perm_of_untitled huntitled before after⟩
  | false =>
      rcases firsts_perm_of_titled huntitled hmem with ⟨first, hfirst, hsame, hkept⟩
      have hfiltered := hperm.filter fun d => !haveSameTitle d definition
      have hself : haveSameTitle definition definition = true := by
        rw [haveSameTitle_self_iff, huntitled]
        rfl
      rw [List.filter_cons_of_neg (by simp [hself])] at hfiltered
      rw [haveSameTitle_symm] at hsame
      exact ⟨first, _, .inr hsame, hfirst, hfiltered, hkept⟩

/-! ## What is told of definitions -/

/-- Definitions of one title are told alike. -/
def TellsAlike {β : Type} (tell : Definition → β) (document : Document) : Prop :=
  ∀ one ∈ document, ∀ other ∈ document, haveSameTitle one other = true → tell one = tell other

theorem TellsAlike.map_firsts_perm {β : Type} {tell : Definition → β}
    (halike : TellsAlike tell one) (hperm : one.Perm other) :
    ((firsts one).map tell).Perm ((firsts other).map tell) := by
  induction one using firsts_induction generalizing other with
  | nil =>
      rw [List.nil_perm.1 hperm]
  | cons definition rest ih =>
      rcases exists_firsts_perm_cons hperm with ⟨first, remaining, hsame, hmem, hrest, hkept⟩
      have htold : tell first = tell definition := by
        rcases hsame with rfl | hsame
        · rfl
        · exact (halike definition List.mem_cons_self first (hperm.symm.subset hmem) hsame).symm
      have hremaining : TellsAlike tell (rest.filter fun d => !haveSameTitle d definition) := by
        intro d hd another hanother
        exact halike d (List.mem_cons_of_mem _ (List.mem_of_mem_filter hd)) another
          (List.mem_cons_of_mem _ (List.mem_of_mem_filter hanother))
      have hmapped := hkept.map tell
      rw [List.map_cons, htold] at hmapped
      rw [firsts_cons, List.map_cons]
      exact ((ih hremaining hrest).cons _).trans hmapped.symm

theorem TellsAlike.filterMap_firsts_perm {β : Type} {tell : Definition → Option β}
    (halike : TellsAlike tell one) (hperm : one.Perm other) :
    ((firsts one).filterMap tell).Perm ((firsts other).filterMap tell) := by
  have htold := (halike.map_firsts_perm hperm).filterMap id
  simpa only [List.filterMap_map, Function.id_comp] using htold

/-! ## Merges of documents in another order -/

def Definition.definedDirective? : Definition → Option String
  | .directive d => some d.name
  | _ => none

/-- No directive is defined in two different ways. -/
def DefinesDirectivesAlike (print : Definition → String) (document : Document) : Prop :=
  ∀ one other, .directive one ∈ document → .directive other ∈ document → one.name = other.name →
    print (.directive one) = print (.directive other)

/-- Of every type that a document defines two other documents have one definition each, in the
same words; they define the same directives, and have the same definitions without a title. -/
structure KeepAlike (print : Definition → String) (document one other : Document) : Prop where
  types : ∀ name ∈ document.definedTypes, ∃ words,
    (one.filter (·.defines name)).map print = [words] ∧
      (other.filter (·.defines name)).map print = [words]
  directives :
    (one.filterMap Definition.definedDirective?).Perm
      (other.filterMap Definition.definedDirective?)
  untitled : (one.filter (·.isUntitled)).Perm (other.filter (·.isUntitled))

theorem agrees_of_perm (hperm : one.Perm other) : Agrees form one ↔ Agrees form other := by
  simp only [agrees_iff, hperm.mem_iff]

theorem filter_defines_firsts {print : Definition → String}
    (hagrees : Agrees (fun about node => print (.type about node)) document)
    {about : Option Literal} {node : TypeNode} (hmem : .type about node ∈ document) :
    ((firsts document).filter (·.defines node.name)).map print = [print (.type about node)] := by
  have hdefines : (Definition.type about node).defines node.name = true := defines_type_iff.2 rfl
  have hsome : (document.find? (·.defines node.name)).isSome :=
    List.find?_isSome.2 ⟨_, hmem, hdefines⟩
  rcases Option.isSome_iff_exists.1 hsome with ⟨first, hfirst⟩
  rcases exists_eq_type_of_defines (List.find?_some hfirst) with ⟨before, another, rfl, hname⟩
  have hwords := agrees_iff.1 hagrees before another about node
    (List.mem_of_find?_eq_some hfirst) hmem hname
  rw [(keepsFirsts_firsts document).types, hfirst]
  exact congrArg (fun words => [words]) hwords

theorem keepAlike_firsts {print : Definition → String}
    (hagrees : Agrees (fun about node => print (.type about node)) one)
    (hperm : one.Perm other) : KeepAlike print one (firsts one) (firsts other) where
  types name hname := by
    rcases List.mem_filterMap.1 hname with ⟨definition, hmem, hdefined⟩
    cases definition with
    | type about node =>
        obtain rfl : node.name = name := Option.some.inj hdefined
        exact ⟨_, filter_defines_firsts hagrees hmem,
          filter_defines_firsts ((agrees_of_perm hperm).1 hagrees) (hperm.subset hmem)⟩
    | _ => contradiction
  directives := by
    refine TellsAlike.filterMap_firsts_perm ?_ hperm
    intro d _ another _ hsame
    cases d <;> cases another <;>
      simp_all [haveSameTitle, Definition.definedDirective?]
  untitled := by
    rw [filter_isUntitled_firsts, filter_isUntitled_firsts]
    exact hperm.filter _

theorem tellsAlike_of_directives {print : Definition → String}
    (hagrees : Agrees (fun about node => print (.type about node)) document)
    (hdirectives : DefinesDirectivesAlike print document) : TellsAlike print document := by
  intro first hfirst second hsecond hsame
  cases first with
  | type about node =>
      cases second with
      | type other another =>
          exact agrees_iff.1 hagrees about node other another hfirst hsecond
            (of_decide_eq_true hsame)
      | _ => contradiction
  | directive d =>
      cases second with
      | directive another =>
          exact hdirectives d another hfirst hsecond (of_decide_eq_true hsame)
      | _ => contradiction
  | _ => contradiction

end Sdl

namespace Sources

/-- The order of documents behind the marks decides about nothing but the order of what is kept and
the definitions of directives that are defined in different ways. -/
theorem merge_in_any_order (print : Sdl.Definition → String) {documents others : List Sdl.Document}
    (hperm : documents.Perm others) :
    let form := fun about node => print (.type about node)
    let all := (marks :: documents).flatten
    ((∃ name, Sdl.mergeBy form (marks :: documents) = .error name) ↔
        ∃ name, Sdl.mergeBy form (marks :: others) = .error name) ∧
      ∀ kept, Sdl.mergeBy form (marks :: documents) = .ok kept →
        ∃ reordered, Sdl.mergeBy form (marks :: others) = .ok reordered ∧
          Sdl.KeepAlike print all kept reordered ∧
          (Sdl.DefinesDirectivesAlike print all →
            (kept.map print).Perm (reordered.map print)) := by
  intro form all
  have hall : all.Perm (marks :: others).flatten := (hperm.cons marks).flatten
  refine ⟨?_, ?_⟩
  · rw [Sdl.exists_mergeBy_eq_error_iff, Sdl.exists_mergeBy_eq_error_iff, ← Sdl.not_agrees_iff,
      ← Sdl.not_agrees_iff, Sdl.agrees_of_perm hall]
  · intro kept hkept
    rcases Sdl.mergeBy_eq_ok_iff.1 hkept with ⟨hagrees, rfl⟩
    have hreordered : Sdl.mergeBy form (marks :: others) =
        .ok (Sdl.firsts (marks :: others).flatten) :=
      Sdl.mergeBy_eq_ok_iff.2 ⟨(Sdl.agrees_of_perm hall).1 hagrees, rfl⟩
    refine ⟨_, hreordered, Sdl.keepAlike_firsts hagrees hall, ?_⟩
    intro hdirectives
    exact (Sdl.tellsAlike_of_directives hagrees hdirectives).map_firsts_perm hall

/-- A type, a directive and an extension. -/
def shelfDocument : Sdl.Document :=
  [.type none { name := "Shelf", body := .object [] [{ name := "size", type := .named "Int" }] },
    .directive { name := "tag", locations := [.object] },
    .typeExtension { name := "Shelf", body := .object ["Placed"] [] }]

/-- The same type behind another one, and a directive of the same name for another place. -/
def placedDocument : Sdl.Document :=
  [.type none { name := "Placed", body := .interface [] [] },
    .type none { name := "Shelf", body := .object [] [{ name := "size", type := .named "Int" }] },
    .directive { name := "tag", locations := [.union] }]

/-- The written form of a type, and the places where a directive may be applied. -/
def spelling : Sdl.Definition → String
  | .type about node => node.render about
  | .directive d => ", ".intercalate (d.locations.map (·.name))
  | _ => ""

/-- Another type, and the directive of the first document for the same place. -/
def crateDocument : Sdl.Document :=
  [.type none { name := "Crate", body := .object [] [{ name := "shelf", type := .named "Shelf" }] },
    .directive { name := "tag", locations := [.object] }]

theorem definesDirectivesAlike_crateDocument :
    Sdl.DefinesDirectivesAlike spelling [marks, shelfDocument, crateDocument].flatten := by
  intro d another hfirst hsecond _
  simp only [marks, shelfDocument, crateDocument, List.flatten_cons, List.flatten_nil,
    List.append_nil, List.cons_append, List.nil_append, List.mem_cons, List.not_mem_nil,
    Sdl.Definition.directive.injEq, reduceCtorEq, false_or, or_false] at hfirst hsecond
  rcases hfirst with rfl | rfl | rfl | rfl <;> rcases hsecond with rfl | rfl | rfl | rfl <;> rfl

theorem swappedDocuments_keep_alike :
    (∃ kept reordered, Sdl.merge [marks, shelfDocument, placedDocument] = .ok kept ∧
      Sdl.merge [marks, placedDocument, shelfDocument] = .ok reordered ∧
      Sdl.KeepAlike spelling [marks, shelfDocument, placedDocument].flatten kept reordered) ∧
    ∃ kept reordered, Sdl.merge [marks, shelfDocument, crateDocument] = .ok kept ∧
      Sdl.merge [marks, crateDocument, shelfDocument] = .ok reordered ∧
      Sdl.KeepAlike spelling [marks, shelfDocument, crateDocument].flatten kept reordered ∧
      (kept.map spelling).Perm (reordered.map spelling) := by
  constructor
  · have hswap : [shelfDocument, placedDocument].Perm [placedDocument, shelfDocument] :=
      List.Perm.swap _ _ _
    rcases merge_in_any_order spelling hswap with ⟨-, hkept⟩
    rcases hkept _ rfl with ⟨reordered, hreordered, halike, -⟩
    exact ⟨_, reordered, rfl, hreordered, halike⟩
  · have hswap : [shelfDocument, crateDocument].Perm [crateDocument, shelfDocument] :=
      List.Perm.swap _ _ _
    rcases merge_in_any_order spelling hswap with ⟨-, hkept⟩
    rcases hkept _ rfl with ⟨reordered, hreordered, halike, hsame⟩
    exact ⟨_, reordered, rfl, hreordered, halike, hsame definesDirectivesAlike_crateDocument⟩

end Sources

end ConfigSchema
