import ConfigSchema.Sdl.Document
import Mathlib.Data.List.Induction
import Mathlib.Data.List.Nodup

/-!
# First definitions

Of the definitions of a type or a directive the first one counts, and every other definition
counts wherever it stands.  The definitions that count are told part by part: those of a front
part stay, and behind it those count that count by themselves and whose title is new.
-/

namespace ConfigSchema

namespace Sdl

variable {document before after : Document} {definition : Definition} {name : String}

/-! ## Titles -/

/-- Two definitions of which a merge keeps the first at most. -/
def haveSameTitle : Definition → Definition → Bool
  | .type _ one, .type _ other => one.name = other.name
  | .directive one, .directive other => one.name = other.name
  | _, _ => false

/-- A definition that a merge keeps wherever it stands. -/
def Definition.isUntitled : Definition → Bool
  | .type .. => false
  | .directive _ => false
  | _ => true

theorem haveSameTitle_of_isUntitled (huntitled : definition.isUntitled = true)
    (other : Definition) : haveSameTitle other definition = false := by
  cases definition <;> cases other <;> first | rfl | contradiction

theorem haveSameTitle_self_iff : haveSameTitle definition definition = !definition.isUntitled := by
  cases definition <;> simp [haveSameTitle, Definition.isUntitled]

theorem haveSameTitle_trans {one other another : Definition} (hone : haveSameTitle one other = true)
    (hother : haveSameTitle other another = true) : haveSameTitle one another = true := by
  cases one <;> cases other <;> cases another <;>
    simp only [haveSameTitle, Bool.false_eq_true, decide_eq_true_eq] at hone hother ⊢ <;>
    first | contradiction | exact hone.trans hother

theorem haveSameTitle_symm (one other : Definition) :
    haveSameTitle one other = haveSameTitle other one := by
  cases one <;> cases other <;> simp [haveSameTitle, eq_comm]

/-- Whether a definition defines a type of a name. -/
def Definition.defines (name : String) (definition : Definition) : Bool :=
  definition.definedType? = some name

/-- Whether a definition defines a directive of a name. -/
def Definition.definesDirective (name : String) : Definition → Bool
  | .directive d => d.name = name
  | _ => false

theorem haveSameTitle_eq_defines {one : Definition} (hone : one.defines name = true)
    (other : Definition) : haveSameTitle one other = other.defines name := by
  cases one with
  | type about node =>
      have hname : node.name = name := by
        simpa [Definition.defines, Definition.definedType?] using hone
      cases other <;>
        simp [haveSameTitle, Definition.defines, Definition.definedType?, hname, eq_comm]
  | _ => contradiction

theorem haveSameTitle_eq_definesDirective {one : Definition}
    (hone : one.definesDirective name = true) (other : Definition) :
    haveSameTitle one other = other.definesDirective name := by
  cases one with
  | directive d =>
      have hname : d.name = name := by simpa [Definition.definesDirective] using hone
      cases other <;> simp [haveSameTitle, Definition.definesDirective, hname, eq_comm]
  | _ => contradiction

/-! ## Definitions that count -/

/-- The definitions without those of types and directives that are defined before. -/
def firsts (document : Document) : Document :=
  document.eraseDupsBy haveSameTitle

theorem firsts_cons (definition : Definition) (rest : Document) :
    firsts (definition :: rest) =
      definition :: firsts (rest.filter fun other => !haveSameTitle other definition) := by
  have hsame : (fun other => decide (haveSameTitle other definition = false)) =
      fun other => !haveSameTitle other definition := by
    funext other
    cases haveSameTitle other definition <;> rfl
  rw [firsts, List.eraseDupsBy_cons, hsame]
  rfl

@[simp] theorem firsts_nil : firsts [] = [] := rfl

/-- What holds of a document if it holds of the others once those of the first title are left
out. -/
theorem firsts_induction {motive : Document → Prop} (nil : motive [])
    (cons : ∀ definition rest,
      motive (rest.filter fun other => !haveSameTitle other definition) →
        motive (definition :: rest)) (document : Document) : motive document := by
  induction hlength : document.length using Nat.strongRecOn generalizing document with
  | ind length ih =>
      cases document with
      | nil => exact nil
      | cons definition rest =>
          apply cons
          refine ih _ ?_ _ rfl
          have hle := List.length_filter_le (fun other => !haveSameTitle other definition) rest
          rw [← hlength, List.length_cons]
          omega

theorem firsts_sublist (document : Document) : (firsts document).Sublist document := by
  induction document using firsts_induction with
  | nil => exact .slnil
  | cons definition rest ih =>
      rw [firsts_cons]
      exact (ih.trans List.filter_sublist).cons_cons definition

/-- Definitions that tell nothing may be left out. -/
theorem filterMap_filter_of_none {β : Type} {f : Definition → Option β} {rest : Document}
    (hnone : ∀ other ∈ rest, haveSameTitle other definition = true → f other = none) :
    (rest.filter fun other => !haveSameTitle other definition).filterMap f =
      rest.filterMap f := by
  rw [List.filterMap_filter]
  apply List.filterMap_congr
  intro other hother
  cases hsame : haveSameTitle other definition with
  | false => rfl
  | true => exact (hnone other hother hsame).symm

/-- What is told by definitions without a title is told by those that are kept. -/
theorem filterMap_firsts {β : Type} {f : Definition → Option β}
    (huntitled : ∀ one other, haveSameTitle one other = true → f one = none) (document : Document) :
    (firsts document).filterMap f = document.filterMap f := by
  induction document using firsts_induction with
  | nil => rfl
  | cons definition rest ih =>
      rw [firsts_cons, List.filterMap_cons, List.filterMap_cons, ih,
        filterMap_filter_of_none fun other _ => huntitled other definition]

/-- Names that definitions of one title share are told by those that are kept, each once. -/
theorem filterMap_firsts_eq_eraseDups {f : Definition → Option String}
    (hsame : ∀ one ∈ document, ∀ other ∈ document,
      haveSameTitle one other = true → f one = f other)
    (htitle : ∀ one other, f one = f other → (f one).isSome → haveSameTitle one other = true) :
    (firsts document).filterMap f = (document.filterMap f).eraseDups := by
  induction document using firsts_induction with
  | nil => rfl
  | cons definition rest ih =>
      have hinner := ih fun one hone other hother =>
        hsame one (List.mem_cons_of_mem _ (List.mem_of_mem_filter hone)) other
          (List.mem_cons_of_mem _ (List.mem_of_mem_filter hother))
      rw [firsts_cons]
      cases hname : f definition with
      | none =>
          have hnone : ∀ other ∈ rest, haveSameTitle other definition = true → f other = none := by
            intro other hother hshared
            rw [← hname]
            exact hsame other (List.mem_cons_of_mem _ hother) definition List.mem_cons_self hshared
          rw [List.filterMap_cons_none hname, List.filterMap_cons_none hname, hinner,
            filterMap_filter_of_none hnone]
      | some name =>
          have hrest : (rest.filter fun other => !haveSameTitle other definition).filterMap f =
              (rest.filterMap f).filter fun other => !other == name := by
            rw [List.filterMap_filter, List.filter_filterMap]
            apply List.filterMap_congr
            intro other hother
            cases hshared : haveSameTitle other definition with
            | true =>
                have hsome := hsame other (List.mem_cons_of_mem _ hother) definition
                  List.mem_cons_self hshared
                simp [hsome, hname, Option.filter]
            | false =>
                cases hfound : f other with
                | none => rfl
                | some found =>
                    have hne : found ≠ name := by
                      intro heq
                      rw [htitle other definition (by rw [hfound, hname, heq])
                        (by rw [hfound]; rfl)] at hshared
                      contradiction
                    simp [hne, Option.filter]
          rw [List.filterMap_cons_some hname, List.filterMap_cons_some hname,
            List.eraseDups_cons, hinner, hrest]

/-- The first of what some definitions tell is told by those that are kept, if those of one title
tell something or nothing alike. -/
theorem findSome?_firsts {β : Type} {f : Definition → Option β}
    (hsame : ∀ one other, haveSameTitle one other = true → (f one).isSome = (f other).isSome)
    (document : Document) : (firsts document).findSome? f = document.findSome? f := by
  induction document using firsts_induction with
  | nil => rfl
  | cons definition rest ih =>
      rw [firsts_cons, List.findSome?_cons, List.findSome?_cons]
      cases hfound : f definition with
      | some found => rfl
      | none =>
          have hnone : ∀ other ∈ rest, haveSameTitle other definition = true → f other = none := by
            intro other _ hshared
            rw [← Option.not_isSome_iff_eq_none, hsame other definition hshared, hfound]
            simp
          dsimp only
          rw [ih, ← List.head?_filterMap, ← List.head?_filterMap, filterMap_filter_of_none hnone]

/-- Of the definitions of one title the first one counts. -/
theorem filter_firsts {picks : Definition → Bool}
    (htitle : ∀ one, picks one = true → ∀ other, haveSameTitle one other = picks other)
    (document : Document) : (firsts document).filter picks = (document.find? picks).toList := by
  induction document using firsts_induction with
  | nil => rfl
  | cons definition rest ih =>
      rw [firsts_cons]
      cases hpicked : picks definition with
      | true =>
          have hnone : (firsts (rest.filter fun other =>
              !haveSameTitle other definition)).filter picks = [] := by
            rw [List.filter_eq_nil_iff]
            intro other hother hagain
            have hnew := List.of_mem_filter ((firsts_sublist _).subset hother)
            rw [htitle other hagain, hpicked] at hnew
            contradiction
          rw [List.filter_cons_of_pos hpicked, List.find?_cons_of_pos hpicked, hnone]
          rfl
      | false =>
          have hrest : (rest.filter fun other => !haveSameTitle other definition).find? picks =
              rest.find? picks := by
            rw [List.find?_filter]
            refine congrArg (rest.find? ·) (funext fun other => ?_)
            cases hother : picks other with
            | true => simp [htitle other hother, hpicked]
            | false => simp
          have hskipped : ¬ picks definition = true := by simp [hpicked]
          rw [List.filter_cons_of_neg hskipped, List.find?_cons_of_neg hskipped, ih, hrest]

/-- Definitions of some titles may be left out before or after those are chosen that count. -/
theorem firsts_filter {picks : Definition → Bool}
    (htitle : ∀ one other, haveSameTitle one other = true → picks one = picks other)
    (document : Document) : firsts (document.filter picks) = (firsts document).filter picks := by
  induction document using firsts_induction with
  | nil => rfl
  | cons definition rest ih =>
      have hswap : (rest.filter picks).filter (fun other => !haveSameTitle other definition) =
          (rest.filter fun other => !haveSameTitle other definition).filter picks := by
        simp only [List.filter_filter, Bool.and_comm]
      rw [firsts_cons]
      cases hpicked : picks definition with
      | true =>
          rw [List.filter_cons_of_pos hpicked, List.filter_cons_of_pos hpicked, firsts_cons, hswap,
            ih]
      | false =>
          have hskipped : ¬ picks definition = true := by simp [hpicked]
          have hall : (rest.filter picks).filter (fun other => !haveSameTitle other definition) =
              rest.filter picks := by
            rw [List.filter_eq_self]
            intro other hother
            cases hsame : haveSameTitle other definition with
            | false => rfl
            | true =>
                have hagain := List.of_mem_filter hother
                rw [htitle other definition hsame, hpicked] at hagain
                contradiction
          rw [List.filter_cons_of_neg hskipped, List.filter_cons_of_neg hskipped, ← ih, ← hswap,
            hall]

/-- Definitions of a title that stands in front already make no title known. -/
theorem any_haveSameTitle_cons (definition first : Definition) (rest : Document) :
    (first :: rest).any (haveSameTitle definition) =
      (haveSameTitle definition first ||
        (rest.filter fun other => !haveSameTitle other first).any (haveSameTitle definition)) := by
  rw [List.any_cons]
  cases hfirst : haveSameTitle definition first with
  | true => rfl
  | false =>
      rw [List.any_filter]
      refine congrArg (fun test => false || rest.any test) (funext fun other => ?_)
      cases hother : haveSameTitle definition other with
      | false => rw [Bool.and_false]
      | true =>
          have hapart : haveSameTitle other first = false := by
            rw [← Bool.not_eq_true]
            intro hsame
            rw [haveSameTitle_trans hother hsame] at hfirst
            contradiction
          rw [hapart]
          rfl

theorem any_haveSameTitle_firsts (definition : Definition) (document : Document) :
    (firsts document).any (haveSameTitle definition) =
      document.any (haveSameTitle definition) := by
  induction document using firsts_induction with
  | nil => rfl
  | cons first rest ih => rw [firsts_cons, List.any_cons, ih, any_haveSameTitle_cons]

theorem firsts_firsts (document : Document) : firsts (firsts document) = firsts document := by
  induction document using firsts_induction with
  | nil => rfl
  | cons first rest ih =>
      have hnew : (firsts (rest.filter fun other => !haveSameTitle other first)).filter
          (fun other => !haveSameTitle other first) =
            firsts (rest.filter fun other => !haveSameTitle other first) := by
        rw [List.filter_eq_self]
        intro other hother
        have hkept := (firsts_sublist _).subset hother
        exact (List.mem_filter.1 hkept).2
      rw [firsts_cons, firsts_cons, hnew, ih]

/-- Behind other definitions those are kept whose title is new. -/
theorem firsts_append (before after : Document) :
    firsts (before ++ after) =
      firsts before ++ firsts (after.filter fun d => !before.any (haveSameTitle d)) := by
  induction before using firsts_induction generalizing after with
  | nil => simp
  | cons first rest ih =>
      rw [List.cons_append, firsts_cons, firsts_cons, List.filter_append, ih, List.filter_filter,
        List.cons_append]
      congr 3
      apply List.filter_congr
      intro d _
      rw [any_haveSameTitle_cons, Bool.not_or, Bool.and_comm]

/-- The definitions that count in a document can be told from those that count in its parts. -/
theorem firsts_append_eq (before after : Document) :
    firsts (before ++ after) = firsts before ++
      (firsts after).filter fun d => !(firsts before).any (haveSameTitle d) := by
  rw [firsts_append, firsts_filter]
  · simp only [any_haveSameTitle_firsts]
  · intro one other hsame
    refine congrArg (fun test => !before.any test) (funext fun another => ?_)
    rw [Bool.eq_iff_iff]
    constructor
    · rw [haveSameTitle_symm] at hsame
      exact haveSameTitle_trans hsame
    · exact haveSameTitle_trans hsame

/-- Whether no definition of the same title stands before a place in a document. -/
def isNewAt (document : Document) (place : Definition × Nat) : Bool :=
  !(document.take place.2).any (haveSameTitle place.1)

/-- The definitions that count are those at the places before which none of the same title
stands. -/
theorem firsts_eq_map_places (document : Document) :
    firsts document = (document.zipIdx.filter (isNewAt document)).map Prod.fst := by
  induction document using List.reverseRecOn with
  | nil => rfl
  | append_singleton before last ih =>
      have hbefore : before.zipIdx.filter (isNewAt (before ++ [last])) =
          before.zipIdx.filter (isNewAt before) := by
        apply List.filter_congr
        rintro ⟨definition, place⟩ hplace
        have hlt : place < before.length := by simpa using List.snd_lt_of_mem_zipIdx hplace
        rw [isNewAt, isNewAt, List.take_append_of_le_length (Nat.le_of_lt hlt)]
      have hlast : [last].zipIdx (0 + before.length) = [(last, before.length)] := by simp
      have hnew : isNewAt (before ++ [last]) (last, before.length) =
          !before.any (haveSameTitle last) := by
        rw [isNewAt, List.take_left]
      rw [firsts_append, List.zipIdx_append, List.filter_append, List.map_append, hbefore, ih,
        hlast]
      cases hany : before.any (haveSameTitle last) with
      | true => simp [hnew, hany]
      | false => simp [hnew, hany, firsts_cons]

theorem filter_isUntitled_firsts (document : Document) :
    (firsts document).filter (·.isUntitled) = document.filter (·.isUntitled) := by
  rw [← List.filterMap_eq_filter]
  apply filterMap_firsts
  intro one other hsame
  rw [Option.guard_eq_none_iff]
  cases one <;> cases other <;> first | rfl | contradiction

theorem mem_firsts_of_isUntitled (huntitled : definition.isUntitled = true)
    (hmem : definition ∈ document) : definition ∈ firsts document := by
  have hfiltered : definition ∈ (firsts document).filter (·.isUntitled) := by
    rw [filter_isUntitled_firsts]
    exact List.mem_filter.2 ⟨hmem, huntitled⟩
  exact List.mem_of_mem_filter hfiltered

/-- A merge keeps what has no title wherever it is put. -/
theorem firsts_insert (huntitled : definition.isUntitled = true) (before after : Document) :
    firsts (before ++ definition :: after) = firsts before ++
      definition :: firsts (after.filter fun d => !before.any (haveSameTitle d)) := by
  have hnew : before.any (haveSameTitle definition) = false := by
    rw [List.any_eq_false]
    intro other _
    rw [haveSameTitle_symm, haveSameTitle_of_isUntitled huntitled]
    simp
  have hall : ∀ rest : Document,
      (rest.filter fun other => !haveSameTitle other definition) = rest := by
    intro rest
    rw [List.filter_eq_self]
    intro other _
    rw [haveSameTitle_of_isUntitled huntitled]
    rfl
  rw [firsts_append, List.filter_cons_of_pos (by simp [hnew]), firsts_cons, hall]

end Sdl

end ConfigSchema
