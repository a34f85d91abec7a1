import Mathlib.Data.List.Basic
import Mathlib.Data.List.Nodup

/-!
# Repetition in lists

A list with some of its items repeated, each of them anywhere behind an earlier one of its kind.
It has the members of the list without the repetitions, finds what this finds, and holds an item
once only if nothing is repeated.
-/

namespace ConfigSchema

variable {α β : Type} {more few many : List α} {item : α}

/-- `Repeats more few many`: the list `many` is the list `few` in which the items of `more` are
repeated. -/
inductive Repeats : List α → List α → List α → Prop
  | none (items : List α) : Repeats [] items items
  | again {more few before after : List α} {item : α} (hrest : Repeats more few (before ++ after))
      (hmem : item ∈ before) : Repeats (item :: more) few (before ++ item :: after)

namespace Repeats

theorem mem_iff (hrepeats : Repeats more few many) : item ∈ many ↔ item ∈ few := by
  induction hrepeats with
  | none items => rfl
  | @again more few before after repeated hrest hmem ih =>
      rw [← ih]
      simp only [List.mem_append, List.mem_cons]
      constructor
      · rintro (hbefore | rfl | hafter)
        · exact .inl hbefore
        · exact .inl hmem
        · exact .inr hafter
      · rintro (hbefore | hafter)
        · exact .inl hbefore
        · exact .inr (.inr hafter)

theorem mem_of_mem_more (hrepeats : Repeats more few many) (hmem : item ∈ more) : item ∈ few := by
  induction hrepeats with
  | none items => contradiction
  | @again more few before after repeated hrest hbefore ih =>
      rcases List.mem_cons.1 hmem with rfl | hmore
      · exact hrest.mem_iff.1 (List.mem_append_left _ hbefore)
      · exact ih hmore

theorem length_eq (hrepeats : Repeats more few many) :
    many.length = few.length + more.length := by
  induction hrepeats with
  | none items => rfl
  | again hrest hmem ih =>
      simp only [List.length_append, List.length_cons] at ih ⊢
      omega

theorem eq_of_nil (hrepeats : Repeats [] few many) : many = few := by
  cases hrepeats
  rfl

theorem eq_iff (hrepeats : Repeats more few many) : many = few ↔ more = [] := by
  constructor
  · intro heq
    have hlength := hrepeats.length_eq
    rw [heq] at hlength
    exact List.length_eq_zero_iff.1 (by omega)
  · rintro rfl
    exact hrepeats.eq_of_nil

/-- What is found in a list is found in front of all that is repeated. -/
theorem find?_eq (hrepeats : Repeats more few many) (test : α → Bool) :
    many.find? test = few.find? test := by
  induction hrepeats with
  | none items => rfl
  | @again more few before after repeated hrest hmem ih =>
      rw [← ih, List.find?_append, List.find?_append]
      cases hfound : before.find? test with
      | some found => rfl
      | none =>
          have hnot := List.find?_eq_none.1 hfound repeated hmem
          rw [List.find?_cons_of_neg hnot]

theorem nodup_iff (hrepeats : Repeats more few many) : many.Nodup ↔ few.Nodup ∧ more = [] := by
  constructor
  · intro hnodup
    cases hrepeats with
    | none items => exact ⟨hnodup, rfl⟩
    | again hrest hmem =>
        rw [List.nodup_append] at hnodup
        exact absurd rfl (hnodup.2.2 _ hmem _ List.mem_cons_self)
  · rintro ⟨hnodup, rfl⟩
    rw [hrepeats.eq_of_nil]
    exact hnodup

/-! ## Making lists with repetitions -/

theorem all_eq (hrepeats : Repeats more few many) (test : α → Bool) :
    many.all test = few.all test := by
  rw [Bool.eq_iff_iff, List.all_eq_true, List.all_eq_true]
  simp only [hrepeats.mem_iff]

theorem any_eq (hrepeats : Repeats more few many) (test : α → Bool) :
    many.any test = few.any test := by
  rw [Bool.eq_iff_iff, List.any_eq_true, List.any_eq_true]
  simp only [hrepeats.mem_iff]

/-- Several items may be repeated side by side. -/
theorem block {before after block : List α} (hrest : Repeats more few (before ++ after))
    (hmem : ∀ item ∈ block, item ∈ before) :
    Repeats (block ++ more) few (before ++ (block ++ after)) := by
  induction block with
  | nil => exact hrest
  | cons item block ih =>
      have hinner := ih fun other hother => hmem other (List.mem_cons_of_mem _ hother)
      exact .again hinner (hmem item List.mem_cons_self)

theorem append_left (hrepeats : Repeats more few many) (front : List α) :
    Repeats more (front ++ few) (front ++ many) := by
  induction hrepeats with
  | none items => exact .none _
  | again hrest hmem ih =>
      rw [← List.append_assoc] at ih ⊢
      exact .again ih (List.mem_append_right _ hmem)

theorem flatMap (hrepeats : Repeats more few many) (f : α → List β) :
    Repeats (more.flatMap f) (few.flatMap f) (many.flatMap f) := by
  induction hrepeats with
  | none items => exact .none _
  | @again more few before after repeated hrest hmem ih =>
      rw [List.flatMap_append] at ih ⊢
      rw [List.flatMap_cons, List.flatMap_cons]
      refine ih.block fun item hitem => ?_
      exact List.mem_flatMap.2 ⟨repeated, hmem, hitem⟩

theorem map (hrepeats : Repeats more few many) (f : α → β) :
    Repeats (more.map f) (few.map f) (many.map f) := by
  have hflat := hrepeats.flatMap fun item => [f item]
  simpa only [← List.map_eq_flatMap] using hflat

theorem filterMap (hrepeats : Repeats more few many) (f : α → Option β) :
    Repeats (more.filterMap f) (few.filterMap f) (many.filterMap f) := by
  have hflat := hrepeats.flatMap fun item => (f item).toList
  simpa only [← List.filterMap_eq_flatMap_toList] using hflat

theorem flatMap_eq (hrepeats : Repeats more few many) {f : α → List β}
    (hnil : ∀ item ∈ more, f item = []) : many.flatMap f = few.flatMap f := by
  have hflat := hrepeats.flatMap f
  rw [List.flatMap_eq_nil_iff.2 hnil] at hflat
  exact hflat.eq_of_nil

theorem filterMap_eq (hrepeats : Repeats more few many) {f : α → Option β}
    (hnone : ∀ item ∈ more, f item = Option.none) : many.filterMap f = few.filterMap f := by
  have hfound := hrepeats.filterMap f
  rw [List.filterMap_eq_nil_iff.2 hnone] at hfound
  exact hfound.eq_of_nil

theorem findSome?_eq (hrepeats : Repeats more few many) {f : α → Option β}
    (hnone : ∀ item ∈ more, f item = Option.none) : many.findSome? f = few.findSome? f := by
  rw [← List.head?_filterMap, ← List.head?_filterMap, hrepeats.filterMap_eq hnone]

theorem countP_eq (hrepeats : Repeats more few many) (test : α → Bool) :
    many.countP test = few.countP test + more.countP test := by
  induction hrepeats with
  | none items => rfl
  | again hrest hmem ih =>
      simp only [List.countP_append, List.countP_cons] at ih ⊢
      omega

end Repeats

end ConfigSchema
