import ConfigSchema.Entries
import Mathlib.Data.List.Induction
import Mathlib.Data.List.Nodup

/-!
# Looking up entries

What is found under a name among entries, and which entries result from putting a list of them in
turn: those of the last values, and the list itself if its names are different.
-/

namespace ConfigSchema

namespace Entries

variable {α β : Type}

/-! ## Looking names up -/

theorem get?_eq_some_of_mem {name : String} {value : α} {entries : Entries α}
    (hnodup : entries.names.Nodup) (hmem : (name, value) ∈ entries) :
    entries.get? name = some value := by
  induction entries with
  | nil => simp at hmem
  | cons pair rest ih =>
      rw [names_cons, List.nodup_cons] at hnodup
      rcases List.mem_cons.1 hmem with rfl | hrest
      · simp [get?]
      · have hne : pair.1 ≠ name := by
          rintro rfl
          exact hnodup.1 (List.mem_map.2 ⟨(pair.1, value), hrest, rfl⟩)
        simp only [get?, hne, if_false]
        exact ih hnodup.2 hrest

theorem mem_of_get? {name : String} {value : α} {entries : Entries α}
    (hget : entries.get? name = some value) : (name, value) ∈ entries := by
  induction entries with
  | nil => simp [get?] at hget
  | cons pair rest ih =>
      rcases pair with ⟨n, v⟩
      by_cases hname : n = name
      · simp only [get?, hname, if_true, Option.some.injEq] at hget
        rw [hname, hget]
        exact List.mem_cons_self
      · simp only [get?, hname, if_false] at hget
        exact List.mem_cons_of_mem _ (ih hget)

theorem get?_eq_none_iff {name : String} {entries : Entries α} :
    entries.get? name = none ↔ name ∉ entries.names := by
  rw [← get?_isSome_iff, Option.not_isSome_iff_eq_none]

theorem get?_map (f : α → β) (name : String) (entries : Entries α) :
    get? name (entries.map fun (n, v) => (n, f v)) = (entries.get? name).map f := by
  induction entries with
  | nil => rfl
  | cons pair rest ih =>
      by_cases hname : pair.1 = name
      · simp [get?, hname]
      · simp [get?, hname, ih]

theorem names_map (f : α → β) (entries : Entries α) :
    names (entries.map fun (n, v) => (n, f v)) = entries.names := by
  simp [names, Function.comp_def]

theorem get?_append (name : String) (first second : Entries α) :
    get? name (first ++ second) = (get? name first).or (get? name second) := by
  induction first with
  | nil => rfl
  | cons pair rest ih =>
      by_cases hname : pair.1 = name
      · simp [get?, hname]
      · simp [get?, hname, ih]

theorem get?_erase_self (name : String) (entries : Entries α) :
    (erase name entries).get? name = none := by
  rw [get?_eq_none_iff]
  simp [erase, names]

theorem get?_erase_of_ne {name other : String} (hne : other ≠ name) (entries : Entries α) :
    (erase name entries).get? other = entries.get? other := by
  unfold erase
  induction entries with
  | nil => rfl
  | cons pair rest ih =>
      by_cases hname : pair.1 = name
      · have hpair : pair.1 ≠ other := fun heq => hne (heq.symm.trans hname)
        rw [List.filter_cons_of_neg (by simpa using hname), ih]
        simp [get?, hpair]
      · rw [List.filter_cons_of_pos (by simpa using hname)]
        simp only [get?, ih]

/-- To put what is there changes nothing. -/
theorem put_eq_self_of_get? {name : String} {value : α} {entries : Entries α}
    (hget : entries.get? name = some value) : put name value entries = entries := by
  induction entries with
  | nil => simp [get?] at hget
  | cons pair rest ih =>
      by_cases hname : pair.1 = name
      · simp only [get?, hname, if_true, Option.some.injEq] at hget
        rw [put, if_pos hname, ← hget]
      · simp only [get?, hname, if_false] at hget
        simp [put, hname, ih hget]

/-! ## Putting entries in turn -/

theorem put_eq_append {name : String} (value : α) {entries : Entries α}
    (hnew : name ∉ entries.names) : put name value entries = entries ++ [(name, value)] := by
  induction entries with
  | nil => rfl
  | cons pair rest ih =>
      rw [names_cons, List.mem_cons, not_or] at hnew
      have hne : pair.1 ≠ name := Ne.symm hnew.1
      simp [put, hne, ih hnew.2]

private theorem foldl_put_of_nodup (pairs entries : Entries α)
    (hnodup : (names (entries ++ pairs)).Nodup) :
    pairs.foldl (fun entries pair => entries.put pair.1 pair.2) entries = entries ++ pairs := by
  induction pairs generalizing entries with
  | nil => simp
  | cons pair rest ih =>
      have hnew : pair.1 ∉ entries.names := by
        rw [names, List.map_append, List.nodup_append] at hnodup
        intro hmem
        exact hnodup.2.2 pair.1 hmem pair.1 (by simp) rfl
      have hsplit : entries ++ pair :: rest = entries ++ [(pair.1, pair.2)] ++ rest := by simp
      rw [List.foldl_cons, put_eq_append pair.2 hnew]
      rw [hsplit] at hnodup ⊢
      exact ih _ hnodup

theorem ofList_eq_self {pairs : Entries α} (hnodup : pairs.names.Nodup) : ofList pairs = pairs := by
  simpa [ofList] using foldl_put_of_nodup pairs [] (by simpa using hnodup)

theorem ofList_concat (pairs : Entries α) (pair : String × α) :
    ofList (pairs ++ [pair]) = put pair.1 pair.2 (ofList pairs) := by
  simp [ofList, List.foldl_append]

theorem get?_ofList (name : String) (pairs : Entries α) :
    (ofList pairs).get? name = get? name pairs.reverse := by
  induction pairs using List.reverseRecOn with
  | nil => rfl
  | append_singleton rest pair ih =>
      rw [ofList_concat, List.reverse_append, List.reverse_singleton, List.singleton_append]
      by_cases hname : pair.1 = name
      · subst name
        rw [get?_put_self]
        simp [get?]
      · rw [get?_put_of_ne (Ne.symm hname), ih]
        simp [get?, hname]

theorem nodup_names_ofList (pairs : Entries α) : (ofList pairs).names.Nodup := by
  induction pairs using List.reverseRecOn with
  | nil => exact List.nodup_nil
  | append_singleton rest pair ih =>
      rw [ofList_concat]
      by_cases hmem : pair.1 ∈ (ofList rest).names
      · rw [names_put_of_mem hmem]
        exact ih
      · rw [names_put_of_notMem hmem, List.nodup_append]
        refine ⟨ih, by simp, ?_⟩
        intro name hname other hother heq
        rw [List.mem_singleton] at hother
        exact hmem (by rw [← hother, ← heq]; exact hname)

theorem mem_ofList_iff {pairs : Entries α} {name : String} {value : α} :
    (name, value) ∈ ofList pairs ↔ get? name pairs.reverse = some value := by
  rw [← get?_ofList]
  exact ⟨get?_eq_some_of_mem (nodup_names_ofList pairs), mem_of_get?⟩

theorem mem_of_mem_ofList {pairs : Entries α} {pair : String × α} (hmem : pair ∈ ofList pairs) :
    pair ∈ pairs :=
  List.mem_reverse.1 (mem_of_get? (mem_ofList_iff.1 hmem))

theorem mem_names_ofList_iff {pairs : Entries α} {name : String} :
    name ∈ (ofList pairs).names ↔ name ∈ pairs.names := by
  rw [← get?_isSome_iff, get?_ofList, get?_isSome_iff]
  simp [names]

end Entries

end ConfigSchema
