import ConfigSchema.Schema.Order

/-!
# What the order of types holds

The order of a schema holds every type of its own and every built-in type that one of them refers
to.  A search that is asked for a name finds it unless an earlier one has, so nothing that a type
refers to is lost on the way.
-/

namespace ConfigSchema

namespace Schema

variable {schema : Schema} {name : String} {type : NamedType}

/-! ## Types and their names -/

theorem BuiltIn.mem_of_type? (htype : BuiltIn.type? name = some type) :
    type ∈ BuiltIn.types ∧ type.name = name := by
  unfold BuiltIn.type? at htype
  have hname := List.find?_some htype
  exact ⟨List.mem_of_find?_eq_some htype, by simpa using hname⟩

theorem BuiltIn.type?_eq_none_iff :
    BuiltIn.type? name = none ↔ name ∉ Sdl.BuiltIn.typeNames := by
  unfold BuiltIn.type?
  rw [List.find?_eq_none, ← names_types]
  simp only [decide_eq_true_eq, List.mem_map, not_exists, not_and]

/-- A name stands for a built-in type or for one of the schema's own. -/
theorem type?_cases (htype : schema.type? name = some type) :
    BuiltIn.type? name = some type ∧ name ∈ Sdl.BuiltIn.typeNames ∨
      name ∉ Sdl.BuiltIn.typeNames ∧ type ∈ schema.types ∧ type.name = name := by
  unfold type? at htype
  cases hbuilt : BuiltIn.type? name with
  | some found =>
      rw [hbuilt, Option.some_or, Option.some.injEq] at htype
      subst htype
      have hmem : name ∈ Sdl.BuiltIn.typeNames := by
        rw [← BuiltIn.names_types]
        exact List.mem_map.2 ⟨found, BuiltIn.mem_of_type? hbuilt⟩
      exact .inl ⟨rfl, hmem⟩
  | none =>
      rw [hbuilt, Option.none_or] at htype
      have hname := List.find?_some htype
      exact .inr ⟨BuiltIn.type?_eq_none_iff.1 hbuilt, List.mem_of_find?_eq_some htype,
        by simpa using hname⟩

theorem name_of_type? (htype : schema.type? name = some type) : type.name = name := by
  rcases type?_cases htype with ⟨hbuilt, -⟩ | ⟨-, -, hname⟩
  · exact (BuiltIn.mem_of_type? hbuilt).2
  · exact hname

/-! ## Searches -/

theorem mem_gather {references : String → List String} {remaining pending : List String}
    (hremains : name ∈ remaining) (hpending : name ∈ pending) :
    name ∈ gather references remaining pending := by
  -- Whatever is found before leaves the name both remaining and pending.
  induction hlength : remaining.length using Nat.strongRecOn generalizing remaining pending with
  | ind length ih =>
      rw [gather]
      split
      · next hnone =>
          have hnot := List.find?_eq_none.1 hnone name hpending
          rw [List.contains_iff_mem] at hnot
          exact absurd hremains hnot
      · next first hfirst =>
          by_cases hname : name = first
          · rw [hname]
            exact List.mem_cons_self
          · have hmem : first ∈ remaining := List.contains_iff_mem.1 (List.find?_some hfirst)
            have hlt : (remaining.erase first).length < length := by
              have hpositive := List.length_pos_of_mem hmem
              have herased := List.length_erase_of_mem hmem
              omega
            have hstill : name ∈ remaining.erase first :=
              (List.mem_erase_of_ne hname).2 hremains
            have hasked : name ∈ references first ++ pending :=
              List.mem_append_right _ hpending
            exact List.mem_cons_of_mem _ (ih _ hlt hstill hasked rfl)

theorem mem_walk_of_own {references : String → List String} {remaining pending : List String}
    {starts : List (Option String × List String)} (hstart : (some name, pending) ∈ starts) :
    name ∈ walk references remaining starts := by
  induction starts generalizing remaining with
  | nil => simp at hstart
  | cons start rest ih =>
      rw [walk]
      rcases List.mem_cons.1 hstart with hfirst | hrest
      · rw [← hfirst]
        simp
      · exact List.mem_append_right _ (ih hrest)

theorem mem_walk_of_pending {references : String → List String}
    {remaining : List String} {starts : List (Option String × List String)}
    {start : Option String × List String} (hstart : start ∈ starts) (hpending : name ∈ start.2)
    (hremains : name ∈ remaining) : name ∈ walk references remaining starts := by
  induction starts generalizing remaining with
  | nil => simp at hstart
  | cons first rest ih =>
      rw [walk]
      by_cases hfound : name ∈ gather references remaining first.2
      · exact List.mem_append_left _ (List.mem_append_right _ hfound)
      · have hrest : start ∈ rest := by
          rcases List.mem_cons.1 hstart with rfl | hrest
          · exact absurd (mem_gather hremains hpending) hfound
          · exact hrest
        have hstill : name ∈ remaining.filter fun other =>
            !(gather references remaining first.2).contains other := by
          rw [List.mem_filter, Bool.not_eq_true', ← Bool.not_eq_true, List.contains_iff_mem]
          exact ⟨hremains, hfound⟩
        exact List.mem_append_right _ (ih hrest hstill)

/-! ## The order -/

theorem mem_orderedNames_of_own (htype : type ∈ schema.types) :
    type.name ∈ schema.orderedNames := by
  have hstart : (some type.name, schema.referencesOf type.name) ∈
      (schema.types.map (·.name)).map fun name => (some name, schema.referencesOf name) :=
    List.mem_map_of_mem (List.mem_map_of_mem htype)
  exact mem_walk_of_own (List.mem_append_left _ hstart)

theorem mem_orderedNames_of_reference (htype : type ∈ schema.types)
    (hown : schema.type? type.name = some type) (hmem : name ∈ type.references) {target : NamedType}
    (htarget : schema.type? name = some target) : name ∈ schema.orderedNames := by
  by_cases hdefined : name ∈ schema.types.map (·.name)
  · obtain ⟨other, hother, rfl⟩ := List.mem_map.1 hdefined
    exact mem_orderedNames_of_own hother
  rcases type?_cases htarget with ⟨-, hbuilt⟩ | ⟨-, hin, hname⟩
  · have hstart : (some type.name, schema.referencesOf type.name) ∈
        (schema.types.map (·.name)).map fun name => (some name, schema.referencesOf name) :=
      List.mem_map_of_mem (List.mem_map_of_mem htype)
    have hpending : name ∈ schema.referencesOf type.name := by
      rw [referencesOf, hown]
      exact hmem
    have hremains : name ∈ Sdl.BuiltIn.typeNames.filter fun name =>
        !(schema.types.map (·.name)).contains name := by
      rw [List.mem_filter, Bool.not_eq_true', ← Bool.not_eq_true, List.contains_iff_mem]
      exact ⟨hbuilt, hdefined⟩
    exact mem_walk_of_pending (List.mem_append_left _ hstart) hpending hremains
  · exact absurd (List.mem_map.2 ⟨target, hin, hname⟩) hdefined

theorem mem_orderedTypes_iff :
    type ∈ schema.orderedTypes ↔
      type.name ∈ schema.orderedNames ∧ schema.type? type.name = some type := by
  unfold orderedTypes
  rw [List.mem_filterMap]
  constructor
  · intro hmem
    obtain ⟨name, hname, htype⟩ := hmem
    rw [name_of_type? htype]
    exact ⟨hname, htype⟩
  · intro hmem
    exact ⟨type.name, hmem.1, hmem.2⟩

end Schema

end ConfigSchema
