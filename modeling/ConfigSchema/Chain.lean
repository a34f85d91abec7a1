/-!
# Chains of names

A chain holds the names that were expanded on the way to a place.  Only names of a finite list
are ever expanded, and none of them twice on one chain, so the names of the list that the chain
does not hold yet bound how much further it can grow.
-/

namespace ConfigSchema

namespace Chain

/-- How many of the given names are not on the chain. -/
def room (names chain : List String) : Nat :=
  names.countP (· ∉ chain)

theorem room_cons_le (names chain : List String) (name : String) :
    room names (name :: chain) ≤ room names chain := by
  apply List.countP_mono_left
  intro other _ hnew
  simp only [List.mem_cons, not_or, decide_eq_true_eq] at hnew ⊢
  exact hnew.2

/-- A name of the list that is not on the chain takes up room. -/
theorem room_cons_lt {names chain : List String} {name : String} (hmem : name ∈ names)
    (hnew : name ∉ chain) : room names (name :: chain) < room names chain := by
  induction names with
  | nil => simp at hmem
  | cons first rest ih =>
      by_cases hname : first = name
      · subst hname
        have hle := room_cons_le rest chain first
        have hone : (if decide (first ∉ chain) = true then 1 else 0) = 1 := by simp [hnew]
        have hnone : (if decide (first ∉ first :: chain) = true then 1 else 0) = 0 := by simp
        simp only [room, List.countP_cons] at hle ⊢
        omega
      · have hrest : name ∈ rest := by
          rcases List.mem_cons.1 hmem with heq | hrest
          · exact absurd heq.symm hname
          · exact hrest
        have hlt := ih hrest
        simp only [room, List.countP_cons] at hlt ⊢
        by_cases hchain : first ∈ chain
        · simpa [hchain] using hlt
        · simpa [hchain, hname] using hlt

end Chain

end ConfigSchema
