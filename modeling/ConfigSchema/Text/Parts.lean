/-!
# Parts of a text

A separator character cuts a text into parts; there is one part more than there are separators,
and joining the parts gives the text back.
-/

namespace ConfigSchema

namespace Text

/-- The parts of a row of characters between separators, some of which may be empty. -/
def cut (separator : Char) : List Char → List (List Char)
  | [] => [[]]
  | c :: rest =>
      if c = separator then [] :: cut separator rest
      else
        match cut separator rest with
        | [] => [[c]]
        | part :: parts => (c :: part) :: parts

def parts (separator : Char) (s : String) : List String :=
  (cut separator s.toList).map String.ofList

theorem cut_ne_nil (separator : Char) (s : List Char) : cut separator s ≠ [] := by
  cases s with
  | nil => simp [cut]
  | cons c rest =>
      by_cases hc : c = separator
      · simp [cut, hc]
      · simp only [cut, hc, if_false]
        split <;> simp

theorem separator_notMem_of_mem_cut {separator : Char} {s part : List Char}
    (hpart : part ∈ cut separator s) : separator ∉ part := by
  induction s generalizing part with
  | nil => simp_all [cut]
  | cons c rest ih =>
      by_cases hc : c = separator
      · simp only [cut, hc, if_true, List.mem_cons] at hpart
        rcases hpart with rfl | hpart
        · simp
        · exact ih hpart
      · simp only [cut, hc, if_false] at hpart
        cases hcut : cut separator rest with
        | nil => exact absurd hcut (cut_ne_nil _ _)
        | cons first others =>
            rw [hcut] at hpart ih
            rcases List.mem_cons.1 hpart with rfl | hother
            · simp only [List.mem_cons, not_or]
              exact ⟨Ne.symm hc, ih List.mem_cons_self⟩
            · exact ih (List.mem_cons_of_mem _ hother)

theorem cut_of_notMem {separator : Char} {letters : List Char} (hnot : separator ∉ letters) :
    cut separator letters = [letters] := by
  induction letters with
  | nil => rfl
  | cons c rest ih =>
      rw [List.mem_cons, not_or] at hnot
      rw [cut, if_neg (Ne.symm hnot.1), ih hnot.2]

theorem cut_append (separator : Char) (letters rest : List Char) :
    cut separator (letters ++ separator :: rest) = cut separator letters ++ cut separator rest := by
  induction letters with
  | nil => simp [cut]
  | cons c later ih =>
      rw [List.cons_append, cut, cut, ih]
      by_cases hc : c = separator
      · rw [if_pos hc, if_pos hc, List.cons_append]
      · rw [if_neg hc, if_neg hc]
        cases hcut : cut separator later with
        | nil => exact absurd hcut (cut_ne_nil separator later)
        | cons first others => rfl

end Text

end ConfigSchema
