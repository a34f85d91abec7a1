import ConfigSchema.Introspection.Reader
import ConfigSchema.Text.Blank
import ConfigSchema.Text.Lines
import ConfigSchema.Text.Parts

/-!
# Unbroken texts

A text is unbroken if no character of it ends a line.  The words of a text on one line are unbroken
whatever blanks were between them, and unbroken texts with a line feed behind each are read back as
the lines of what they make up.
-/

namespace ConfigSchema

namespace Text

def IsUnbroken (text : String) : Prop :=
  ∀ c ∈ text.toList, isLineEnd c = false

instance (text : String) : Decidable (IsUnbroken text) :=
  decidable_of_iff (text.toList.all fun c => !isLineEnd c) (by simp [IsUnbroken])

variable {text : String}

@[simp] theorem isUnbroken_append_iff {other : String} :
    IsUnbroken (text ++ other) ↔ IsUnbroken text ∧ IsUnbroken other := by
  simp only [IsUnbroken, String.toList_append, List.mem_append, or_imp, forall_and]

theorem mem_intercalate {α : Type} {separator : List α} {lists : List (List α)} {a : α}
    (ha : a ∈ separator.intercalate lists) : a ∈ separator ∨ ∃ list ∈ lists, a ∈ list := by
  induction lists with
  | nil => simp at ha
  | cons list rest ih =>
      cases rest with
      | nil => exact .inr ⟨list, List.mem_cons_self, by simpa using ha⟩
      | cons next others =>
          rw [List.intercalate_cons_cons, List.mem_append, List.mem_append] at ha
          rcases ha with (hlist | hseparator) | hrest
          · exact .inr ⟨list, List.mem_cons_self, hlist⟩
          · exact .inl hseparator
          · exact (ih hrest).imp_right fun ⟨other, hother, hmem⟩ =>
              ⟨other, List.mem_cons_of_mem list hother, hmem⟩

theorem isUnbroken_intercalate {separator : String} (hseparator : IsUnbroken separator)
    {texts : List String} (htexts : ∀ text ∈ texts, IsUnbroken text) :
    IsUnbroken (separator.intercalate texts) := by
  intro c hc
  rw [String.toList_intercalate] at hc
  rcases mem_intercalate hc with hmem | ⟨letters, hletters, hmem⟩
  · exact hseparator c hmem
  · rcases List.mem_map.1 hletters with ⟨text, htext, rfl⟩
    exact htexts text htext c hmem

/-! ## Blanks -/

theorem isBlank_of_isLineEnd {c : Char} (hend : isLineEnd c = true) : isBlank c = true := by
  have hcode : c.toNat ∈ lineEnds := List.contains_iff_mem.1 hend
  have hall : ∀ n ∈ lineEnds, (0x09 ≤ n ∧ n ≤ 0x0D) ∨ (0x1C ≤ n ∧ n ≤ 0x1F) ∨
      (0x2000 ≤ n ∧ n ≤ 0x200A) ∨ n ∈ singleBlanks := by decide
  simpa [isBlank, or_assoc] using hall c.toNat hcode

theorem isLineEnd_of_not_isBlank {c : Char} (hblank : isBlank c = false) : isLineEnd c = false := by
  rw [← Bool.not_eq_true] at hblank ⊢
  exact mt isBlank_of_isLineEnd hblank

theorem isUnbroken_of_isName (hname : Introspection.isName text = true) : IsUnbroken text := by
  have hends : ∀ n ∈ lineEnds, Sdl.Lexer.isNamePart (Char.ofNat n) = false := by decide
  intro c hc
  rw [← Bool.not_eq_true]
  intro hend
  have hcode := hends c.toNat (List.contains_iff_mem.1 hend)
  rw [Char.ofNat_toNat] at hcode
  exact Introspection.notMem_of_isName hname hcode hc

/-! ## Words -/

theorem not_isBlank_of_mem_wordsFrom {begun letters word : List Char}
    (hbegun : ∀ c ∈ begun, isBlank c = false) (hword : word ∈ wordsFrom begun letters) :
    ∀ c ∈ word, isBlank c = false := by
  have hreversed : ∀ c ∈ begun.reverse, isBlank c = false := fun c hc =>
    hbegun c (List.mem_reverse.1 hc)
  induction letters generalizing begun with
  | nil =>
      rw [wordsFrom] at hword
      split at hword
      · simp at hword
      · rw [List.mem_singleton] at hword
        rw [hword]
        exact hreversed
  | cons c rest ih =>
      rw [wordsFrom] at hword
      split at hword
      · split at hword
        · exact ih (by simp) hword (by simp)
        · rcases List.mem_cons.1 hword with rfl | hrest
          · exact hreversed
          · exact ih (by simp) hrest (by simp)
      · next hblank =>
          have hmore : ∀ letter ∈ c :: begun, isBlank letter = false := by
            intro letter hletter
            rcases List.mem_cons.1 hletter with rfl | hold
            · rwa [← Bool.not_eq_true]
            · exact hbegun letter hold
          exact ih hmore hword fun letter hletter => hmore letter (List.mem_reverse.1 hletter)

theorem isUnbroken_oneLine (text : String) : IsUnbroken (oneLine text) := by
  refine isUnbroken_intercalate (by decide) fun word hword c hc => ?_
  rcases List.mem_map.1 hword with ⟨letters, hletters, rfl⟩
  rw [String.toList_ofList] at hc
  exact isLineEnd_of_not_isBlank (not_isBlank_of_mem_wordsFrom (by simp) hletters c hc)

/-! ## Lines -/

theorem not_isBlank_of_getLast?_stripped {c : Char}
    (hlast : (stripped text).toList.getLast? = some c) : isBlank c = false := by
  rw [stripped, String.toList_ofList, List.getLast?_reverse] at hlast
  have hhead := List.head?_dropWhile_not isBlank (text.toList.dropWhile isBlank).reverse
  rw [hlast] at hhead
  simpa using hhead

/-- A line feed behind a character that ends no line ends the last line of the text. -/
theorem linesFrom_append {begun letters : List Char} (rest : List Char)
    (hletters : letters = [] → begun ≠ [])
    (hlast : ∀ c, letters.getLast? = some c → isLineEnd c = false) :
    linesFrom begun (letters ++ '\n' :: rest) = linesFrom begun letters ++ linesFrom [] rest := by
  fun_induction linesFrom begun letters with
  | case1 begun hempty => exact absurd (List.isEmpty_iff.1 hempty) (hletters rfl)
  | case2 begun hempty => simp [linesFrom, isLineEnd, lineEnds]
  | case3 begun later ih =>
      have hmore : later ≠ [] := by
        rintro rfl
        exact absurd (hlast '\n' rfl) (by decide)
      rw [List.cons_append, List.cons_append, linesFrom, List.cons_append, ih]
      · exact fun hnil => absurd hnil hmore
      · exact fun c hc => hlast c (by simp [List.getLast?_cons, hc])
  | case4 begun c later hpair hend ih =>
      have hmore : later ≠ [] := by
        rintro rfl
        rw [hlast c rfl] at hend
        contradiction
      rw [List.cons_append, linesFrom, if_pos hend, List.cons_append, ih]
      · exact fun hnil => absurd hnil hmore
      · exact fun last hc => hlast last (by simp [List.getLast?_cons, hc])
      · intro next hreturn hfeed
        cases later with
        | nil => exact hmore rfl
        | cons first later =>
            rw [List.cons_append, List.cons.injEq] at hfeed
            exact hpair later hreturn (by rw [hfeed.1])
  | case5 begun c later hpair hend ih =>
      rw [List.cons_append, linesFrom, if_neg hend, ih]
      · exact fun _ => List.cons_ne_nil c begun
      · exact fun last hc => hlast last (by simp [List.getLast?_cons, hc])
      · rintro next rfl -
        exact hend (by decide)

theorem linesFrom_of_unbroken {begun letters : List Char}
    (hletters : ∀ c ∈ letters, isLineEnd c = false) (rest : List Char) :
    linesFrom begun (letters ++ '\n' :: rest) =
      (begun.reverse ++ letters) :: linesFrom [] rest := by
  induction letters generalizing begun with
  | nil => simp [linesFrom, isLineEnd, lineEnds]
  | cons c later ih =>
      rw [List.forall_mem_cons] at hletters
      rw [List.cons_append, linesFrom, if_neg (by simp [hletters.1]), ih hletters.2]
      · simp
      · rintro next rfl -
        exact absurd hletters.1 (by decide)

/-- The characters of texts with a line feed behind each. -/
def endedLines (texts : List String) : List Char :=
  texts.flatMap fun text => text.toList ++ ['\n']

theorem endedLines_cons (text : String) (texts : List String) :
    endedLines (text :: texts) = text.toList ++ '\n' :: endedLines texts := by
  simp [endedLines]

theorem toList_join_map (texts : List String) :
    (String.join (texts.map (· ++ "\n"))).toList = endedLines texts := by
  simp [endedLines, String.toList_join, List.flatMap_map]

variable {texts : List String}

theorem lines_endedLines (htexts : ∀ text ∈ texts, IsUnbroken text) :
    lines (endedLines texts) = texts.map String.toList := by
  induction texts with
  | nil => rfl
  | cons text rest ih =>
      rw [List.forall_mem_cons] at htexts
      rw [endedLines_cons, lines, linesFrom_of_unbroken htexts.1, List.map_cons, ← ih htexts.2]
      rfl

theorem cut_endedLines (htexts : ∀ text ∈ texts, IsUnbroken text) :
    cut '\n' (endedLines texts) = texts.map String.toList ++ [[]] := by
  induction texts with
  | nil => rfl
  | cons text rest ih =>
      rw [List.forall_mem_cons] at htexts
      have hfeed : '\n' ∉ text.toList := fun hmem => by
        exact absurd (htexts.1 '\n' hmem) (by decide)
      rw [endedLines_cons, cut_append, cut_of_notMem hfeed, ih htexts.2]
      rfl

end Text

end ConfigSchema
