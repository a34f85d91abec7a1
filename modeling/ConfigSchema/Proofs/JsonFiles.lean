import ConfigSchema.Proofs.JsonLayout
import ConfigSchema.Proofs.UnbrokenTexts
import ConfigSchema.Text.Newline

/-!
# Files of JSON

A value without floats that is written on one line comes back as text from the bytes of a file: no
character of it ends a line, so none is lost where line ends are made alike.
-/

namespace ConfigSchema

namespace Text

theorem withLineFeeds_eq_self {s : List Char} (hreturn : '\r' ∉ s) : withLineFeeds s = s := by
  fun_induction withLineFeeds s with
  | case1 => rfl
  | case2 rest ih => simp at hreturn
  | case3 rest _ ih => simp at hreturn
  | case4 c rest _ _ ih => rw [ih fun hmem => hreturn (List.mem_cons_of_mem c hmem)]

theorem decoded?_toUTF8 {text : String} (hreturn : '\r' ∉ text.toList) :
    decoded? text.toUTF8 = some text := by
  have hvalid : String.fromUTF8? text.toUTF8 = some text := dif_pos text.isValidUTF8
  rw [decoded?, hvalid, Option.map_some, withLineFeeds_eq_self hreturn, String.ofList_toList]

end Text

namespace Json

namespace Printer

open Text

theorem isLineEnd_of_isVisible {c : Char} (hlow : 0x20 ≤ c.toNat) (hhigh : c.toNat ≤ 0x7E) :
    isLineEnd c = false := by
  simp only [isLineEnd, lineEnds, List.contains_eq_mem, decide_eq_false_iff_not, List.mem_cons,
    List.not_mem_nil, or_false, not_or]
  omega

theorem isLineEnd_unicodeEscape {code : Nat} (hlt : code < 0x10000) :
    ∀ c ∈ (unicodeEscape code).toList, isLineEnd c = false := by
  have hdigit : ∀ digit < 16, isLineEnd (Nat.digitChar digit) = false := by decide
  have hfront : "\\u".toList = ['\\', 'u'] := rfl
  rw [unicodeEscape, String.toList_append, toList_hexDigits hlt, hfront]
  simp only [List.cons_append, List.nil_append, List.forall_mem_cons]
  exact ⟨by decide, by decide, hdigit _ (by omega), hdigit _ (by omega), hdigit _ (by omega),
    hdigit _ (by omega), by simp⟩

theorem Writes.isLineEnd [Runtime] {c : Char} {chars : List Char} (hwrites : Writes c chars) :
    ∀ d ∈ chars, isLineEnd d = false := by
  have hbounds := Text.toNat_bounds c
  cases hwrites with
  | itself hlow hhigh hquote hslash =>
      exact List.forall_mem_singleton.2 (isLineEnd_of_isVisible hlow hhigh)
  | short mark hmark hcode hascii hsmall =>
      refine List.forall_mem_cons.2 ⟨by decide, List.forall_mem_singleton.2 ?_⟩
      unfold Reader.escape? at hmark
      split at hmark <;> first | decide | contradiction
  | code hone => exact isLineEnd_unicodeEscape (Text.codeOf_lt hone)
  | pair htwo =>
      exact List.forall_mem_append.2
        ⟨isLineEnd_unicodeEscape (by omega), isLineEnd_unicodeEscape (by omega)⟩

theorem isUnbroken_quoted [Runtime] (s : String) : IsUnbroken (quoted s) := by
  intro c hc
  rw [toList_quoted] at hc
  rcases List.mem_cons.1 hc with rfl | hc
  · decide
  · rcases List.mem_append.1 hc with hc | hc
    · obtain ⟨d, -, hmem⟩ := List.mem_flatMap.1 hc
      exact (writes_escapedChar d).isLineEnd c hmem
    · rw [List.mem_singleton.1 hc]
      decide

theorem isUnbroken_enclosed {opening closing : String} {items : List String}
    (hopening : IsUnbroken opening) (hclosing : IsUnbroken closing) (level : Nat)
    (hitems : ∀ item ∈ items, IsUnbroken item) :
    IsUnbroken (enclosed .oneLine level opening closing items) := by
  have hnothing : IsUnbroken "" := by decide
  have hcomma : IsUnbroken ", " := by decide
  unfold enclosed
  split_ifs
  · exact isUnbroken_append_iff.2 ⟨hopening, hclosing⟩
  · simp only [isUnbroken_append_iff]
    exact ⟨⟨⟨⟨hopening, hnothing⟩, isUnbroken_intercalate hcomma hitems⟩, hnothing⟩, hclosing⟩

theorem isUnbroken_value [Runtime] {v : Json} (hplain : v.IsPlain) :
    ∀ level, IsUnbroken (value .oneLine level v) := by
  induction hplain with
  | null => exact fun _ => (by decide : IsUnbroken "null")
  | bool b => exact fun _ => (by decide : ∀ b : Bool, IsUnbroken (if b then "true" else "false")) b
  | int n =>
      intro _ c hc
      rcases Reader.isDigit_or_minus hc with hdigit | rfl
      · simp only [Reader.isDigit, Bool.and_eq_true, decide_eq_true_eq] at hdigit
        have hlow : 48 ≤ c.toNat := hdigit.1
        have hhigh : c.toNat ≤ 57 := hdigit.2
        exact isLineEnd_of_isVisible (by omega) (by omega)
      · decide
  | str _ => exact fun _ => isUnbroken_quoted _
  | arr _ ih =>
      intro level
      rw [value, values_eq_map]
      exact isUnbroken_enclosed (by decide) (by decide) level
        (List.forall_mem_map.2 fun item hitem => ih item hitem _)
  | obj _ _ _ ih =>
      intro level
      rw [value, members_eq_map]
      refine isUnbroken_enclosed (by decide) (by decide) level
        (List.forall_mem_map.2 fun entry hentry => ?_)
      simp only [isUnbroken_append_iff]
      exact ⟨⟨isUnbroken_quoted _, by decide⟩, ih entry hentry _⟩

end Printer

/-- The text of a value on a line is the text of its bytes. -/
theorem decoded?_render [Runtime] {v : Json} (hplain : v.IsPlain) :
    Text.decoded? (v.render .oneLine ++ "\n").toUTF8 = some (v.render .oneLine ++ "\n") := by
  apply Text.decoded?_toUTF8
  rw [String.toList_append, List.mem_append]
  rintro (hreturn | hreturn)
  · exact absurd (Printer.isUnbroken_value hplain 0 '\r' hreturn) (by decide)
  · exact absurd hreturn (by decide)

end Json

end ConfigSchema
