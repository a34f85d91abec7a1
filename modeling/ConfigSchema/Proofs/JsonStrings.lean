import ConfigSchema.Json.Printer
import ConfigSchema.Json.Reader
import Mathlib.Data.List.Chain

/-!
# Texts in JSON

Every character is written by one or two codes, and the codes give the characters back unless a
held high surrogate is followed by a held low one.
-/

namespace ConfigSchema

namespace Text

/-! ## Held surrogates that meet -/

/-- Two characters whose codes are read as the pair that stands for one character. -/
def Meet [Runtime] (first second : Char) : Prop :=
  isSurrogate first ∧ isHighSurrogate (codeOf first) ∧
    isSurrogate second ∧ isLowSurrogate (codeOf second)

instance [Runtime] : DecidableRel Meet := fun first second =>
  inferInstanceAs (Decidable (isSurrogate first ∧ isHighSurrogate (codeOf first) ∧
    isSurrogate second ∧ isLowSurrogate (codeOf second)))

/-- No two characters in a row meet.  So it is wherever no surrogate is held, and in every text
that was read from codes. -/
def IsJoined [Runtime] (s : String) : Prop :=
  s.toList.IsChain fun first second => ¬ Meet first second

instance [Runtime] : DecidablePred IsJoined := fun s =>
  inferInstanceAs (Decidable (s.toList.IsChain fun first second => ¬ Meet first second))

theorem isSurrogate_eq_false [Runtime] {s : String} (hplain : hasSurrogate s = false) {c : Char}
    (hc : c ∈ s.toList) : isSurrogate c = false := by
  simpa using List.any_eq_false.1 hplain c hc

theorem toNat_bounds (c : Char) : c.toNat < 0xD800 ∨ 0xE000 ≤ c.toNat ∧ c.toNat < 0x110000 := by
  rcases c.valid with hlow | ⟨hlow, hhigh⟩
  · exact .inl hlow
  · exact .inr ⟨hlow, hhigh⟩

/-- A text in ASCII holds no surrogate, wherever these are held. -/
def IsAscii (text : String) : Prop :=
  ∀ c ∈ text.toList, c.toNat < 0x80

instance : DecidablePred IsAscii := fun text =>
  List.decidableBAll (fun c : Char => c.toNat < 0x80) text.toList

theorem isAscii_append_iff {first second : String} :
    IsAscii (first ++ second) ↔ IsAscii first ∧ IsAscii second := by
  simp only [IsAscii, String.toList_append, List.forall_mem_append]

theorem hasSurrogate_of_ascii [Runtime] {text : String} (hlow : IsAscii text) :
    hasSurrogate text = false := by
  rw [hasSurrogate, List.any_eq_false]
  intro c hc hsurrogate
  have hhigh := of_decide_eq_true (Bool.and_eq_true_iff.1 hsurrogate).1
  have hoffset := Runtime.le_surrogateOffset
  have hless := hlow c hc
  omega

/-- Where the characters that hold surrogates are beyond the last one, none does. -/
theorem hasSurrogate_of_beyond [Runtime] (hbeyond : 0x110000 ≤ 0xD800 + Runtime.surrogateOffset)
    (text : String) : hasSurrogate text = false := by
  rw [hasSurrogate, List.any_eq_false]
  intro c _ hsurrogate
  have hhigh := of_decide_eq_true (Bool.and_eq_true_iff.1 hsurrogate).1
  have hbound := toNat_bounds c
  omega

theorem isJoined_of_hasSurrogate [Runtime] {s : String} (hplain : hasSurrogate s = false) :
    IsJoined s := by
  apply List.Pairwise.isChain
  apply List.pairwise_of_forall_mem_list
  intro first hfirst second _ hmeet
  have hheld := hmeet.1
  rw [isSurrogate_eq_false hplain hfirst] at hheld
  contradiction

theorem isJoined_of_ascii [Runtime] {s : String} (hlow : IsAscii s) : IsJoined s :=
  isJoined_of_hasSurrogate (hasSurrogate_of_ascii hlow)

theorem isJoined_around [Runtime] {first middle last : String} (hfirst : IsJoined first)
    (hmiddle : hasSurrogate middle = false) (hne : middle ≠ "") (hlast : IsJoined last) :
    IsJoined (first ++ middle ++ last) := by
  have hapart : ∀ c ∈ middle.toList, ∀ other, ¬ Meet other c ∧ ¬ Meet c other := by
    intro c hc other
    have hplain := isSurrogate_eq_false hmiddle hc
    simp [Meet, hplain]
  have hfilled : middle.toList ≠ [] := fun hnil => hne (String.toList_inj.1 (by simpa using hnil))
  simp only [IsJoined, String.toList_append]
  apply List.IsChain.append
  · apply List.IsChain.append hfirst (isJoined_of_hasSurrogate hmiddle)
    intro before _ c hc
    exact (hapart c (List.mem_of_mem_head? hc) before).1
  · exact hlast
  · intro c hc after _
    rw [List.getLast?_append_of_ne_nil _ hfilled] at hc
    exact (hapart c (List.mem_of_mem_getLast? hc) after).2

theorem isJoined_after [Runtime] {front last : String} (hfront : hasSurrogate front = false)
    (hne : front ≠ "") (hlast : IsJoined last) : IsJoined (front ++ last) := by
  have hempty : IsJoined "" := isJoined_of_hasSurrogate rfl
  simpa using isJoined_around hempty hfront hne hlast

theorem isJoined_intercalate [Runtime] {separator : String}
    (hplain : hasSurrogate separator = false)
    (hne : separator ≠ "") {texts : List String} (htexts : ∀ text ∈ texts, IsJoined text) :
    IsJoined (separator.intercalate texts) := by
  induction texts with
  | nil => exact isJoined_of_hasSurrogate rfl
  | cons text rest ih =>
      have htext := htexts text List.mem_cons_self
      have hrest := ih fun other hother => htexts other (List.mem_cons_of_mem _ hother)
      cases rest with
      | nil => simpa using htext
      | cons next rest =>
          rw [String.intercalate_cons_cons]
          exact isJoined_around htext hplain hne hrest

/-! ## Characters as codes -/

/-- The codes that a character is written with. -/
def units [Runtime] (c : Char) : List Nat :=
  if isSurrogate c ∨ c.toNat < 0x10000 then [codeOf c]
  else [0xD800 + (c.toNat - 0x10000) / 0x400, 0xDC00 + (c.toNat - 0x10000) % 0x400]

theorem codeOf_bounds [Runtime] {c : Char} (hheld : isSurrogate c = true) :
    0xD800 ≤ codeOf c ∧ codeOf c < 0xE000 := by
  have hcode : codeOf c = c.toNat - Runtime.surrogateOffset := by rw [codeOf, if_pos hheld]
  simp only [isSurrogate, Bool.and_eq_true, decide_eq_true_eq] at hheld
  rw [hcode]
  omega

theorem codeOf_of_not_isSurrogate [Runtime] {c : Char} (hplain : isSurrogate c = false) :
    codeOf c = c.toNat := by
  simp [codeOf, hplain]

theorem codeOf_lt [Runtime] {c : Char} (hone : isSurrogate c = true ∨ c.toNat < 0x10000) :
    codeOf c < 0x10000 := by
  cases hheld : isSurrogate c with
  | true =>
      have hbounds := codeOf_bounds hheld
      omega
  | false =>
      rw [codeOf_of_not_isSurrogate hheld]
      simpa [hheld] using hone

theorem ofCode_codeOf [Runtime] (c : Char) : ofCode (codeOf c) = c := by
  cases hheld : isSurrogate c with
  | true =>
      rcases codeOf_bounds hheld with ⟨hlow, hhigh⟩
      have hcode : codeOf c + Runtime.surrogateOffset = c.toNat := by
        have hoffset : Runtime.surrogateOffset ≤ c.toNat := by
          simp only [isSurrogate, Bool.and_eq_true, decide_eq_true_eq] at hheld
          omega
        rw [codeOf, if_pos hheld]
        omega
      have hsurrogate : (isHighSurrogate (codeOf c) || isLowSurrogate (codeOf c)) = true := by
        simp only [isHighSurrogate, isLowSurrogate, Bool.or_eq_true, Bool.and_eq_true,
          decide_eq_true_eq]
        omega
      have hbounds := toNat_bounds c
      rw [ofCode, if_pos hsurrogate, ofSurrogate, hcode, if_pos (by omega), Char.ofNat_toNat]
  | false =>
      have hbounds := toNat_bounds c
      have hplain : (isHighSurrogate c.toNat || isLowSurrogate c.toNat) = false := by
        simp only [isHighSurrogate, isLowSurrogate, Bool.or_eq_false_iff, Bool.and_eq_false_iff,
          decide_eq_false_iff_not]
        omega
      rw [codeOf_of_not_isSurrogate hheld, ofCode, hplain]
      exact Char.ofNat_toNat c

theorem joinSurrogates_cons [Runtime] {code : Nat} {rest : List Nat}
    (hapart : ∀ next ∈ rest.head?, ¬ (isHighSurrogate code ∧ isLowSurrogate next)) :
    joinSurrogates (code :: rest) = ofCode code :: joinSurrogates rest := by
  cases rest with
  | nil => rfl
  | cons next rest =>
      have hpair : (isHighSurrogate code && isLowSurrogate next) = false := by
        simpa using hapart next rfl
      rw [joinSurrogates, hpair]
      rfl

theorem joinSurrogates_pair [Runtime] {code : Nat} (hlow : 0x10000 ≤ code) (hhigh : code < 0x110000)
    (rest : List Nat) :
    joinSurrogates ((0xD800 + (code - 0x10000) / 0x400) ::
      (0xDC00 + (code - 0x10000) % 0x400) :: rest) = Char.ofNat code :: joinSurrogates rest := by
  have hpair : (isHighSurrogate (0xD800 + (code - 0x10000) / 0x400) &&
      isLowSurrogate (0xDC00 + (code - 0x10000) % 0x400)) = true := by
    simp only [isHighSurrogate, isLowSurrogate, Bool.and_eq_true, decide_eq_true_eq]
    omega
  have hcode : pairedSurrogates (0xD800 + (code - 0x10000) / 0x400)
      (0xDC00 + (code - 0x10000) % 0x400) = code := by
    unfold pairedSurrogates
    omega
  rw [joinSurrogates, if_pos hpair, hcode]

/-- Only a held low surrogate is written with a low surrogate in front. -/
theorem isSurrogate_of_isLowSurrogate [Runtime] {c : Char} {rest : List Nat} {code : Nat}
    (hcode : code ∈ (units c ++ rest).head?) (hlow : isLowSurrogate code = true) :
    isSurrogate c = true ∧ code = codeOf c := by
  have hbounds := toNat_bounds c
  simp only [isLowSurrogate, Bool.and_eq_true, decide_eq_true_eq] at hlow
  cases hheld : isSurrogate c with
  | true =>
      simp only [units, hheld, true_or, if_true, List.cons_append, List.head?_cons,
        Option.mem_def, Option.some.injEq] at hcode
      exact ⟨rfl, hcode.symm⟩
  | false =>
      exfalso
      by_cases hsmall : c.toNat < 0x10000
      · simp only [units, hsmall, or_true, if_true, codeOf_of_not_isSurrogate hheld,
          List.cons_append, List.head?_cons, Option.mem_def, Option.some.injEq] at hcode
        omega
      · simp only [units, hheld, hsmall, Bool.false_eq_true, or_self, if_false,
          List.cons_append, List.head?_cons, Option.mem_def, Option.some.injEq] at hcode
        omega

theorem isSurrogate_of_isHighSurrogate [Runtime] {c : Char}
    (hhigh : isHighSurrogate (codeOf c) = true) :
    isSurrogate c = true := by
  by_contra hplain
  have hbounds := toNat_bounds c
  rw [codeOf_of_not_isSurrogate (by simpa using hplain)] at hhigh
  simp only [isHighSurrogate, Bool.and_eq_true, decide_eq_true_eq] at hhigh
  omega

/-- Codes of different characters make a pair only if the characters meet. -/
theorem apart_of_isChain [Runtime] {c : Char} {rest : List Char}
    (hjoined : (c :: rest).IsChain fun first second => ¬ Meet first second) :
    ∀ next ∈ (rest.flatMap units).head?,
      ¬ (isHighSurrogate (codeOf c) ∧ isLowSurrogate next) := by
  rintro next hnext ⟨hhigh, hlow⟩
  cases rest with
  | nil => simp at hnext
  | cons second rest =>
      rw [List.flatMap_cons] at hnext
      rcases isSurrogate_of_isLowSurrogate hnext hlow with ⟨hsecond, rfl⟩
      have hfirst := isSurrogate_of_isHighSurrogate hhigh
      exact (List.isChain_cons_cons.1 hjoined).1 ⟨hfirst, hhigh, hsecond, hlow⟩

theorem joinSurrogates_units [Runtime] {chars : List Char}
    (hjoined : chars.IsChain fun first second => ¬ Meet first second) :
    joinSurrogates (chars.flatMap units) = chars := by
  induction chars with
  | nil => rfl
  | cons c rest ih =>
      have hrest := ih (List.isChain_cons.1 hjoined).2
      rw [List.flatMap_cons]
      by_cases hone : isSurrogate c ∨ c.toNat < 0x10000
      · rw [units, if_pos hone, List.singleton_append,
          joinSurrogates_cons (apart_of_isChain hjoined), hrest, ofCode_codeOf]
      · have hbounds := toNat_bounds c
        have hlarge := (not_or.1 hone).2
        rw [units, if_neg hone, List.cons_append, List.singleton_append,
          joinSurrogates_pair (by omega) (by omega), Char.ofNat_toNat, hrest]

/-! ## Hexadecimal codes -/

theorem hexDigit?_digitChar {n : Nat} (hlt : n < 16) : hexDigit? (Nat.digitChar n) = some n := by
  have hall : ∀ digit < 16, hexDigit? (Nat.digitChar digit) = some digit := by decide
  exact hall n hlt

theorem hexValue?_digitChars {a b c d : Nat} (ha : a < 16) (hb : b < 16) (hc : c < 16)
    (hd : d < 16) :
    hexValue? [Nat.digitChar a, Nat.digitChar b, Nat.digitChar c, Nat.digitChar d] =
      some (16 * (16 * (16 * a + b) + c) + d) := by
  simp [hexValue?, hexDigit?_digitChar, ha, hb, hc, hd]

end Text

namespace Json

namespace Printer

theorem toList_hexDigits {n : Nat} (hlt : n < 0x10000) :
    (hexDigits 4 n).toList =
      [Nat.digitChar (n / 16 / 16 / 16), Nat.digitChar (n / 16 / 16 % 16),
        Nat.digitChar (n / 16 % 16), Nat.digitChar (n % 16)] := by
  have hmore : ∀ m, 16 ≤ m →
      Nat.toDigits 16 m = Nat.toDigits 16 (m / 16) ++ [Nat.digitChar (m % 16)] := by
    intro m hm
    exact Nat.toDigits_of_base_le (by decide) hm
  have hlast : ∀ m, m < 16 → Nat.toDigits 16 m = [Nat.digitChar (m % 16)] := by
    intro m hm
    rw [Nat.mod_eq_of_lt hm]
    exact Nat.toDigits_of_lt_base hm
  rw [hexDigits, String.toList_ofList, DecimalLayout.padded]
  by_cases hone : n < 16
  · have hzero : n / 16 = 0 := by omega
    rw [hlast n hone, hzero]
    rfl
  · by_cases htwo : n / 16 < 16
    · have hzero : n / 16 / 16 = 0 := by omega
      rw [hmore n (by omega), hlast _ htwo, hzero]
      rfl
    · by_cases hthree : n / 16 / 16 < 16
      · have hzero : n / 16 / 16 / 16 = 0 := by omega
        rw [hmore n (by omega), hmore _ (by omega), hlast _ hthree, hzero]
        rfl
      · have hfour : n / 16 / 16 / 16 < 16 := by omega
        rw [hmore n (by omega), hmore _ (by omega), hmore _ (by omega), hlast _ hfour,
          Nat.mod_eq_of_lt hfour]
        rfl

/-- The ways to write a character inside a string. -/
inductive Writes [Runtime] (c : Char) : List Char → Prop
  | itself (hlow : 0x20 ≤ c.toNat) (hhigh : c.toNat ≤ 0x7E) (hquote : c ≠ '"')
      (hslash : c ≠ '\\') : Writes c [c]
  | short (mark : Char) (hmark : Reader.escape? mark = some c) (hcode : mark ≠ 'u')
      (hascii : mark.toNat < 0x80) (hsmall : c.toNat < 0x80) : Writes c ['\\', mark]
  | code (hone : Text.isSurrogate c = true ∨ c.toNat < 0x10000) :
      Writes c (unicodeEscape (Text.codeOf c)).toList
  | pair (htwo : ¬ (Text.isSurrogate c = true ∨ c.toNat < 0x10000)) :
      Writes c ((unicodeEscape (0xD800 + (c.toNat - 0x10000) / 0x400)).toList ++
        (unicodeEscape (0xDC00 + (c.toNat - 0x10000) % 0x400)).toList)

theorem writes_escapedChar [Runtime] (c : Char) : Writes c (escapedChar c).toList := by
  unfold escapedChar
  by_cases hquote : c = '"'
  · subst hquote
    rw [if_pos rfl]
    exact .short '"' rfl (by decide) (by decide) (by decide)
  rw [if_neg hquote]
  by_cases hslash : c = '\\'
  · subst hslash
    rw [if_pos rfl]
    exact .short '\\' rfl (by decide) (by decide) (by decide)
  rw [if_neg hslash]
  by_cases hline : c = '\n'
  · subst hline
    rw [if_pos rfl]
    exact .short 'n' rfl (by decide) (by decide) (by decide)
  rw [if_neg hline]
  by_cases hreturn : c = '\r'
  · subst hreturn
    rw [if_pos rfl]
    exact .short 'r' rfl (by decide) (by decide) (by decide)
  rw [if_neg hreturn]
  by_cases htab : c = '\t'
  · subst htab
    rw [if_pos rfl]
    exact .short 't' rfl (by decide) (by decide) (by decide)
  rw [if_neg htab]
  by_cases hback : c = '\x08'
  · subst hback
    rw [if_pos rfl]
    exact .short 'b' rfl (by decide) (by decide) (by decide)
  rw [if_neg hback]
  by_cases hfeed : c = '\x0c'
  · subst hfeed
    rw [if_pos rfl]
    exact .short 'f' rfl (by decide) (by decide) (by decide)
  rw [if_neg hfeed]
  by_cases hprintable : ' ' ≤ c ∧ c ≤ '~'
  · rw [if_pos hprintable, Char.toString, String.toList_singleton]
    exact .itself hprintable.1 hprintable.2 hquote hslash
  rw [if_neg hprintable]
  by_cases hheld : Text.isSurrogate c = true
  · rw [if_pos hheld]
    exact .code (.inl hheld)
  rw [if_neg hheld]
  by_cases hsmall : c.toNat < 0x10000
  · rw [if_pos hsmall, ← Text.codeOf_of_not_isSurrogate (by simpa using hheld)]
    exact .code (.inr hsmall)
  · rw [if_neg hsmall, String.toList_append]
    exact .pair (by simp [hheld, hsmall])

end Printer

namespace Reader

open Text

theorem codes_unicodeEscape [Runtime] {code : Nat} (hlt : code < 0x10000) (seen : List Nat)
    (rest : List Char) :
    codes seen ((Printer.unicodeEscape code).toList ++ rest) = codes (code :: seen) rest := by
  have hvalue : 16 * (16 * (16 * (code / 16 / 16 / 16) + code / 16 / 16 % 16) + code / 16 % 16) +
      code % 16 = code := by
    omega
  have hescape : (Printer.unicodeEscape code).toList =
      '\\' :: 'u' :: (Printer.hexDigits 4 code).toList := by
    rw [Printer.unicodeEscape, String.toList_append]
    rfl
  rw [hescape, Printer.toList_hexDigits hlt]
  simp only [List.cons_append, List.nil_append]
  rw [codes, hexValue?_digitChars (by omega) (by omega) (by omega) (by omega), hvalue]

theorem codes_cons [Runtime] {c : Char} (hquote : c ≠ '"') (hslash : c ≠ '\\')
    (hlow : 0x20 ≤ c.toNat) (seen : List Nat) (rest : List Char) :
    codes seen (c :: rest) = codes (codeOf c :: seen) rest := by
  have hgood : ¬ (c.toNat < 0x20 ∨ c = '\\') := by
    rintro (hsmall | heq)
    · omega
    · exact hslash heq
  rw [codes.eq_5 seen c rest hquote (by simp [hslash]) (by simp [hslash]), if_neg hgood]

theorem codes_of_writes [Runtime] {c : Char} {chars : List Char} (hwrites : Printer.Writes c chars)
    (seen : List Nat) (rest : List Char) :
    codes seen (chars ++ rest) = codes ((units c).reverse ++ seen) rest := by
  have hbounds := toNat_bounds c
  cases hwrites with
  | itself hlow hhigh hquote hslash =>
      rw [List.singleton_append, codes_cons hquote hslash hlow, units, if_pos (.inr (by omega))]
      rfl
  | short mark hmark hcode hascii hsmall =>
      have hplain : isSurrogate c = false := by
        rw [Bool.eq_false_iff]
        intro hheld
        have hoffset := Runtime.le_surrogateOffset
        simp only [isSurrogate, Bool.and_eq_true, decide_eq_true_eq] at hheld
        omega
      rw [List.cons_append, List.singleton_append, codes.eq_4 seen mark rest (by simp [hcode]),
        hmark, units, if_pos (.inr (by omega)), codeOf_of_not_isSurrogate hplain]
      rfl
  | code hone =>
      rw [codes_unicodeEscape (codeOf_lt hone), units, if_pos hone]
      rfl
  | pair htwo =>
      rw [List.append_assoc, codes_unicodeEscape (by omega), codes_unicodeEscape (by omega), units,
        if_neg htwo]
      rfl

theorem codes_escapedChars [Runtime] (chars : List Char) (seen : List Nat) (rest : List Char) :
    codes seen (chars.flatMap (fun c => (Printer.escapedChar c).toList) ++ '"' :: rest) =
      .ok ((chars.flatMap units).reverse ++ seen, rest) := by
  induction chars generalizing seen with
  | nil => rfl
  | cons c chars ih =>
      rw [List.flatMap_cons, List.append_assoc,
        codes_of_writes (Printer.writes_escapedChar c), ih, List.flatMap_cons,
        List.reverse_append, List.append_assoc]

end Reader

theorem Printer.toList_quoted [Runtime] (s : String) :
    (quoted s).toList =
      '"' :: (s.toList.flatMap (fun c => (escapedChar c).toList) ++ ['"']) := by
  simp [quoted, String.toList_join, List.flatMap_map]

/-- A joined text is read as it was written. -/
theorem Reader.text_quoted [Runtime] {s : String} (hjoined : Text.IsJoined s) (rest : List Char) :
    ∃ body, (Printer.quoted s).toList ++ rest = '"' :: body ∧ text body = .ok (s, rest) := by
  refine ⟨_, by rw [Printer.toList_quoted, List.cons_append, List.append_assoc], ?_⟩
  rw [text, List.singleton_append, codes_escapedChars]
  simp only [Except.map, List.append_nil, List.reverse_reverse, Text.joinSurrogates_units hjoined,
    String.ofList_toList]

-- a private character that holds no surrogate is a character like any other
example :
    let _ : Runtime :=
      { Runtime.usual with surrogateOffset := 0x110000, le_surrogateOffset := by decide }
    Printer.quoted (Char.ofNat 0x10D800).toString = "\"\\udbf6\\udc00\"" := by rfl

end Json

end ConfigSchema
