import ConfigSchema.Proofs.FiniteNumbers
import ConfigSchema.Proofs.LadderSources
import ConfigSchema.Schema.Default
import Mathlib.Data.List.DropRight

/-!
# Numerals

A number is written with a whole part, which has no needless zeros, a fraction and an exponent, of
which the last two may be missing.  Whatever is laid out so is read as one token up to what cannot
go on with it, and its value is that of the digits.
-/

namespace ConfigSchema

namespace Sdl

open Lexer

/-- The parts of a number as it is written. -/
structure Numeral where
  isNegative : Bool := false
  whole : List Char
  fraction : List Char := []
  /-- The sign of the exponent and its digits. -/
  exponent : Option (Char × List Char) := none

namespace Numeral

variable {n : Numeral} {rest : List Char}

def sign (n : Numeral) : List Char :=
  if n.isNegative then ['-'] else []

def fractionPart (n : Numeral) : List Char :=
  if n.fraction = [] then [] else '.' :: n.fraction

def exponentPart (n : Numeral) : List Char :=
  match n.exponent with
  | none => []
  | some (sign, digits) => 'e' :: sign :: digits

def text (n : Numeral) : String :=
  String.ofList (n.sign ++ n.whole ++ n.fractionPart ++ n.exponentPart)

/-- Whether nothing but a whole part is written. -/
def isWhole (n : Numeral) : Bool :=
  n.fractionPart.isEmpty && n.exponentPart.isEmpty

def token (n : Numeral) : Token :=
  if n.isWhole then .int n.text else .float n.text

structure IsProper (n : Numeral) : Prop where
  whole : ∀ c ∈ n.whole, isDigit c = true
  whole_ne_nil : n.whole ≠ []
  leading : 1 < n.whole.length → n.whole.head? ≠ some '0'
  fraction : ∀ c ∈ n.fraction, isDigit c = true
  exponent : ∀ sign digits, n.exponent = some (sign, digits) →
    (sign = '-' ∨ sign = '+') ∧ digits ≠ [] ∧ ∀ c ∈ digits, isDigit c = true

/-- What cannot go on with a number. -/
def EndsNumber (rest : List Char) : Prop :=
  ∀ c ∈ rest.head?, isNamePart c = false ∧ c ≠ '.'

/-! ## Reading parts -/

theorem digits_append {found rest : List Char} (hdigits : ∀ c ∈ found, isDigit c = true)
    (hne : found ≠ []) (hrest : ∀ c ∈ rest.head?, isDigit c = false) :
    digits (found ++ rest) = some (found, rest) := by
  have htake : (found ++ rest).takeWhile isDigit = found ∧
      (found ++ rest).dropWhile isDigit = rest := by
    rw [List.takeWhile_append_of_pos hdigits, List.dropWhile_append_of_pos hdigits]
    cases rest with
    | nil => simp
    | cons c rest =>
        have hc := hrest c rfl
        simp [hc]
  unfold digits
  rw [htake.1, htake.2]
  simp [hne]

theorem EndsNumber.isDigit (hends : EndsNumber rest) :
    ∀ c ∈ rest.head?, Lexer.isDigit c = false := by
  intro c hc
  exact (Bool.or_eq_false_iff.1 (hends c hc).1).2

theorem EndsNumber.extendsNumber (hends : EndsNumber rest) : extendsNumber rest = false := by
  cases rest with
  | nil => rfl
  | cons c rest =>
      obtain ⟨hpart, hpoint⟩ := hends c rfl
      have hstart := (Bool.or_eq_false_iff.1 hpart).1
      simp [Lexer.extendsNumber, hpoint, hstart]

theorem exponentPart_append (hproper : n.IsProper) (hends : EndsNumber rest) :
    Lexer.exponentPart (n.exponentPart ++ rest) = some (n.exponentPart, rest) := by
  unfold exponentPart
  split
  · cases rest with
    | nil => rfl
    | cons c rest =>
        have hpart := (hends c rfl).1
        have hlower : c ≠ 'e' := by
          rintro rfl
          contradiction
        have hupper : c ≠ 'E' := by
          rintro rfl
          contradiction
        simp [Lexer.exponentPart, hlower, hupper]
  · next sign digits hexponent =>
      obtain ⟨hsign, hne, hdigits⟩ := hproper.exponent sign digits hexponent
      have hread := digits_append hdigits hne hends.isDigit
      have hsigned : signedDigits (sign :: digits ++ rest) = some (sign :: digits, rest) := by
        rcases hsign with rfl | rfl <;> simp [signedDigits, hread]
      rw [List.cons_append, List.cons_append, Lexer.exponentPart, if_pos (.inl rfl)]
      rw [List.cons_append] at hsigned
      rw [hsigned]
      rfl

/-- Behind the digits of a number no further digit stands. -/
theorem head?_exponentPart (hends : EndsNumber rest) :
    ∀ c ∈ (n.exponentPart ++ rest).head?, isDigit c = false ∧ c ≠ '.' := by
  unfold exponentPart
  split
  · exact fun c hc => ⟨hends.isDigit c hc, (hends c hc).2⟩
  · intro c hc
    cases hc
    exact ⟨by decide, by decide⟩

theorem fractionPart_append (hproper : n.IsProper) (hends : EndsNumber rest) :
    Lexer.fractionPart (n.fractionPart ++ (n.exponentPart ++ rest)) =
      some (n.fractionPart, n.exponentPart ++ rest) := by
  have hafter := head?_exponentPart (n := n) hends
  generalize n.exponentPart ++ rest = after at hafter ⊢
  unfold fractionPart
  split_ifs with hempty
  · cases after with
    | nil => rfl
    | cons c after =>
        unfold Lexer.fractionPart
        split
        · next heq => exact absurd (List.cons.inj heq).1 (hafter c rfl).2
        · rfl
  · rw [List.cons_append, Lexer.fractionPart,
      digits_append hproper.fraction hempty fun c hc => (hafter c hc).1]
    rfl

theorem head?_fractionPart (hends : EndsNumber rest) :
    ∀ c ∈ (n.fractionPart ++ (n.exponentPart ++ rest)).head?, isDigit c = false := by
  unfold fractionPart
  split_ifs
  · exact fun c hc => (head?_exponentPart hends c hc).1
  · intro c hc
    cases hc
    decide

theorem wholePart_append (hproper : n.IsProper) (hends : EndsNumber rest) :
    wholePart (n.whole ++ (n.fractionPart ++ (n.exponentPart ++ rest))) =
      some (n.whole, n.fractionPart ++ (n.exponentPart ++ rest)) := by
  have hleading : ¬ (n.whole.length > 1 ∧ n.whole.head? = some '0') :=
    fun hboth => hproper.leading hboth.1 hboth.2
  rw [wholePart, digits_append hproper.whole hproper.whole_ne_nil (head?_fractionPart hends)]
  simp only [if_neg hleading]

theorem unsignedNumber_append (hproper : n.IsProper) (hends : EndsNumber rest) :
    unsignedNumber n.sign (n.whole ++ (n.fractionPart ++ (n.exponentPart ++ rest))) =
      some (n.token, rest) := by
  unfold unsignedNumber
  simp only [wholePart_append hproper hends, fractionPart_append hproper hends,
    exponentPart_append hproper hends, hends.extendsNumber, Option.bind_eq_bind, Option.bind_some,
    Bool.false_eq_true, if_false]
  split
  · next hwhole => rw [token, isWhole, if_pos hwhole, text]
  · next hwhole => rw [token, isWhole, if_neg hwhole, text]

theorem toList_text (n : Numeral) :
    n.text.toList = n.sign ++ (n.whole ++ (n.fractionPart ++ n.exponentPart)) := by
  simp [text]

/-- A numeral begins with a sign or a digit. -/
theorem exists_head (hproper : n.IsProper) :
    ∃ first more, n.text.toList = first :: more ∧ (first = '-' ∨ isDigit first = true) := by
  rw [toList_text]
  unfold sign
  cases n.isNegative with
  | true => exact ⟨_, _, rfl, .inl rfl⟩
  | false =>
      cases hwhole : n.whole with
      | nil => exact absurd hwhole hproper.whole_ne_nil
      | cons first more =>
          exact ⟨first, _, rfl, .inr (hproper.whole first (by simp [hwhole]))⟩

/-- A numeral is read as one number up to what cannot go on with it. -/
theorem number_append (hproper : n.IsProper) (hends : EndsNumber rest) :
    number (n.text.toList ++ rest) = some (n.token, rest) := by
  have hread := unsignedNumber_append hproper hends
  rw [toList_text, List.append_assoc, List.append_assoc, List.append_assoc]
  unfold sign at hread ⊢
  cases hnegative : n.isNegative with
  | true =>
      rw [hnegative] at hread
      exact hread
  | false =>
      rw [hnegative] at hread
      cases hwhole : n.whole with
      | nil => exact absurd hwhole hproper.whole_ne_nil
      | cons first more =>
          have hminus : first ≠ '-' := by
            rintro rfl
            exact absurd (hproper.whole '-' (by simp [hwhole])) (by decide)
          rw [hwhole] at hread
          have hplain : number (first :: (more ++ (n.fractionPart ++ (n.exponentPart ++ rest)))) =
              unsignedNumber []
                (first :: (more ++ (n.fractionPart ++ (n.exponentPart ++ rest)))) := by
            unfold number
            split
            · next heq => exact absurd (List.cons.inj heq).1 hminus
            · rfl
          exact hplain.trans hread

/-! ## Values -/

def exponentValue (n : Numeral) : Int :=
  match n.exponent with
  | none => 0
  | some (sign, digits) => Schema.intOfText (String.ofList (sign :: digits))

theorem signed_text (hproper : n.IsProper) :
    Decimal.signed n.text.toList =
      (n.isNegative, n.whole ++ (n.fractionPart ++ n.exponentPart)) := by
  rw [toList_text]
  unfold sign
  cases n.isNegative with
  | true => rfl
  | false =>
      cases hwhole : n.whole with
      | nil => exact absurd hwhole hproper.whole_ne_nil
      | cons first more =>
          have hfirst := hproper.whole first (by simp [hwhole])
          unfold Decimal.signed
          split
          · next heq =>
              rw [(List.cons.inj heq).1] at hfirst
              contradiction
          · next heq =>
              rw [(List.cons.inj heq).1] at hfirst
              contradiction
          · rfl

theorem ne_of_isDigit {c other : Char} (hc : isDigit c = true)
    (hother : isDigit other = false) : c ≠ other := by
  rintro rfl
  rw [hc] at hother
  contradiction

/-- The value of a numeral is that of its digits. -/
theorem floatOfText_text (hproper : n.IsProper) :
    Schema.floatOfText n.text =
      .ofDecimal n.isNegative (Decimal.natOfDigits (n.whole ++ n.fraction))
        (n.exponentValue - n.fraction.length) := by
  have hwhole : ∀ c ∈ n.whole, decide (c ≠ '.') = true := fun c hc =>
    decide_eq_true (ne_of_isDigit (hproper.whole c hc) (by decide))
  have hmantissa : ∀ c ∈ n.whole ++ n.fractionPart,
      (!(decide (c = 'e') || decide (c = 'E'))) = true := by
    have hdigit : ∀ c, isDigit c = true → (!(decide (c = 'e') || decide (c = 'E'))) = true := by
      intro c hc
      have hlower := ne_of_isDigit hc (by decide : isDigit 'e' = false)
      have hupper := ne_of_isDigit hc (by decide : isDigit 'E' = false)
      simp [hlower, hupper]
    intro c hc
    rcases List.mem_append.1 hc with hwhole | hfraction
    · exact hdigit c (hproper.whole c hwhole)
    · unfold fractionPart at hfraction
      split_ifs at hfraction
      · simp at hfraction
      · rcases List.mem_cons.1 hfraction with rfl | hfraction
        · rfl
        · exact hdigit c (hproper.fraction c hfraction)
  have hbehind : n.exponentPart.takeWhile (fun c => !(decide (c = 'e') || decide (c = 'E'))) = [] ∧
      n.exponentPart.dropWhile (fun c => !(decide (c = 'e') || decide (c = 'E'))) =
        n.exponentPart ∧
      Schema.intOfText (String.ofList (n.exponentPart.drop 1)) = n.exponentValue := by
    unfold exponentPart exponentValue
    cases n.exponent with
    | none => exact ⟨rfl, rfl, rfl⟩
    | some signed => exact ⟨rfl, rfl, rfl⟩
  have hfraction : n.fractionPart.takeWhile (fun c => decide (c ≠ '.')) = [] ∧
      (n.fractionPart.dropWhile fun c => decide (c ≠ '.')).drop 1 = n.fraction := by
    unfold fractionPart
    split_ifs with hempty
    · rw [hempty]
      exact ⟨rfl, rfl⟩
    · exact ⟨rfl, rfl⟩
  rw [Schema.floatOfText, signed_text hproper]
  dsimp only
  rw [← List.append_assoc, List.takeWhile_append_of_pos hmantissa,
    List.dropWhile_append_of_pos hmantissa, hbehind.1, hbehind.2.1, hbehind.2.2, List.append_nil,
    List.takeWhile_append_of_pos hwhole, List.dropWhile_append_of_pos hwhole, hfraction.1,
    hfraction.2, List.append_nil]

end Numeral

end Sdl

namespace Decimal

theorem natOfDigits_append_replicate (digits : List Char) (count : Nat) :
    natOfDigits (digits ++ List.replicate count '0') = natOfDigits digits * 10 ^ count := by
  induction count with
  | zero => simp
  | succ count ih =>
      have hlast : natOfDigits ((digits ++ List.replicate count '0') ++ ['0']) =
          10 * natOfDigits (digits ++ List.replicate count '0') := by
        simp [natOfDigits]
      rw [List.replicate_succ', ← List.append_assoc, hlast, ih, Nat.pow_succ]
      ring

theorem natOfDigits_replicate_append (count : Nat) (digits : List Char) :
    natOfDigits (List.replicate count '0' ++ digits) = natOfDigits digits := by
  induction count with
  | zero => rfl
  | succ count ih => exact ih

theorem natOfDigits_toDigits (n : Nat) : natOfDigits (Nat.toDigits 10 n) = n :=
  Nat.ofDigitChars_toDigits (by decide) (by decide)

/-- Digits without the zeros at their end. -/
def stripped (digits : List Char) : List Char :=
  (digits.reverse.dropWhile (· = '0')).reverse

theorem exists_stripped (digits : List Char) :
    ∃ count, digits = stripped digits ++ List.replicate count '0' := by
  have hzeros : digits.reverse.takeWhile (· = '0') =
      List.replicate (digits.reverse.takeWhile (· = '0')).length '0' :=
    List.eq_replicate_of_mem fun c hc =>
      of_decide_eq_true (List.mem_takeWhile_imp (p := (· = '0')) hc)
  have hsplit := congrArg List.reverse
    (List.takeWhile_append_dropWhile (p := (· = '0')) (l := digits.reverse))
  rw [List.reverse_append, List.reverse_reverse, hzeros, List.reverse_replicate] at hsplit
  exact ⟨_, hsplit.symm⟩

theorem getLast?_stripped (digits : List Char) : (stripped digits).getLast? ≠ some '0' := by
  rw [stripped, List.getLast?_reverse]
  intro hzero
  have hfirst := List.head?_dropWhile_not (· = '0') digits.reverse
  rw [hzero] at hfirst
  contradiction

end Decimal

namespace Binary64

open Decimal

theorem isDigit_of_mem_toDigits {n : Nat} {c : Char} (hc : c ∈ Nat.toDigits 10 n) :
    Sdl.Lexer.isDigit c = true := by
  have hdigit := Json.Reader.isDigit_of_mem_toDigits hc
  simp only [Json.Reader.isDigit, Bool.and_eq_true, decide_eq_true_eq] at hdigit
  simp only [Sdl.Lexer.isDigit, Bool.and_eq_true, decide_eq_true_eq]
  exact hdigit

def exponentSign (leading : Int) : Char :=
  if leading < 0 then '-' else '+'

/-- The numeral of digits, of which the first stands at the given place. -/
def laid (isNegative : Bool) (digits : List Char) (leading : Int) : Sdl.Numeral :=
  if layout.lowestPlace ≤ leading ∧ leading ≤ layout.highestPlace then
    if leading < 0 then
      { isNegative, whole := ['0']
        fraction := List.replicate (leading.natAbs - 1) '0' ++ digits }
    else if digits.length ≤ leading.natAbs + 1 then
      { isNegative
        whole := digits ++ List.replicate (leading.natAbs + 1 - digits.length) '0' }
    else
      { isNegative, whole := digits.take (leading.natAbs + 1)
        fraction := digits.drop (leading.natAbs + 1) }
  else
    { isNegative, whole := digits.take 1, fraction := digits.drop 1
      exponent := some (exponentSign leading,
        DecimalLayout.padded layout.exponentDigits (Nat.toDigits 10 leading.natAbs)) }

theorem isNegative_laid (isNegative : Bool) (digits : List Char) (leading : Int) :
    (laid isNegative digits leading).isNegative = isNegative := by
  unfold laid
  split_ifs <;> rfl

theorem isProper_laid (isNegative : Bool) {digits : List Char} (leading : Int)
    (hdigits : ∀ c ∈ digits, Sdl.Lexer.isDigit c = true) (hne : digits ≠ [])
    (hhead : digits.head? ≠ some '0') : (laid isNegative digits leading).IsProper := by
  have hzeros : ∀ count, ∀ c ∈ List.replicate count '0', Sdl.Lexer.isDigit c = true := by
    intro count c hc
    rw [(List.mem_replicate.1 hc).2]
    decide
  have htake : ∀ count, digits.take (count + 1) ≠ [] ∧
      (digits.take (count + 1)).head? ≠ some '0' := by
    intro count
    cases digits with
    | nil => exact absurd rfl hne
    | cons first more => exact ⟨List.cons_ne_nil _ _, hhead⟩
  unfold laid
  split_ifs
  · exact {
      whole := by simp [Sdl.Lexer.isDigit]
      whole_ne_nil := by simp
      leading := by simp
      fraction := fun c hc => (List.mem_append.1 hc).elim (hzeros _ c) (hdigits c)
      exponent := by simp }
  · exact {
      whole := fun c hc => (List.mem_append.1 hc).elim (hdigits c) (hzeros _ c)
      whole_ne_nil := by simp [hne]
      leading := fun _ => by rwa [List.head?_append_of_ne_nil _ hne]
      fraction := by simp
      exponent := by simp }
  · exact {
      whole := fun c hc => hdigits c (List.mem_of_mem_take hc)
      whole_ne_nil := (htake _).1
      leading := fun _ => (htake _).2
      fraction := fun c hc => hdigits c (List.mem_of_mem_drop hc)
      exponent := by simp }
  · refine {
      whole := fun c hc => hdigits c (List.mem_of_mem_take hc)
      whole_ne_nil := (htake 0).1
      leading := fun _ => (htake 0).2
      fraction := fun c hc => hdigits c (List.mem_of_mem_drop hc)
      exponent := ?_ }
    intro sign exponent heq
    obtain ⟨rfl, rfl⟩ := Prod.mk.inj (Option.some.inj heq)
    refine ⟨?_, by simp [DecimalLayout.padded], ?_⟩
    · unfold exponentSign
      split_ifs <;> simp
    · intro c hc
      rcases List.mem_append.1 hc with hzero | hdigit
      · exact hzeros _ c hzero
      · exact isDigit_of_mem_toDigits hdigit

theorem exponentValue_scientific (leading : Int) :
    Schema.intOfText (String.ofList (exponentSign leading ::
      DecimalLayout.padded layout.exponentDigits (Nat.toDigits 10 leading.natAbs))) = leading := by
  have hvalue : natOfDigits
      (DecimalLayout.padded layout.exponentDigits (Nat.toDigits 10 leading.natAbs)) =
        leading.natAbs := by
    rw [DecimalLayout.padded, natOfDigits_replicate_append, natOfDigits_toDigits]
  unfold Schema.intOfText exponentSign
  rw [String.toList_ofList]
  split_ifs with hneg
  · simp only [signed, intOfDigits, hvalue, if_true]
    omega
  · simp only [signed, intOfDigits, hvalue, Bool.false_eq_true, if_false]
    omega

theorem isBelowBound_laid (isNegative : Bool) {digits : List Char} (leading : Int)
    (hne : digits ≠ [])
    (hbelow : IsBelowBound (natOfDigits digits) (leading + 1 - digits.length)) :
    IsBelowBound
      (natOfDigits ((laid isNegative digits leading).whole ++
        (laid isNegative digits leading).fraction))
      ((laid isNegative digits leading).exponentValue -
        (laid isNegative digits leading).fraction.length) := by
  have hlength := List.length_pos_of_ne_nil hne
  unfold laid
  split_ifs with hrange hneg hshort
  · have hdigits : natOfDigits (['0'] ++ (List.replicate (leading.natAbs - 1) '0' ++ digits)) =
        natOfDigits digits := natOfDigits_replicate_append (leading.natAbs - 1 + 1) digits
    have hplace : (0 : Int) - (List.replicate (leading.natAbs - 1) '0' ++ digits).length =
        leading + 1 - digits.length := by
      rw [List.length_append, List.length_replicate]
      omega
    simp only [Sdl.Numeral.exponentValue, hdigits, hplace]
    exact hbelow
  · have hplace : leading + 1 - digits.length =
        (0 : Int) + (leading.natAbs + 1 - digits.length : Nat) := by omega
    rw [hplace, ← isBelowBound_mul_pow, ← natOfDigits_append_replicate] at hbelow
    simpa [Sdl.Numeral.exponentValue] using hbelow
  · have hplace : (0 : Int) - (digits.drop (leading.natAbs + 1)).length =
        leading + 1 - digits.length := by
      rw [List.length_drop]
      omega
    simp only [Sdl.Numeral.exponentValue, List.take_append_drop, hplace]
    exact hbelow
  · have hplace : leading - ((digits.drop 1).length : Int) = leading + 1 - digits.length := by
      rw [List.length_drop]
      omega
    simp only [Sdl.Numeral.exponentValue, exponentValue_scientific, List.take_append_drop, hplace]
    exact hbelow

/-! ## The text of a number -/

/-- Characters without a fraction that is zero. -/
def trimmed (chars : List Char) : List Char :=
  match chars.reverse with
  | '0' :: '.' :: rest => rest.reverse
  | _ => chars

theorem trimmed_of_zero {chars rest : List Char} (hreverse : chars.reverse = '0' :: '.' :: rest) :
    trimmed chars = rest.reverse := by
  simp only [trimmed, hreverse]

theorem trimmed_of_plain {chars : List Char}
    (hplain : ∀ rest, chars.reverse ≠ '0' :: '.' :: rest) : trimmed chars = chars := by
  unfold trimmed
  split
  · next rest hreverse => exact absurd hreverse (hplain rest)
  · rfl

theorem toList_floatText (x : Binary64) :
    (Schema.floatText x).toList = trimmed (x.render "inf" "nan").toList := by
  by_cases hzero : ∃ rest, (x.render "inf" "nan").toList.reverse = '0' :: '.' :: rest
  · obtain ⟨rest, hreverse⟩ := hzero
    rw [trimmed_of_zero hreverse, Schema.floatText, hreverse]
    exact String.toList_ofList
  · have hplain : ∀ rest, (x.render "inf" "nan").toList.reverse ≠ '0' :: '.' :: rest :=
      fun rest hreverse => hzero ⟨rest, hreverse⟩
    rw [trimmed_of_plain hplain, Schema.floatText]
    split
    · next rest hreverse => exact absurd hreverse (hplain rest)
    · rfl

theorem trimmed_append (front : List Char) : trimmed (front ++ ['.', '0']) = front := by
  simp [trimmed]

theorem trimmed_of_getLast? {chars : List Char} (hlast : chars.getLast? ≠ some '0') :
    trimmed chars = chars := by
  apply trimmed_of_plain
  intro rest hreverse
  rw [← List.head?_reverse, hreverse] at hlast
  exact absurd rfl hlast

theorem trimmed_of_digits {front digits : List Char}
    (hdigits : ∀ c ∈ digits, Sdl.Lexer.isDigit c = true) (hlength : 2 ≤ digits.length) :
    trimmed (front ++ digits) = front ++ digits := by
  apply trimmed_of_plain
  intro rest hreverse
  rw [List.reverse_append] at hreverse
  have hmem : ∀ c ∈ digits.reverse, Sdl.Lexer.isDigit c = true := by simpa using hdigits
  cases hfirst : digits.reverse with
  | nil => simp [List.reverse_eq_nil_iff.1 hfirst] at hlength
  | cons last more =>
      cases more with
      | nil =>
          have hone := congrArg List.length hfirst
          rw [List.length_reverse, List.length_singleton] at hone
          omega
      | cons next more =>
          rw [hfirst] at hreverse hmem
          have hpoint := hmem next (by simp)
          rw [(List.cons.inj (List.cons.inj hreverse).2).1] at hpoint
          contradiction

theorem two_le_length_padded (digits : List Char) :
    2 ≤ (DecimalLayout.padded layout.exponentDigits digits).length := by
  have htwo : layout.exponentDigits = 2 := rfl
  rw [DecimalLayout.padded, htwo, List.length_append, List.length_replicate]
  omega

theorem isDigit_of_mem_padded {n : Nat} {c : Char}
    (hc : c ∈ DecimalLayout.padded layout.exponentDigits (Nat.toDigits 10 n)) :
    Sdl.Lexer.isDigit c = true := by
  rcases List.mem_append.1 hc with hzero | hdigit
  · rw [(List.mem_replicate.1 hzero).2]
    decide
  · exact isDigit_of_mem_toDigits hdigit

/-- What is written of digits is their numeral, but for a fraction that is zero. -/
theorem trimmed_write (isNegative : Bool) {digits : List Char} (leading : Int) (hne : digits ≠ [])
    (hlast : digits.getLast? ≠ some '0') :
    trimmed ((laid isNegative digits leading).sign ++
        if layout.lowestPlace ≤ leading ∧ leading ≤ layout.highestPlace then
          DecimalLayout.positional digits leading
        else layout.scientific digits leading) =
      (laid isNegative digits leading).text.toList := by
  have hbehind : ∀ front, (front ++ digits).getLast? ≠ some '0' := by
    intro front
    rwa [List.getLast?_append_of_ne_nil _ hne]
  rw [Sdl.Numeral.toList_text]
  unfold laid
  split_ifs with hrange hneg hshort
  · have hfraction : List.replicate (leading.natAbs - 1) '0' ++ digits ≠ [] := by simp [hne]
    have hend := hbehind ((if isNegative then ['-'] else []) ++
      '0' :: '.' :: List.replicate (leading.natAbs - 1) '0')
    rw [List.append_assoc, List.cons_append, List.cons_append] at hend
    simp only [Sdl.Numeral.sign, Sdl.Numeral.fractionPart, Sdl.Numeral.exponentPart,
      DecimalLayout.positional, if_pos hneg, if_neg hfraction, List.append_nil]
    exact trimmed_of_getLast? hend
  · simp only [Sdl.Numeral.sign, Sdl.Numeral.fractionPart, Sdl.Numeral.exponentPart,
      DecimalLayout.positional, if_neg hneg, if_pos hshort, if_true, List.append_nil]
    rw [← List.append_assoc, trimmed_append]
  · have hfraction : digits.drop (leading.natAbs + 1) ≠ [] := by
      rw [ne_eq, List.drop_eq_nil_iff]
      omega
    have hend : ((if isNegative then ['-'] else []) ++ (digits.take (leading.natAbs + 1) ++
        '.' :: digits.drop (leading.natAbs + 1))).getLast? ≠ some '0' := by
      rw [List.getLast?_append_of_ne_nil _ (by simp), List.getLast?_append_of_ne_nil _ (by simp),
        List.getLast?_cons_of_ne_nil hfraction, List.getLast?_drop, if_neg (by omega)]
      exact hlast
    simp only [Sdl.Numeral.sign, Sdl.Numeral.fractionPart, Sdl.Numeral.exponentPart,
      DecimalLayout.positional, if_neg hneg, if_neg hshort, if_neg hfraction, List.append_nil]
    exact trimmed_of_getLast? hend
  · have hfraction : (if (digits.drop 1).isEmpty then [] else '.' :: digits.drop 1) =
        if digits.drop 1 = [] then [] else '.' :: digits.drop 1 := by
      simp only [List.isEmpty_iff]
    simp only [Sdl.Numeral.sign, Sdl.Numeral.fractionPart, Sdl.Numeral.exponentPart,
      DecimalLayout.scientific, hfraction, exponentSign]
    have hsplit : ∀ front middle : List Char, ∀ sign : Char,
        trimmed (front ++ (middle ++ 'e' :: sign ::
          DecimalLayout.padded layout.exponentDigits (Nat.toDigits 10 leading.natAbs))) =
        front ++ (middle ++ 'e' :: sign ::
          DecimalLayout.padded layout.exponentDigits (Nat.toDigits 10 leading.natAbs)) := by
      intro front middle sign
      have hdigits := @trimmed_of_digits (front ++ (middle ++ ['e', sign])) _
        (fun _ => isDigit_of_mem_padded (n := leading.natAbs)) (two_le_length_padded _)
      simpa using hdigits
    rw [hsplit, List.append_assoc]

/-- The digits of a number, when its text is trimmed. -/
theorem toList_floatText_finite (isNegative : Bool) (significand : Nat) (exponent : Int) :
    (Schema.floatText (.finite isNegative significand exponent)).toList =
      trimmed ((if isNegative then ['-'] else []) ++
        if significand = 0 then ['0', '.', '0']
        else layout.write (Nat.toDigits 10 (shortest significand exponent).1)
          (shortest significand exponent).2) := by
  rw [toList_floatText, render]
  split_ifs <;> simp

theorem exists_numeral_zero (isNegative : Bool) :
    ∃ n : Sdl.Numeral, n.IsProper ∧
      trimmed ((if isNegative then ['-'] else []) ++ ['0', '.', '0']) = n.text.toList ∧
      IsNumber (Schema.floatOfText n.text) ∧ (n.isWhole = true → n.whole.length ≤ 16) := by
  have hproper : Sdl.Numeral.IsProper { isNegative, whole := ['0'] } :=
    { whole := by simp [Sdl.Lexer.isDigit]
      whole_ne_nil := by simp
      leading := by simp
      fraction := by simp
      exponent := by simp }
  refine ⟨_, hproper, ?_, ?_, by simp⟩
  · have htrim := trimmed_append ((if isNegative then ['-'] else []) ++ ['0'])
    rw [List.append_assoc] at htrim
    rw [Sdl.Numeral.toList_text]
    exact htrim
  · rw [Sdl.Numeral.floatOfText_text hproper]
    exact .finite (by decide) (by decide)

/-- Only numbers of few digits are written without a fraction and an exponent. -/
theorem length_whole_laid (isNegative : Bool) (digits : List Char) (leading : Int)
    (hwhole : (laid isNegative digits leading).isWhole = true) :
    (laid isNegative digits leading).whole.length ≤ 16 := by
  have hlimit : layout.highestPlace = 15 := rfl
  unfold laid at hwhole ⊢
  split_ifs at hwhole ⊢ with hrange hneg hshort
  · simp
  · rw [List.length_append, List.length_replicate]
    omega
  · have hfraction : digits.drop (leading.natAbs + 1) ≠ [] := by
      rw [ne_eq, List.drop_eq_nil_iff]
      omega
    simp [Sdl.Numeral.isWhole, Sdl.Numeral.fractionPart, hfraction] at hwhole
  · simp [Sdl.Numeral.isWhole, Sdl.Numeral.exponentPart] at hwhole

/-- The text of a number is a numeral, which stands for a number again. -/
theorem exists_numeral {x : Binary64} (hnumber : IsNumber x) :
    ∃ n : Sdl.Numeral, n.IsProper ∧ Schema.floatText x = n.text ∧
      IsNumber (Schema.floatOfText n.text) ∧ (n.isWhole = true → n.whole.length ≤ 16) := by
  obtain ⟨hbits, hexponent⟩ := hnumber
  next isNegative significand exponent =>
  simp only [← String.toList_inj, toList_floatText_finite]
  by_cases hzero : significand = 0
  · rw [if_pos hzero]
    exact exists_numeral_zero isNegative
  rw [if_neg hzero]
  obtain ⟨hbelow, hwhole⟩ := shortest_spec (Nat.pos_of_ne_zero hzero) hbits hexponent
  generalize shortest significand exponent = decimal at hbelow hwhole ⊢
  obtain ⟨number, place⟩ := decimal
  by_cases hnone : number = 0
  · obtain rfl := hwhole hnone
    rw [hnone]
    exact exists_numeral_zero isNegative
  obtain ⟨count, hsplit⟩ := exists_stripped (Nat.toDigits 10 number)
  have hhead := Json.Reader.toDigits_head (Nat.pos_of_ne_zero hnone)
  have hlast := getLast?_stripped (Nat.toDigits 10 number)
  have hmem : ∀ c ∈ stripped (Nat.toDigits 10 number), Sdl.Lexer.isDigit c = true := by
    intro c hc
    apply isDigit_of_mem_toDigits (n := number)
    rw [hsplit]
    exact List.mem_append_left _ hc
  have hvalue := natOfDigits_toDigits number
  have hlength := congrArg List.length hsplit
  have hwrite : layout.write (Nat.toDigits 10 number) place =
      if layout.lowestPlace ≤ place + (Nat.toDigits 10 number).length - 1 ∧
          place + (Nat.toDigits 10 number).length - 1 ≤ layout.highestPlace then
        DecimalLayout.positional (stripped (Nat.toDigits 10 number))
          (place + (Nat.toDigits 10 number).length - 1)
      else
        layout.scientific (stripped (Nat.toDigits 10 number))
          (place + (Nat.toDigits 10 number).length - 1) := rfl
  rw [hwrite]
  generalize stripped (Nat.toDigits 10 number) = digits at *
  have hne : digits ≠ [] := by
    rintro rfl
    cases count with
    | zero => exact Nat.toDigits_ne_nil hsplit
    | succ count =>
        rw [hsplit] at hhead
        exact hhead rfl
  have hfirst : digits.head? ≠ some '0' := by
    rwa [hsplit, List.head?_append_of_ne_nil _ hne] at hhead
  rw [List.length_append, List.length_replicate] at hlength
  have hplaces : place + (Nat.toDigits 10 number).length - 1 + 1 - digits.length =
      place + count := by omega
  generalize place + (Nat.toDigits 10 number).length - 1 = leading at *
  have hproper := isProper_laid isNegative leading hmem hne hfirst
  refine ⟨laid isNegative digits leading, hproper, ?_, ?_, ?_⟩
  · have hwritten := trimmed_write isNegative leading hne hlast
    rw [Sdl.Numeral.sign, isNegative_laid] at hwritten
    exact hwritten
  · rw [Sdl.Numeral.floatOfText_text hproper]
    apply isNumber_ofDecimal
    apply isBelowBound_laid isNegative leading hne
    rw [hplaces, ← isBelowBound_mul_pow, ← natOfDigits_append_replicate, ← hsplit, hvalue]
    exact hbelow
  · exact length_whole_laid isNegative digits leading

end Binary64

end ConfigSchema
