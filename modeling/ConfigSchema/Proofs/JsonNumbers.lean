import ConfigSchema.Json.Printer
import ConfigSchema.Json.Reader
import Mathlib.Algebra.Group.Nat.Defs
import Mathlib.Data.List.Basic
import Mathlib.Data.List.Induction
import Mathlib.Data.List.TakeWhile
import Mathlib.Tactic.SplitIfs

/-!
# Integers in JSON

An integer is written with its decimal digits and read from them, as long as it has no more digits
than a reader takes and what follows does not go on with a number.
-/

namespace ConfigSchema

namespace Json

namespace Reader

/-- What follows does not go on with a number. -/
def EndsNumber (rest : List Char) : Prop :=
  ∀ c ∈ rest.head?, isDigit c = false ∧ c ≠ '.' ∧ c ≠ 'e' ∧ c ≠ 'E'

theorem isDigit_of_mem_toDigits {n : Nat} {c : Char} (hc : c ∈ Nat.toDigits 10 n) :
    isDigit c = true :=
  Nat.isDigit_of_mem_toDigits (by decide) (by decide) hc

theorem takeWhile_digits {digits rest : List Char} (hdigits : ∀ c ∈ digits, isDigit c = true)
    (hends : EndsNumber rest) :
    (digits ++ rest).takeWhile isDigit = digits ∧ (digits ++ rest).dropWhile isDigit = rest := by
  rw [List.takeWhile_append_of_pos hdigits, List.dropWhile_append_of_pos hdigits]
  cases rest with
  | nil => simp
  | cons c rest =>
      have hc := (hends c rfl).1
      simp [hc]

theorem toDigits_head {n : Nat} (hpos : 0 < n) : (Nat.toDigits 10 n).head? ≠ some '0' := by
  induction n using Nat.strongRecOn with
  | _ n ih =>
      by_cases hsmall : n < 10
      · have hall : ∀ digit < 10, 0 < digit → Nat.digitChar digit ≠ '0' := by decide
        rw [Nat.toDigits_of_lt_base hsmall]
        simpa using hall n hsmall hpos
      · have hfront := ih (n / 10) (by omega) (by omega)
        rw [Nat.toDigits_of_base_le (by decide) (by omega),
          List.head?_append_of_ne_nil _ Nat.toDigits_ne_nil]
        exact hfront

theorem wholeDigits_toDigits (n : Nat) {rest : List Char} (hends : EndsNumber rest) :
    wholeDigits (Nat.toDigits 10 n ++ rest) = some (Nat.toDigits 10 n, rest) := by
  rcases Nat.eq_zero_or_pos n with rfl | hpos
  · rfl
  · rcases takeWhile_digits (fun c => isDigit_of_mem_toDigits (n := n)) hends with ⟨htake, hdrop⟩
    have hhead := toDigits_head hpos
    have hne : (Nat.toDigits 10 n).isEmpty = false := by simp
    unfold wholeDigits
    split
    · next tail heq =>
        rw [← List.head?_append_of_ne_nil _ Nat.toDigits_ne_nil, heq] at hhead
        exact absurd rfl hhead
    · simp only [htake, hdrop, hne]
      rfl

theorem fractionDigits_of_ends {rest : List Char} (hends : EndsNumber rest) :
    fractionDigits rest = ([], rest) := by
  unfold fractionDigits
  split
  · exact absurd rfl (hends '.' rfl).2.1
  · rfl

theorem exponentPart_of_ends {rest : List Char} (hends : EndsNumber rest) :
    exponentPart rest = (none, rest) := by
  cases rest with
  | nil => rfl
  | cons mark rest =>
      rcases hends mark rfl with ⟨-, -, hlower, hupper⟩
      simp [exponentPart, hlower, hupper]

theorem unsignedNumber_toDigits (negative : Bool) {n : Nat} (hlt : n < 10 ^ Decimal.digitLimit)
    {rest : List Char} (hends : EndsNumber rest) :
    unsignedNumber negative (Nat.toDigits 10 n ++ rest) =
      .ok (.int (if negative then -(n : Int) else n), rest) := by
  have hlength : ¬ Decimal.digitLimit < (Nat.toDigits 10 n).length := by
    rw [Nat.not_lt]
    exact (Nat.length_toDigits_le_iff (by decide) (by decide)).2 hlt
  have hvalue : Decimal.natOfDigits (Nat.toDigits 10 n) = n :=
    Nat.ofDigitChars_toDigits (by decide) (by decide)
  simp only [unsignedNumber, wholeDigits_toDigits n hends, fractionDigits_of_ends hends,
    exponentPart_of_ends hends]
  simp [hlength, Decimal.intOfDigits, hvalue]

theorem toList_toString_int (n : Int) :
    (toString n).toList = if 0 ≤ n then Nat.toDigits 10 n.natAbs
      else '-' :: Nat.toDigits 10 n.natAbs := by
  rw [Int.toString_eq_repr, Int.repr_eq_if]
  split_ifs with hsign
  · have habs : n.toNat = n.natAbs := by omega
    rw [habs, Nat.toList_repr]
  · have habs : (-n).toNat = n.natAbs := by omega
    rw [habs, String.toList_append, Nat.toList_repr]
    rfl

theorem isDigit_or_minus {n : Int} {c : Char} (hc : c ∈ (toString n).toList) :
    isDigit c = true ∨ c = '-' := by
  rw [toList_toString_int] at hc
  split_ifs at hc with hsign
  · exact .inl (isDigit_of_mem_toDigits hc)
  · rcases List.mem_cons.1 hc with rfl | hc
    · exact .inr rfl
    · exact .inl (isDigit_of_mem_toDigits hc)

theorem plain_of_isDigit {c : Char} (hc : isDigit c = true) :
    c.toNat < 0x80 ∧ isSpace c = false ∧ c ≠ '"' := by
  have hhigh : c.toNat ≤ 0x39 := by
    simp only [isDigit, Bool.and_eq_true, decide_eq_true_eq] at hc
    exact hc.2
  refine ⟨by omega, ?_, ?_⟩
  · rw [Bool.eq_false_iff]
    intro hspace
    simp only [isSpace, Bool.or_eq_true, decide_eq_true_eq] at hspace
    rcases hspace with ((rfl | rfl) | rfl) | rfl
    all_goals contradiction
  · rintro rfl
    contradiction

theorem toList_toString_int_ne_nil (n : Int) : (toString n).toList ≠ [] := by
  rw [toList_toString_int]
  split_ifs
  · exact Nat.toDigits_ne_nil
  · exact List.cons_ne_nil _ _

theorem word?_digit {c : Char} (hc : isDigit c = true) (rest : List Char) :
    word? (c :: rest) = none := by
  have hletter : ∀ letter ∈ ['n', 't', 'f', 'N', 'I', '-'], letter ≠ c := by
    rintro letter hletter rfl
    have hnone : ∀ letter ∈ ['n', 't', 'f', 'N', 'I', '-'], isDigit letter = false := by
      simp [isDigit]
    rw [hnone letter hletter] at hc
    contradiction
  simp only [List.forall_mem_cons] at hletter
  simp [word?, words, after?, hletter]

theorem word?_minus {c : Char} (hc : isDigit c = true) (rest : List Char) :
    word? ('-' :: c :: rest) = none := by
  have hletter : 'I' ≠ c := by
    rintro rfl
    contradiction
  simp [word?, words, after?, hletter]

/-- An integer is read as it was written. -/
theorem plain_int {n : Int} (hlimit : n.natAbs < 10 ^ Decimal.digitLimit) {rest : List Char}
    (hends : EndsNumber rest) : plain ((toString n).toList ++ rest) = .ok (.int n, rest) := by
  have hread := fun negative => unsignedNumber_toDigits negative hlimit hends
  -- the power must not be in sight of `omega`, which would evaluate it
  clear hlimit
  rw [toList_toString_int]
  cases hchars : Nat.toDigits 10 n.natAbs with
  | nil => exact absurd hchars Nat.toDigits_ne_nil
  | cons c tail =>
      have hc : isDigit c = true := isDigit_of_mem_toDigits (n := n.natAbs) (by simp [hchars])
      rw [hchars, List.cons_append] at hread
      split_ifs with hsign
      · have hnumber : number (c :: (tail ++ rest)) =
            unsignedNumber false (c :: (tail ++ rest)) := by
          have hminus : c ≠ '-' := by
            rintro rfl
            contradiction
          unfold number
          split
          · next heq => exact absurd (List.cons.inj heq).1 hminus
          · rfl
        have hvalue : (n.natAbs : Int) = n := by omega
        rw [plain, List.cons_append, word?_digit hc]
        simp only
        rw [hnumber, hread false]
        simp [hvalue]
      · have hvalue : -(n.natAbs : Int) = n := by omega
        rw [plain, List.cons_append, List.cons_append, word?_minus hc]
        simp only [number]
        rw [hread true]
        simp only [if_true, hvalue]

/-! ## Numbers that are read -/

theorem natOfDigits_lt {digits : List Char} (hdigits : ∀ c ∈ digits, isDigit c = true) :
    Decimal.natOfDigits digits < 10 ^ digits.length := by
  induction digits using List.reverseRecOn with
  | nil => decide
  | append_singleton digits c ih =>
      have hfront := ih fun d hd => hdigits d (by simp [hd])
      have hc : c.toNat ≤ 0x39 := by
        have hlast := hdigits c (by simp)
        simp only [isDigit, Bool.and_eq_true, decide_eq_true_eq] at hlast
        exact hlast.2
      have hsplit : Decimal.natOfDigits (digits ++ [c]) =
          10 * Decimal.natOfDigits digits + (c.toNat - '0'.toNat) := by
        simp [Decimal.natOfDigits, List.foldl_append]
      have hzero : '0'.toNat = 0x30 := rfl
      rw [hsplit, List.length_append, List.length_singleton, Nat.pow_succ]
      omega

theorem isDigit_of_wholeDigits {s whole rest : List Char}
    (hwhole : wholeDigits s = some (whole, rest)) : ∀ c ∈ whole, isDigit c = true := by
  unfold wholeDigits at hwhole
  split at hwhole
  · rcases Prod.mk.inj (Option.some.inj hwhole) with ⟨rfl, -⟩
    exact List.forall_mem_singleton.2 rfl
  · simp only at hwhole
    split_ifs at hwhole
    rcases Prod.mk.inj (Option.some.inj hwhole) with ⟨rfl, -⟩
    exact fun c hc => List.mem_takeWhile_imp hc

/-- A number that is read is an integer with no more digits than are taken, or a float. -/
theorem unsignedNumber_eq_ok {negative : Bool} {s rest : List Char} {v : Json}
    (hread : unsignedNumber negative s = .ok (v, rest)) :
    (∃ n : Int, v = .int n ∧ n.natAbs < 10 ^ Decimal.digitLimit) ∨ ∃ x, v = .float x := by
  unfold unsignedNumber at hread
  split at hread
  · contradiction
  · next whole after hwhole =>
      have hlt := natOfDigits_lt (isDigit_of_wholeDigits hwhole)
      simp only at hread
      split_ifs at hread with hinteger hlong
      · rcases Prod.mk.inj (Except.ok.inj hread) with ⟨rfl, -⟩
        refine .inl ⟨_, rfl, ?_⟩
        have habs : (Decimal.intOfDigits negative whole).natAbs = Decimal.natOfDigits whole := by
          unfold Decimal.intOfDigits
          split <;> simp
        rw [habs]
        exact Nat.lt_of_lt_of_le hlt (Nat.pow_le_pow_right (by decide) (Nat.le_of_not_lt hlong))
      · rcases Prod.mk.inj (Except.ok.inj hread) with ⟨rfl, -⟩
        exact .inr ⟨_, rfl⟩

theorem number_eq_ok {s rest : List Char} {v : Json} (hread : number s = .ok (v, rest)) :
    (∃ n : Int, v = .int n ∧ n.natAbs < 10 ^ Decimal.digitLimit) ∨ ∃ x, v = .float x := by
  unfold number at hread
  split at hread
  · exact unsignedNumber_eq_ok hread
  · exact unsignedNumber_eq_ok hread

end Reader

end Json

end ConfigSchema
