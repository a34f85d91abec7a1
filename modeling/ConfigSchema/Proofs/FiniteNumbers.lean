import ConfigSchema.Decimal.Digits
import ConfigSchema.Decimal.Shortest
import ConfigSchema.Proofs.JsonNumbers
import Mathlib.Algebra.Order.Ring.Nat
import Mathlib.Data.Nat.Log
import Mathlib.Tactic.Ring

/-!
# Finite numbers

A decimal is read as a finite number exactly below the point halfway between the largest finite
number and the next power of two.  The shortest decimal of a finite number lies below that point,
so it is never read as an infinity.
-/

namespace ConfigSchema

namespace Binary64

/-- Everything below half a unit over the largest finite number rounds to a finite number. -/
def finiteBound : Nat := (2 ^ 54 - 1) * 2 ^ 970

/-- Whether `digits * 10 ^ exponent` lies below the bound of finite numbers. -/
def IsBelowBound (digits : Nat) (exponent : Int) : Prop :=
  digits * 10 ^ exponent.toNat < 10 ^ (-exponent).toNat * finiteBound

theorem bound_lt (count : Nat) : (2 ^ 54 - 1) * 2 ^ count < 2 ^ (54 + count) := by
  rw [Nat.pow_add]
  exact Nat.mul_lt_mul_of_pos_right (by decide) (Nat.two_pow_pos count)

theorem isBelowBound_mul_pow {digits count : Nat} {exponent : Int} :
    IsBelowBound (digits * 10 ^ count) exponent ↔ IsBelowBound digits (exponent + count) := by
  have hpos : ∀ k : Nat, 0 < 10 ^ k := fun k => Nat.pow_pos (by decide)
  unfold IsBelowBound
  rcases Int.le_total 0 exponent with hover | hunder
  · have hzero : (-exponent).toNat = 0 := by omega
    have hzero' : (-(exponent + count)).toNat = 0 := by omega
    have hsum : (exponent + count).toNat = exponent.toNat + count := by omega
    rw [hzero, hzero', hsum, Nat.pow_add, Nat.mul_assoc, Nat.mul_comm (10 ^ count)]
  · have hzero : exponent.toNat = 0 := by omega
    rw [hzero, Nat.pow_zero, Nat.mul_one]
    rcases Int.le_total 0 (exponent + count) with hover' | hunder'
    · have hzero' : (-(exponent + count)).toNat = 0 := by omega
      have hsum : count = (-exponent).toNat + (exponent + count).toNat := by omega
      rw [hzero', Nat.pow_zero, Nat.one_mul]
      conv_lhs => rw [hsum, Nat.pow_add, Nat.mul_left_comm]
      exact Nat.mul_lt_mul_left (hpos _)
    · have hzero' : (exponent + count).toNat = 0 := by omega
      have hsum : (-exponent).toNat = count + (-(exponent + count)).toNat := by omega
      rw [hzero', Nat.pow_zero, Nat.mul_one, hsum, Nat.pow_add, Nat.mul_comm digits, Nat.mul_assoc]
      exact Nat.mul_lt_mul_left (hpos _)

/-! ## Rounding -/

theorem roundedQuotient_le {num den limit : Nat} (hlt : num < den * limit) :
    roundedQuotient num den ≤ limit := by
  have hquotient : num / den < limit := Nat.div_lt_of_lt_mul hlt
  unfold roundedQuotient
  dsimp only
  split_ifs <;> omega

/-- A quotient that rounds to a number lies at most half a unit below it. -/
theorem le_of_roundedQuotient_eq {num den rounded : Nat} (hpos : 0 < rounded)
    (hrounded : roundedQuotient num den = rounded) : (2 * rounded - 1) * den ≤ 2 * num := by
  have hdivision := Nat.div_add_mod num den
  have hmul : (2 * rounded - 1) * den + den = 2 * (rounded * den) := by
    obtain ⟨less, rfl⟩ : ∃ less, rounded = less + 1 := ⟨rounded - 1, by omega⟩
    have : 2 * (less + 1) - 1 = 2 * less + 1 := by omega
    rw [this]
    ring
  unfold roundedQuotient at hrounded
  dsimp only at hrounded
  split_ifs at hrounded with hlow hhigh
  · subst hrounded
    have : num / den * den = den * (num / den) := Nat.mul_comm _ _
    omega
  · subst hrounded
    have : (num / den + 1) * den = den * (num / den) + den := by ring
    omega
  · have hmod := Nat.mod_lt (num / den) (by decide : 0 < 2)
    rcases Nat.mod_two_eq_zero_or_one (num / den) with heven | hodd
    · rw [heven, Nat.add_zero] at hrounded
      subst hrounded
      have : num / den * den = den * (num / den) := Nat.mul_comm _ _
      omega
    · rw [hodd] at hrounded
      subst hrounded
      have : (num / den + 1) * den = den * (num / den) + den := by ring
      omega

/-! ## Exponents -/

/-- The fraction `num / den` lies below `2 ^ place`. -/
def IsWithin (num den : Nat) (place : Int) : Prop :=
  num * 2 ^ (-place).toNat < den * 2 ^ place.toNat

/-- Both sides of a comparison may be scaled. -/
theorem isWithin_iff {num den : Nat} {place : Int} (front back : Nat)
    (hplace : place = back - front) :
    IsWithin num den place ↔ num * 2 ^ front < den * 2 ^ back := by
  obtain ⟨shared, hfront, hback⟩ :
      ∃ shared, front = (-place).toNat + shared ∧ back = place.toNat + shared :=
    ⟨min front back, by omega, by omega⟩
  rw [IsWithin, hfront, hback, Nat.pow_add, Nat.pow_add, ← Nat.mul_assoc, ← Nat.mul_assoc]
  exact (Nat.mul_lt_mul_right (Nat.two_pow_pos shared)).symm

theorem IsWithin.mono {num den : Nat} {place other : Int} (hwithin : IsWithin num den place)
    (hle : place ≤ other) : IsWithin num den other := by
  obtain ⟨more, rfl⟩ : ∃ more : Nat, other = place + more := ⟨(other - place).toNat, by omega⟩
  rw [isWithin_iff (-place).toNat (place.toNat + more) (by omega), Nat.pow_add,
    ← Nat.mul_assoc]
  exact Nat.lt_of_lt_of_le hwithin (Nat.le_mul_of_pos_right _ (Nat.two_pow_pos more))

theorem isWithin_iff_scaled {num den bits : Nat} {exponent : Int} :
    IsWithin num den (exponent + bits) ↔
      (scaledByPower num den exponent).1 < (scaledByPower num den exponent).2 * 2 ^ bits := by
  unfold scaledByPower
  split_ifs with hneg
  · rw [isWithin_iff exponent.natAbs bits (by omega), Nat.shiftLeft_eq]
  · rw [isWithin_iff 0 (exponent.natAbs + bits) (by omega), Nat.shiftLeft_eq,
      Nat.pow_zero, Nat.mul_one, Nat.pow_add, Nat.mul_assoc]

theorem isWithin_log2 {num den : Nat} (hden : 0 < den) :
    IsWithin num den (num.log2 + 1 - den.log2) := by
  rw [isWithin_iff den.log2 (num.log2 + 1) (by omega)]
  have hnum : num < 2 ^ (num.log2 + 1) := Nat.lt_log2_self
  have hlow : 2 ^ den.log2 ≤ den := Nat.log2_self_le (by omega)
  calc
    num * 2 ^ den.log2 < 2 ^ (num.log2 + 1) * 2 ^ den.log2 :=
      Nat.mul_lt_mul_of_pos_right hnum (Nat.two_pow_pos _)
    _ ≤ den * 2 ^ (num.log2 + 1) := by
      rw [Nat.mul_comm]
      exact Nat.mul_le_mul_right _ hlow

theorem not_isWithin_log2 {num den : Nat} (hnum : 0 < num) :
    ¬ IsWithin num den (num.log2 - den.log2 - 1) := by
  rw [isWithin_iff (den.log2 + 1) num.log2 (by omega), Nat.not_lt]
  have hden : den < 2 ^ (den.log2 + 1) := Nat.lt_log2_self
  have hlow : 2 ^ num.log2 ≤ num := Nat.log2_self_le (by omega)
  calc
    den * 2 ^ num.log2 ≤ 2 ^ (den.log2 + 1) * num := Nat.mul_le_mul hden.le hlow
    _ = num * 2 ^ (den.log2 + 1) := Nat.mul_comm _ _

/-- A significand takes 53 binary digits at most. -/
theorem isWithin_exponentFor {num den : Nat} (hden : 0 < den) :
    IsWithin num den (exponentFor num den + 53) := by
  unfold exponentFor
  dsimp only
  split_ifs with hlow
  · rw [Nat.shiftLeft_eq] at hlow
    exact (isWithin_iff_scaled.2 hlow).mono (by omega)
  · exact (isWithin_log2 hden).mono (by omega)

/-- Above the exponent of the smallest numbers, a significand takes no fewer binary digits. -/
theorem not_isWithin_exponentFor {num den : Nat} (hnum : 0 < num)
    (habove : -1074 < exponentFor num den) : ¬ IsWithin num den (exponentFor num den + 52) := by
  unfold exponentFor at habove ⊢
  dsimp only at habove ⊢
  split_ifs at habove ⊢ with hlow
  · intro hwithin
    exact not_isWithin_log2 hnum (hwithin.mono (by omega))
  · intro hwithin
    rw [Nat.shiftLeft_eq] at hlow
    exact hlow (isWithin_iff_scaled.1 (hwithin.mono (by omega)))

/-! ## Reading decimals -/

/-- A number as it is read: the significand has at most 53 binary digits, and the exponent is not
too large. -/
inductive IsNumber : Binary64 → Prop
  | finite {negative : Bool} {significand : Nat} {exponent : Int} (hbits : significand < 2 ^ 53)
      (hexponent : exponent ≤ 971) : IsNumber (.finite negative significand exponent)

/-- The significand of a fraction before it is brought below the next power of two. -/
def significandFor (num den : Nat) : Nat :=
  roundedQuotient (scaledByPower num den (exponentFor num den)).1
    (scaledByPower num den (exponentFor num den)).2

theorem significandFor_le {num den : Nat} (hden : 0 < den) : significandFor num den ≤ 2 ^ 53 :=
  roundedQuotient_le (isWithin_iff_scaled.1 (isWithin_exponentFor hden))

theorem ofFraction_eq (negative : Bool) (num den : Nat) :
    ofFraction negative num den =
      if significandFor num den = 2 ^ 53 then
        if exponentFor num den + 1 > 971 then .infinite negative
        else .finite negative (2 ^ 52) (exponentFor num den + 1)
      else if exponentFor num den > 971 then .infinite negative
      else if significandFor num den = 0 then .finite negative 0 0
      else .finite negative (significandFor num den) (exponentFor num den) := by
  rw [ofFraction]
  simp only [← significandFor.eq_1]
  generalize significandFor num den = significand
  generalize exponentFor num den = exponent
  rw [Nat.one_shiftLeft, Nat.one_shiftLeft]
  by_cases hfull : significand = 2 ^ 53
  · have hne : (2 ^ 52 : Nat) ≠ 0 := by decide
    simp only [if_pos hfull, if_neg hne]
  · simp only [if_neg hfull]

/-- A fraction is infinite, or has a significand and an exponent that are not too large. -/
theorem ofFraction_cases (negative : Bool) {num den : Nat} (hden : 0 < den) :
    IsNumber (ofFraction negative num den) ∨
      971 < exponentFor num den ∨ significandFor num den = 2 ^ 53 ∧ 971 ≤ exponentFor num den := by
  have hle := @significandFor_le num den hden
  rw [ofFraction_eq]
  generalize significandFor num den = significand at hle ⊢
  generalize exponentFor num den = exponent
  by_cases hfull : significand = 2 ^ 53
  · rw [if_pos hfull]
    by_cases hlarge : exponent + 1 > 971
    · exact .inr (.inr ⟨hfull, by omega⟩)
    · rw [if_neg hlarge]
      exact .inl (.finite (by decide) (by omega))
  · rw [if_neg hfull]
    by_cases hlarge : exponent > 971
    · exact .inr (.inl hlarge)
    · rw [if_neg hlarge]
      split_ifs with hzero
      · exact .inl (.finite (by decide) (by decide))
      · exact .inl (.finite (by omega) (by omega))

/-- A fraction below half a unit over the largest finite number does not round to more. -/
theorem lt_of_half {num den rest : Nat} (hlt : num < den * ((2 ^ 54 - 1) * 2 ^ rest)) :
    ¬ (2 * 2 ^ 53 - 1) * (den * 2 ^ (rest + 1)) ≤ 2 * num := by
  have hdouble : (2 * 2 ^ 53 - 1) * (den * 2 ^ (rest + 1)) =
      2 * (den * ((2 ^ 54 - 1) * 2 ^ rest)) := by
    rw [Nat.pow_succ]
    ring
  rw [hdouble, Nat.not_le]
  exact Nat.mul_lt_mul_of_pos_left hlt (by decide)

theorem isNumber_ofFraction {negative : Bool} {num den rest : Nat} (hrest : rest = 970)
    (hnum : 0 < num) (hden : 0 < den) (hlt : num < den * ((2 ^ 54 - 1) * 2 ^ rest)) :
    IsNumber (ofFraction negative num den) := by
  have hwithin : IsWithin num den 1024 := by
    rw [isWithin_iff 0 (54 + rest) (by omega), Nat.pow_zero, Nat.mul_one]
    exact hlt.trans_le (Nat.mul_le_mul_left _ (bound_lt rest).le)
  have hexponent : exponentFor num den ≤ 971 := by
    by_contra hlarge
    exact not_isWithin_exponentFor hnum (by omega) (hwithin.mono (by omega))
  rcases ofFraction_cases negative hden with hnumber | hlarge | ⟨hfull, hlarge⟩
  · exact hnumber
  · omega
  · have heq : exponentFor num den = (rest + 1 : Nat) := by omega
    have hscaled : scaledByPower num den (rest + 1 : Nat) = (num, den * 2 ^ (rest + 1)) := by
      rw [scaledByPower, if_neg (by omega), Nat.shiftLeft_eq, Int.natAbs_natCast]
    rw [significandFor, heq, hscaled] at hfull
    exact absurd (le_of_roundedQuotient_eq (Nat.two_pow_pos 53) hfull) (lt_of_half hlt)

/-- What is read is a number unless it is too large. -/
theorem isNumber_or_infinite_ofFraction (negative : Bool) {num den : Nat} (hden : 0 < den) :
    IsNumber (ofFraction negative num den) ∨ ofFraction negative num den = .infinite negative := by
  by_contra hneither
  rw [not_or] at hneither
  apply hneither.2
  rw [ofFraction_eq]
  rcases (ofFraction_cases negative hden).resolve_left hneither.1 with hlarge | ⟨hfull, hlarge⟩
  · split_ifs <;> first | rfl | omega
  · rw [if_pos hfull, if_pos (by omega)]

theorem isNumber_or_infinite_ofDecimal (negative : Bool) (digits : Nat) (exponent : Int) :
    IsNumber (ofDecimal negative digits exponent) ∨
      ofDecimal negative digits exponent = .infinite negative := by
  have hzero : IsNumber (.finite negative 0 0) := .finite (by decide) (by decide)
  unfold ofDecimal
  dsimp only
  split_ifs
  · exact .inl hzero
  · exact .inr rfl
  · exact .inl hzero
  · exact isNumber_or_infinite_ofFraction negative (Nat.pow_pos (by decide))
  · exact isNumber_or_infinite_ofFraction negative (by decide)

/-- A decimal below the bound has not too many digits before its point. -/
theorem magnitude_le {digits rest : Nat} {exponent : Int} (hrest : rest = 970) (hpos : 0 < digits)
    (hbelow : digits * 10 ^ exponent.toNat <
      10 ^ (-exponent).toNat * ((2 ^ 54 - 1) * 2 ^ rest)) :
    (digits.log2 : Int) / 4 + exponent ≤ 400 := by
  have hlow : 2 ^ digits.log2 ≤ digits := Nat.log2_self_le (by omega)
  have hten : 10 ^ (-exponent).toNat ≤ 2 ^ (4 * (-exponent).toNat) := by
    rw [Nat.pow_mul]
    exact Nat.pow_le_pow_left (by decide) _
  have height : 2 ^ (3 * exponent.toNat) ≤ 10 ^ exponent.toNat := by
    rw [Nat.pow_mul]
    exact Nat.pow_le_pow_left (by decide) _
  have hpow : 2 ^ (digits.log2 + 3 * exponent.toNat) <
      2 ^ (4 * (-exponent).toNat + (54 + rest)) :=
    calc
      2 ^ (digits.log2 + 3 * exponent.toNat) ≤ digits * 10 ^ exponent.toNat := by
        rw [Nat.pow_add]
        exact Nat.mul_le_mul hlow height
      _ < 10 ^ (-exponent).toNat * ((2 ^ 54 - 1) * 2 ^ rest) := hbelow
      _ ≤ 2 ^ (4 * (-exponent).toNat + (54 + rest)) := by
        rw [Nat.pow_add]
        exact Nat.mul_le_mul hten (bound_lt rest).le
  have hexponents := (Nat.pow_lt_pow_iff_right (by decide)).1 hpow
  omega

/-- A decimal below the bound is read as a finite number. -/
theorem isNumber_ofDecimal {negative : Bool} {digits : Nat} {exponent : Int}
    (hbelow : IsBelowBound digits exponent) : IsNumber (ofDecimal negative digits exponent) := by
  have hzero : IsNumber (.finite negative 0 0) := .finite (by decide) (by decide)
  unfold IsBelowBound finiteBound at hbelow
  generalize hrest : 970 = rest at hbelow
  have hpow : ∀ count, Nat.pow 10 count = 10 ^ count := fun _ => rfl
  rw [ofDecimal, hpow]
  by_cases hdigits : digits = 0
  · rw [if_pos hdigits]
    exact hzero
  · have hmagnitude := magnitude_le hrest.symm (by omega) hbelow
    rw [if_neg hdigits, if_neg (by omega)]
    split_ifs with htiny hneg
    · exact hzero
    · have htoNat : exponent.toNat = 0 := by omega
      have habs : (-exponent).toNat = exponent.natAbs := by omega
      rw [htoNat, habs, Nat.pow_zero, Nat.mul_one] at hbelow
      exact isNumber_ofFraction hrest.symm (by omega) (Nat.pow_pos (by decide)) hbelow
    · have htoNat : (-exponent).toNat = 0 := by omega
      have habs : exponent.toNat = exponent.natAbs := by omega
      rw [htoNat, habs, Nat.pow_zero] at hbelow
      exact isNumber_ofFraction hrest.symm (Nat.mul_pos (by omega) (Nat.pow_pos (by decide)))
        (by decide) hbelow

/-! ## Shortest decimals -/

theorem Neighbourhood.isBelowBound_of_holds {n : Neighbourhood} {digits : Nat} {place : Int}
    (hle : n.high ≤ n.den * finiteBound) (hlt : n.closed = true → n.high < n.den * finiteBound)
    (hholds : n.holds digits place = true) : IsBelowBound digits place := by
  -- The units cancel on both sides; only one of the two powers of ten is not one.
  have hhigh : digits * 10 ^ place.toNat * n.den < 10 ^ (-place).toNat * finiteBound * n.den := by
    have hpow : ∀ count, Nat.pow 10 count = 10 ^ count := fun _ => rfl
    have hunits : (inUnits n.high n.den place).1 = n.high * 10 ^ (-place).toNat ∧
        (inUnits n.high n.den place).2 = n.den * 10 ^ place.toNat := by
      unfold inUnits
      rw [hpow]
      split_ifs with hneg
      · have hzero : place.toNat = 0 := by omega
        have habs : (-place).toNat = place.natAbs := by omega
        rw [hzero, habs, Nat.pow_zero, Nat.mul_one]
        exact ⟨rfl, rfl⟩
      · have hzero : (-place).toNat = 0 := by omega
        have habs : place.toNat = place.natAbs := by omega
        rw [hzero, habs, Nat.pow_zero, Nat.mul_one]
        exact ⟨rfl, rfl⟩
    have hscaled := Nat.mul_le_mul_right (10 ^ (-place).toNat) hle
    have hten : 0 < 10 ^ (-place).toNat := Nat.pow_pos (by decide)
    unfold holds at hholds
    dsimp only at hholds
    rw [hunits.1, hunits.2] at hholds
    split_ifs at hholds with hclosed
    · have hupper := of_decide_eq_true (Bool.and_eq_true_iff.1 hholds).2
      calc
        digits * 10 ^ place.toNat * n.den = digits * (n.den * 10 ^ place.toNat) := by ring
        _ ≤ n.high * 10 ^ (-place).toNat := hupper
        _ < n.den * finiteBound * 10 ^ (-place).toNat :=
          Nat.mul_lt_mul_of_pos_right (hlt hclosed) hten
        _ = 10 ^ (-place).toNat * finiteBound * n.den := by ring
    · have hupper := of_decide_eq_true (Bool.and_eq_true_iff.1 hholds).2
      calc
        digits * 10 ^ place.toNat * n.den = digits * (n.den * 10 ^ place.toNat) := by ring
        _ < n.high * 10 ^ (-place).toNat := hupper
        _ ≤ n.den * finiteBound * 10 ^ (-place).toNat := hscaled
        _ = 10 ^ (-place).toNat * finiteBound * n.den := by ring
  exact Nat.lt_of_mul_lt_mul_right hhigh

theorem Neighbourhood.pos_of_holds {n : Neighbourhood} {digits : Nat} {place : Int}
    (hlow : 0 < n.low) (hholds : n.holds digits place = true) : 0 < digits := by
  have hunits : 0 < (inUnits n.low n.den place).1 := by
    unfold inUnits
    split_ifs
    · exact Nat.mul_pos hlow (Nat.pow_pos (by decide))
    · exact hlow
  apply Nat.pos_of_ne_zero
  rintro rfl
  unfold holds at hholds
  dsimp only at hholds
  split_ifs at hholds <;>
    (have hlower := of_decide_eq_true (Bool.and_eq_true_iff.1 hholds).1
     omega)

theorem Neighbourhood.holds_of_onGrid? {n : Neighbourhood} {digits : Nat} {place : Int}
    (hgrid : n.onGrid? place = some digits) : n.holds digits place = true := by
  unfold onGrid? at hgrid
  dsimp only at hgrid
  split_ifs at hgrid with hup hfirst hsecond hfirst' hsecond' <;>
    (rw [Option.some.injEq] at hgrid
     subst hgrid
     assumption)

theorem Neighbourhood.shortestFrom_spec {n : Neighbourhood} {good : Nat → Int → Prop}
    (hgrid : ∀ digits place, n.holds digits place = true → good digits place)
    (hwhole : good (n.value / n.den) 0) (leading : Int) (count more : Nat) :
    good (n.shortestFrom leading count more).1 (n.shortestFrom leading count more).2 := by
  induction more generalizing count with
  | zero => exact hwhole
  | succ more ih =>
      unfold shortestFrom
      dsimp only
      cases hfound : n.onGrid? (leading - count + 1) with
      | none => exact ih (count + 1)
      | some digits => exact hgrid _ _ (holds_of_onGrid? hfound)

theorem high_neighbourhood {rest significand : Nat} {exponent : Int} (hrest : rest = 970)
    (hbits : significand < 2 ^ 53) (hexponent : exponent ≤ 971) :
    (neighbourhood significand exponent).high ≤
        (neighbourhood significand exponent).den * ((2 ^ 54 - 1) * 2 ^ rest) ∧
      ((neighbourhood significand exponent).closed = true →
        (neighbourhood significand exponent).high <
          (neighbourhood significand exponent).den * ((2 ^ 54 - 1) * 2 ^ rest)) := by
  have hpos : 0 < 2 ^ rest := Nat.two_pow_pos rest
  have hlarge : 4 * significand + 2 ≤ 2 * (2 ^ 54 - 1) := by omega
  unfold neighbourhood
  dsimp only
  by_cases hneg : exponent < 0
  · rw [if_pos hneg, if_pos hneg, Nat.shiftLeft_eq]
    have hden : 1 ≤ 2 ^ exponent.natAbs := Nat.one_le_two_pow
    have hlt : 4 * significand + 2 < 4 * 2 ^ exponent.natAbs * ((2 ^ 54 - 1) * 2 ^ rest) :=
      calc
        4 * significand + 2 < 4 * 1 * ((2 ^ 54 - 1) * 1) := by omega
        _ ≤ 4 * 2 ^ exponent.natAbs * ((2 ^ 54 - 1) * 2 ^ rest) :=
          Nat.mul_le_mul (Nat.mul_le_mul_left 4 hden) (Nat.mul_le_mul_left _ hpos)
    exact ⟨hlt.le, fun _ => hlt⟩
  · rw [if_neg hneg, if_neg hneg, Nat.shiftLeft_eq]
    have hpower : 2 ^ exponent.natAbs ≤ 2 * 2 ^ rest := by
      rw [← Nat.pow_succ']
      exact Nat.pow_le_pow_right (by decide) (by omega)
    have hbound : 4 * ((2 ^ 54 - 1) * 2 ^ rest) = 2 * (2 ^ 54 - 1) * (2 * 2 ^ rest) := by ring
    rw [hbound]
    refine ⟨Nat.mul_le_mul hlarge hpower, ?_⟩
    intro hclosed
    have heven : significand % 2 = 0 := of_decide_eq_true hclosed
    have hless : 4 * significand + 2 < 2 * (2 ^ 54 - 1) := by omega
    calc
      (4 * significand + 2) * 2 ^ exponent.natAbs ≤ (4 * significand + 2) * (2 * 2 ^ rest) :=
        Nat.mul_le_mul_left _ hpower
      _ < 2 * (2 ^ 54 - 1) * (2 * 2 ^ rest) :=
        Nat.mul_lt_mul_of_pos_right hless (by omega)

theorem low_neighbourhood {significand : Nat} (exponent : Int) (hpos : 0 < significand) :
    0 < (neighbourhood significand exponent).low ∧
      (neighbourhood significand exponent).value < (neighbourhood significand exponent).high := by
  have hbelow : 0 < 4 * significand -
      (if significand = 1 <<< 52 ∧ exponent > -1074 then 1 else 2) := by
    split_ifs <;> omega
  unfold neighbourhood
  dsimp only
  generalize (if significand = 1 <<< 52 ∧ exponent > -1074 then 1 else 2) = below at hbelow ⊢
  split_ifs with hneg
  · exact ⟨hbelow, by omega⟩
  · rw [Nat.shiftLeft_eq, Nat.shiftLeft_eq, Nat.shiftLeft_eq]
    have hpower := Nat.two_pow_pos exponent.natAbs
    exact ⟨Nat.mul_pos hbelow hpower, Nat.mul_lt_mul_of_pos_right (by omega) hpower⟩

/-- The shortest decimal of a number is below the bound; its digits may be zero only if it is
written out in full. -/
theorem shortest_spec {significand : Nat} {exponent : Int} (hpos : 0 < significand)
    (hbits : significand < 2 ^ 53) (hexponent : exponent ≤ 971) :
    IsBelowBound (shortest significand exponent).1 (shortest significand exponent).2 ∧
      ((shortest significand exponent).1 = 0 → (shortest significand exponent).2 = 0) := by
  have hhigh := high_neighbourhood (rfl : 970 = 970) hbits hexponent
  obtain ⟨hlow, hvalue⟩ := low_neighbourhood exponent hpos
  refine @Neighbourhood.shortestFrom_spec _
    (fun digits place => IsBelowBound digits place ∧ (digits = 0 → place = 0)) ?_ ?_ _ _ _
  · intro digits place hholds
    have hdigits := Neighbourhood.pos_of_holds hlow hholds
    exact ⟨Neighbourhood.isBelowBound_of_holds hhigh.1 hhigh.2 hholds, by omega⟩
  · refine ⟨?_, fun _ => rfl⟩
    have hquotient := Nat.div_lt_of_lt_mul (hvalue.trans_le hhigh.1)
    unfold IsBelowBound
    rw [Int.neg_zero, Int.toNat_zero, Nat.pow_zero, Nat.mul_one, Nat.one_mul]
    exact hquotient

end Binary64

end ConfigSchema
