import Mathlib.Tactic.Ring
import QueryDoc.Numeric.Arithmetic

/-!
Rounding to a format. The nearest magnitude depends on the number alone, and not on how many digits
it is given with; the two bounds that tell a decimal far out of range agree with rounding it. A
number that the format has is rounded to itself.
-/

namespace QueryDoc

section Quotients

variable {tie : Tie} {num den k : Nat}

theorem roundQuotient_mul (tie : Tie) (num den : Nat) (positive : 0 < k) :
    roundQuotient tie (k * num) (k * den) = roundQuotient tie num den := by
  have below : tie.takesBelow (k * num) (k * den) = tie.takesBelow num den := by
    have less : 2 * (k * (num % den)) < k * den ↔ 2 * (num % den) < den := by
      rw [Nat.mul_left_comm, Nat.mul_lt_mul_left positive]
    have half : 2 * (k * (num % den)) = k * den ↔ 2 * (num % den) = den := by
      rw [Nat.mul_left_comm, Nat.mul_left_cancel_iff positive]
    simp only [Tie.takesBelow, Nat.mul_mod_mul_left, Nat.mul_div_mul_left _ _ positive, less, half]
  rw [roundQuotient, roundQuotient, below, Nat.mul_div_mul_left _ _ positive]

theorem roundQuotient_of_small (h : 2 * num < den) : roundQuotient tie num den = 0 := by
  have less : num < den := by omega
  simp [roundQuotient, Tie.takesBelow, Nat.mod_eq_of_lt less, Nat.div_eq_of_lt less, h]

theorem roundQuotient_exact (tie : Tie) (n : Nat) (positive : 0 < den) :
    roundQuotient tie (n * den) den = n := by
  simp [roundQuotient, Tie.takesBelow, positive, Nat.mul_div_cancel n positive]

theorem div_le_roundQuotient : num / den ≤ roundQuotient tie num den := by
  rw [roundQuotient]
  split
  · exact Nat.le_refl _
  · exact Nat.le_succ _

end Quotients

namespace FloatFormat

variable {f : FloatFormat} {tie : Tie} {num den num' den' m : Nat}

theorem binade_pos (f : FloatFormat) : 0 < f.binade := Nat.two_pow_pos _

theorem roundUnits_mul (f : FloatFormat) (tie : Tie) (num den : Nat) {k : Nat} (positive : 0 < k) :
    f.roundUnits tie (k * num) (k * den) = f.roundUnits tie num den := by
  simp only [roundUnits, Nat.mul_div_mul_left _ _ positive, Nat.mul_assoc,
    roundQuotient_mul _ _ _ positive]

/-- Equal quotients are rounded alike. -/
theorem roundUnits_congr (h : num * den' = num' * den) (positive : 0 < den) (positive' : 0 < den') :
    f.roundUnits tie num den = f.roundUnits tie num' den' := by
  rw [← roundUnits_mul f tie num den positive', ← roundUnits_mul f tie num' den' positive,
    Nat.mul_comm den' num, h, Nat.mul_comm num' den, Nat.mul_comm den' den]

theorem roundUnits_of_small (h : 2 * num < den) : f.roundUnits tie num den = 0 := by
  have none : num / den = 0 := Nat.div_eq_of_lt (by omega)
  have zero : Nat.log2 0 - f.fractionBits = 0 := by simp
  rw [roundUnits, none, zero, Nat.zero_mul, Nat.zero_add]
  exact Nat.min_eq_right (by rw [roundQuotient_of_small (by simpa using h)]; exact Nat.zero_le _)
    |>.trans (roundQuotient_of_small (by simpa using h))

/-- Beyond the last finite magnitude, everything is rounded to infinity. -/
theorem roundUnits_of_large (bits : 0 < f.exponentBits) (positive : 0 < den)
    (h : 2 ^ (2 ^ f.exponentBits - 2 + f.fractionBits) * den ≤ num) :
    f.roundUnits tie num den = f.infinity := by
  have atLeast : 2 ^ (2 ^ f.exponentBits - 2 + f.fractionBits) ≤ num / den :=
    (Nat.le_div_iff_mul_le positive).mpr h
  have nonzero : num / den ≠ 0 := by
    have := Nat.two_pow_pos (2 ^ f.exponentBits - 2 + f.fractionBits)
    omega
  have log := (Nat.le_log2 nonzero).mpr atLeast
  have two : 2 ≤ 2 ^ f.exponentBits := Nat.le_pow bits
  rw [roundUnits]
  generalize shifted : Nat.log2 (num / den) - f.fractionBits = shift
  have split : Nat.log2 (num / den) = f.fractionBits + shift := by omega
  have significand : f.binade ≤ roundQuotient tie num (den * Nat.pow 2 shift) := by
    refine Nat.le_trans ?_ div_le_roundQuotient
    rw [← Nat.div_div_eq_div_mul]
    refine (Nat.le_div_iff_mul_le (Nat.two_pow_pos shift)).mpr ?_
    calc f.binade * Nat.pow 2 shift = 2 ^ Nat.log2 (num / den) := by rw [split, Nat.pow_add]; rfl
      _ ≤ num / den := Nat.log2_self_le nonzero
  apply Nat.min_eq_left
  have steps : (2 ^ f.exponentBits - 2) * f.binade ≤ shift * f.binade :=
    Nat.mul_le_mul_right _ (by omega)
  calc f.infinity = (2 ^ f.exponentBits - 2) * f.binade + f.binade := by
        rw [infinity, ← Nat.succ_mul]
        congr 1
        simp only [Nat.pow_eq]
        omega
    _ ≤ _ := Nat.add_le_add steps significand

/-- A magnitude's number has as many places as its significand, and those that it is shifted by. -/
theorem log2_units (f : FloatFormat) (m : Nat) :
    Nat.log2 (f.units m) - f.fractionBits = f.shift m := by
  by_cases small : m < f.binade
  · have none : f.shift m = 0 := by rw [FloatFormat.shift, Nat.div_eq_of_lt small]
    rw [units, none, significand, if_pos small]
    rcases Nat.eq_zero_or_pos m with rfl | nonzero
    · simp
    · have log : m.log2 < f.fractionBits := by
        rw [Nat.log2_lt (by omega)]
        exact small
      simp only [Nat.pow_eq, Nat.pow_zero, Nat.mul_one]
      omega
  · have rest := Nat.mod_lt m f.binade_pos
    have log : Nat.log2 (f.units m) = f.fractionBits + f.shift m := by
      rw [units, significand, if_neg small]
      simp only [binade, Nat.pow_eq] at rest ⊢
      have binade := Nat.two_pow_pos f.fractionBits
      rw [Nat.log2_eq_iff (Nat.ne_of_gt (Nat.mul_pos (by omega) (Nat.two_pow_pos _)))]
      constructor
      · rw [Nat.pow_add]
        exact Nat.mul_le_mul_right _ (Nat.le_add_right _ _)
      · rw [Nat.add_right_comm, Nat.pow_add _ (f.fractionBits + 1), Nat.pow_succ]
        exact Nat.mul_lt_mul_of_pos_right (by omega) (Nat.two_pow_pos _)
    omega

theorem shift_add_significand (f : FloatFormat) (m : Nat) :
    f.shift m * f.binade + f.significand m = m := by
  rw [FloatFormat.shift, significand]
  by_cases small : m < f.binade
  · rw [if_pos small, Nat.div_eq_of_lt small]
    omega
  · have one : 1 ≤ m / f.binade := (Nat.le_div_iff_mul_le f.binade_pos).mpr (by omega)
    rw [if_neg small, ← Nat.add_assoc, ← Nat.succ_mul, Nat.succ_eq_add_one,
      Nat.sub_add_cancel one, Nat.mul_comm]
    exact Nat.div_add_mod m f.binade

/-- The number of a magnitude is rounded to that magnitude. -/
theorem roundUnits_units (finite : m < f.infinity) (positive : 0 < den) :
    f.roundUnits tie (f.units m * den) den = m := by
  have exact : f.units m * den = f.significand m * (den * Nat.pow 2 (f.shift m)) := by
    rw [units, Nat.mul_assoc, Nat.mul_comm den]
  have positive' : 0 < den * Nat.pow 2 (f.shift m) := Nat.mul_pos positive (Nat.two_pow_pos _)
  rw [roundUnits, Nat.mul_div_cancel _ positive, log2_units, exact,
    roundQuotient_exact _ _ positive', shift_add_significand]
  exact Nat.min_eq_right (Nat.le_of_lt finite)

/-- A decimal in units of the format, as a quotient. -/
def numerator (f : FloatFormat) (d : Decimal) : Nat :=
  d.digits * 10 ^ d.exponent.toNat * 2 ^ (-f.unitExponent).toNat

def denominator (f : FloatFormat) (d : Decimal) : Nat :=
  10 ^ (-d.exponent).toNat * 2 ^ f.unitExponent.toNat

theorem denominator_pos (f : FloatFormat) (d : Decimal) : 0 < f.denominator d :=
  Nat.mul_pos (Nat.pow_pos (by decide)) (Nat.two_pow_pos _)

theorem nearest_of_digits (f : FloatFormat) (tie : Tie) {d : Decimal} (zero : d.digits = 0) :
    f.nearest tie d = 0 :=
  if_pos zero

/-- A decimal with so great an exponent is beyond the last finite magnitude. -/
theorem le_numerator (bits : 0 < f.exponentBits) {d : Decimal} (nonzero : d.digits ≠ 0)
    (large : (2 ^ (f.exponentBits - 1) : Nat) ≤ 3 * d.exponent) :
    2 ^ (2 ^ f.exponentBits - 2 + f.fractionBits) * f.denominator d ≤ f.numerator d := by
  have unit : f.unitExponent = 2 - (2 ^ (f.exponentBits - 1) : Nat) - f.fractionBits := rfl
  have one : 1 ≤ 2 ^ (f.exponentBits - 1) := Nat.one_le_two_pow
  have noFraction : (-d.exponent).toNat = 0 := by omega
  have double : 2 ^ f.exponentBits = 2 * 2 ^ (f.exponentBits - 1) := by
    rw [← Nat.pow_succ', Nat.succ_eq_add_one, Nat.sub_add_cancel bits]
  have power : 2 ^ 2 ^ (f.exponentBits - 1) ≤ 10 ^ d.exponent.toNat :=
    calc 2 ^ 2 ^ (f.exponentBits - 1)
      _ ≤ 2 ^ (3 * d.exponent.toNat) := Nat.pow_le_pow_right (by decide) (by omega)
      _ = 8 ^ d.exponent.toNat := Nat.pow_mul ..
      _ ≤ 10 ^ d.exponent.toNat := Nat.pow_le_pow_left (by decide) _
  rw [numerator, denominator, noFraction, Nat.pow_zero, Nat.one_mul]
  calc 2 ^ (2 ^ f.exponentBits - 2 + f.fractionBits) * 2 ^ f.unitExponent.toNat
    _ = 2 ^ 2 ^ (f.exponentBits - 1) * 2 ^ (-f.unitExponent).toNat := by
      rw [← Nat.pow_add, ← Nat.pow_add]
      congr 1
      omega
    _ ≤ 10 ^ d.exponent.toNat * 2 ^ (-f.unitExponent).toNat := Nat.mul_le_mul_right _ power
    _ ≤ d.digits * 10 ^ d.exponent.toNat * 2 ^ (-f.unitExponent).toNat :=
      Nat.mul_le_mul_right _ (Nat.le_mul_of_pos_left _ (Nat.pos_of_ne_zero nonzero))

/-- A decimal with so few digits for its exponent is less than half a unit. -/
theorem numerator_lt {d : Decimal} (negative : d.exponent < 0)
    (tiny : d.digits.log2 + 1 + 3 * d.exponent < f.unitExponent) :
    2 * f.numerator d < f.denominator d := by
  have whole : d.exponent.toNat = 0 := by omega
  have units : d.digits * 2 ^ (-f.unitExponent).toNat <
      2 ^ (d.digits.log2 + 1) * 2 ^ (-f.unitExponent).toNat :=
    Nat.mul_lt_mul_of_pos_right Nat.lt_log2_self (Nat.two_pow_pos _)
  rw [numerator, denominator, whole, Nat.pow_zero, Nat.mul_one]
  calc 2 * (d.digits * 2 ^ (-f.unitExponent).toNat)
    _ < 2 * (2 ^ (d.digits.log2 + 1) * 2 ^ (-f.unitExponent).toNat) := by omega
    _ = 2 ^ (d.digits.log2 + 2 + (-f.unitExponent).toNat) := by
      rw [← Nat.mul_assoc, ← Nat.pow_add_one', ← Nat.pow_add]
    _ ≤ 2 ^ (3 * (-d.exponent).toNat + f.unitExponent.toNat) :=
      Nat.pow_le_pow_right (by decide) (by omega)
    _ = 8 ^ (-d.exponent).toNat * 2 ^ f.unitExponent.toNat := by rw [Nat.pow_add, Nat.pow_mul]
    _ ≤ 10 ^ (-d.exponent).toNat * 2 ^ f.unitExponent.toNat :=
      Nat.mul_le_mul_right _ (Nat.pow_le_pow_left (by decide) _)

/-- The decimals that are told by their exponents are rounded like all others. -/
theorem nearest_eq (bits : 0 < f.exponentBits) (tie : Tie) {d : Decimal}
    (nonzero : d.digits ≠ 0) :
    f.nearest tie d = f.roundUnits tie (f.numerator d) (f.denominator d) := by
  rw [nearest, if_neg nonzero]
  split
  · rename_i large
    exact (roundUnits_of_large bits (f.denominator_pos d) (le_numerator bits nonzero large)).symm
  · split
    · rename_i tiny
      exact (roundUnits_of_small (numerator_lt tiny.1 tiny.2)).symm
    · rfl

/-- Zeros at the end count for nothing but a power of ten. -/
theorem nearest_shift (bits : 0 < f.exponentBits) (tie : Tie) (digits k : Nat) (exponent : Int) :
    f.nearest tie ⟨digits * 10 ^ k, exponent⟩ = f.nearest tie ⟨digits, exponent + k⟩ := by
  rcases Nat.eq_zero_or_pos digits with rfl | nonzero
  · rw [f.nearest_of_digits tie (Nat.zero_mul _), f.nearest_of_digits tie rfl]
  · have nonzero' : digits * 10 ^ k ≠ 0 :=
      Nat.ne_of_gt (Nat.mul_pos nonzero (Nat.pow_pos (by decide)))
    rw [nearest_eq bits tie nonzero', nearest_eq bits tie (Nat.ne_of_gt nonzero)]
    refine roundUnits_congr ?_ (f.denominator_pos _) (f.denominator_pos _)
    have powers : 10 ^ k * 10 ^ exponent.toNat * 10 ^ (-(exponent + k)).toNat =
        10 ^ (exponent + k).toNat * 10 ^ (-exponent).toNat := by
      rw [← Nat.pow_add, ← Nat.pow_add, ← Nat.pow_add]
      congr 1
      omega
    simp only [numerator, denominator]
    calc digits * 10 ^ k * 10 ^ exponent.toNat * 2 ^ (-f.unitExponent).toNat *
          (10 ^ (-(exponent + k)).toNat * 2 ^ f.unitExponent.toNat)
        = digits * 2 ^ (-f.unitExponent).toNat * 2 ^ f.unitExponent.toNat *
            (10 ^ k * 10 ^ exponent.toNat * 10 ^ (-(exponent + k)).toNat) := by ring
      _ = _ := by rw [powers]; ring

theorem numerator_exact (f : FloatFormat) (m : Nat) :
    f.numerator (f.exact m) = f.units m * f.denominator (f.exact m) := by
  rw [exact]
  split
  · rename_i power
    simp only [numerator, denominator, units, Nat.pow_eq, Int.toNat_zero, Int.neg_zero,
      Nat.pow_zero, Nat.mul_one, Nat.one_mul]
    rw [Nat.mul_assoc, Nat.mul_assoc, ← Nat.pow_add, ← Nat.pow_add]
    congr 2
    omega
  · rename_i power
    have whole : (f.shift m + f.unitExponent).toNat = 0 := by omega
    simp only [numerator, denominator, units, Nat.pow_eq, whole]
    generalize down : (-(f.shift m + f.unitExponent)).toNat = k
    have places : (-f.unitExponent).toNat = f.shift m + k + f.unitExponent.toNat := by omega
    have tens : 10 ^ k = 5 ^ k * 2 ^ k := Nat.mul_pow 5 2 k
    rw [places, tens, Nat.pow_add, Nat.pow_add]
    ring

theorem eq_zero_of_digits_exact (h : (f.exact m).digits = 0) : m = 0 := by
  have nonzero : f.significand m ≠ 0 → (f.exact m).digits ≠ 0 := by
    intro positive
    rw [exact]
    split
    · exact Nat.mul_ne_zero positive (Nat.ne_of_gt (Nat.two_pow_pos _))
    · exact Nat.mul_ne_zero positive (Nat.ne_of_gt (Nat.pow_pos (by decide)))
  have zero : f.significand m = 0 := Decidable.byContradiction fun h' => nonzero h' h
  have binade := f.binade_pos
  rw [significand] at zero
  split at zero
  · exact zero
  · omega

/-- The number of a finite magnitude is nearest to that magnitude, whichever way ties go. -/
theorem nearest_exact (bits : 0 < f.exponentBits) (tie : Tie) (finite : m < f.infinity) :
    f.nearest tie (f.exact m) = m := by
  by_cases zero : (f.exact m).digits = 0
  · rw [f.nearest_of_digits tie zero, eq_zero_of_digits_exact zero]
  · rw [nearest_eq bits tie zero, numerator_exact,
      roundUnits_units finite (f.denominator_pos _)]

end FloatFormat

end QueryDoc
