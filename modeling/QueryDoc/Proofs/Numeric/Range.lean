import QueryDoc.Proofs.Numeric.Rounding

/-!
Where numbers become infinite. A number is rounded to infinity if it is at least halfway from the
greatest finite number to the one that would come next. The significand of that next one is even, so
that it gets the tie.
-/

namespace QueryDoc

/-- A quotient is rounded to an even number, or beyond, from one half below it on. -/
theorem two_mul_le_roundQuotient_iff {num den k : Nat} (positive : 0 < den) (nonzero : 0 < k) :
    2 * k ≤ roundQuotient .toEven num den ↔ (4 * k - 1) * den ≤ 2 * num := by
  have split : den * (num / den) + num % den = num := Nat.div_add_mod num den
  have rest : num % den < den := Nat.mod_lt num positive
  have bound : (4 * k - 1) * den = 4 * (den * k) - den := by
    rw [Nat.sub_mul, Nat.one_mul, Nat.mul_assoc, Nat.mul_comm k]
  have one : den ≤ den * k := Nat.le_mul_of_pos_right den nonzero
  have double : den * (2 * k) = 2 * (den * k) := Nat.mul_left_comm ..
  rw [roundQuotient, Tie.takesBelow, bound]
  generalize num / den = q at split ⊢
  generalize num % den = r at split rest ⊢
  have reached (m : Nat) (h : 2 * k ≤ q + m) : 2 * (den * k) ≤ den * q + den * m := by
    rw [← double, ← Nat.mul_add]
    exact Nat.mul_le_mul_left den h
  have missed (m : Nat) (h : q + m ≤ 2 * k) : den * q + den * m ≤ 2 * (den * k) := by
    rw [← double, ← Nat.mul_add]
    exact Nat.mul_le_mul_left den h
  by_cases below : 2 * r < den ∨ 2 * r = den ∧ q % 2 = 0
  · rw [if_pos (by simpa using below)]
    constructor
    · intro h
      have := reached 0 h
      omega
    · intro h
      by_contra less
      rcases below with low | ⟨half, even⟩
      · have := missed 1 (by omega)
        omega
      · have := missed 2 (by omega)
        omega
  · rw [if_neg (by simpa using below)]
    constructor
    · intro h
      have := reached 1 h
      omega
    · intro h
      by_contra less
      have := missed 2 (by omega)
      omega

theorem two_mul_le_roundQuotient_pow_iff {num den k : Nat} (positive : 0 < den) (nonzero : 0 < k)
    (places : Nat) :
    2 * k ≤ roundQuotient .toEven num (den * 2 ^ (places + 1)) ↔
      (4 * k - 1) * (den * 2 ^ places) ≤ num := by
  have half : (4 * k - 1) * (den * 2 ^ (places + 1)) =
      2 * ((4 * k - 1) * (den * 2 ^ places)) := by
    rw [Nat.pow_succ']
    ring
  rw [two_mul_le_roundQuotient_iff (Nat.mul_pos positive (Nat.two_pow_pos _)) nonzero, half]
  exact Nat.mul_le_mul_left_iff (by decide)

theorem roundQuotient_le {tie : Tie} {num den : Nat} :
    roundQuotient tie num den ≤ num / den + 1 := by
  rw [roundQuotient]
  split
  · exact Nat.le_succ _
  · exact Nat.le_refl _

namespace FloatFormat

variable {f : FloatFormat} {tie : Tie} {num den places : Nat}

/-- Halfway from the greatest finite number to the next one, in units. -/
def overflow (f : FloatFormat) : Nat := (4 * f.binade - 1) * 2 ^ (2 ^ f.exponentBits - 4)

theorem overflow_le (bits : 2 ≤ f.exponentBits) :
    f.overflow ≤ 2 ^ (2 ^ f.exponentBits - 2 + f.fractionBits) := by
  have four : 2 ^ 2 ≤ 2 ^ f.exponentBits := Nat.pow_le_pow_right (by decide) bits
  have split : 2 ^ f.exponentBits - 2 + f.fractionBits =
      f.fractionBits + 2 + (2 ^ f.exponentBits - 4) := by omega
  rw [overflow, split, Nat.pow_add, Nat.pow_add 2 f.fractionBits]
  refine Nat.mul_le_mul_right _ ((Nat.sub_le _ _).trans ?_)
  rw [Nat.mul_comm]
  rfl

/-- With all its places but those of a significand dropped, a number is less than two binades. -/
theorem num_lt_of_shift {shift : Nat} (positive : 0 < den)
    (shifted : Nat.log2 (num / den) - f.fractionBits = shift) :
    num < 2 * f.binade * (den * 2 ^ shift) := by
  have power : 2 * f.binade * 2 ^ shift = 2 ^ (f.fractionBits + shift + 1) := by
    rw [Nat.pow_succ', Nat.pow_add, Nat.mul_assoc]
    rfl
  rw [Nat.mul_comm den, ← Nat.mul_assoc, ← Nat.div_lt_iff_lt_mul positive, power]
  exact Nat.lt_log2_self.trans_le (Nat.pow_le_pow_right (by decide) (by omega))

/-- From the shift after the last one on, everything is rounded to infinity. -/
theorem roundUnits_of_far (bits : 2 ≤ f.exponentBits) (positive : 0 < den)
    (far : 2 ^ f.exponentBits - 2 ≤ Nat.log2 (num / den) - f.fractionBits) :
    f.roundUnits tie num den = f.infinity ∧ f.overflow * den ≤ num := by
  have four : 2 ^ 2 ≤ 2 ^ f.exponentBits := Nat.pow_le_pow_right (by decide) bits
  have nonzero : num / den ≠ 0 := by
    intro zero
    rw [zero, Nat.log2_zero] at far
    omega
  have large : 2 ^ (2 ^ f.exponentBits - 2 + f.fractionBits) * den ≤ num := by
    rw [← Nat.le_div_iff_mul_le positive, ← Nat.le_log2 nonzero]
    omega
  exact ⟨roundUnits_of_large (by omega) positive large,
    (Nat.mul_le_mul_right den (overflow_le bits)).trans large⟩

/-- Rounding ends in infinity exactly from the overflow threshold on. -/
theorem roundUnits_eq_infinity_iff (bits : 2 ≤ f.exponentBits) (positive : 0 < den) :
    f.roundUnits .toEven num den = f.infinity ↔ f.overflow * den ≤ num := by
  have four : 2 ^ 2 ≤ 2 ^ f.exponentBits := Nat.pow_le_pow_right (by decide) bits
  obtain ⟨places, top⟩ : ∃ places, 2 ^ f.exponentBits = places + 4 :=
    ⟨2 ^ f.exponentBits - 4, by omega⟩
  have binade := f.binade_pos
  have infinity : f.infinity = (places + 3) * f.binade := by
    rw [FloatFormat.infinity, Nat.pow_eq, top]
    rfl
  have overflow : f.overflow * den = (4 * f.binade - 1) * (den * 2 ^ places) := by
    rw [FloatFormat.overflow, top, Nat.add_sub_cancel, Nat.mul_assoc, Nat.mul_comm den]
  have capped (m : Nat) : Nat.min f.infinity m = f.infinity ↔ f.infinity ≤ m := min_eq_left_iff
  generalize shifted : Nat.log2 (num / den) - f.fractionBits = shift
  rcases Nat.lt_trichotomy shift (places + 1) with low | last | far
  · -- the significand is below two binades, and so are the number and its rounding
    have small := num_lt_of_shift positive shifted
    have rounded : roundQuotient .toEven num (den * 2 ^ shift) ≤ 2 * f.binade :=
      roundQuotient_le.trans ((Nat.div_lt_iff_lt_mul
        (Nat.mul_pos positive (Nat.two_pow_pos shift))).mpr small)
    have steps : (shift + 2) * f.binade < (places + 3) * f.binade :=
      Nat.mul_lt_mul_of_pos_right (by omega) binade
    have grown : 2 * f.binade * (den * 2 ^ shift) ≤ (4 * f.binade - 1) * (den * 2 ^ places) :=
      Nat.mul_le_mul (by omega)
        (Nat.mul_le_mul_left den (Nat.pow_le_pow_right (by decide) (by omega)))
    rw [Nat.add_mul] at steps
    rw [roundUnits, shifted, capped, infinity, overflow, Nat.pow_eq]
    exact iff_of_false (by omega) (by omega)
  · have steps : (places + 3) * f.binade = (places + 1) * f.binade + 2 * f.binade :=
      Nat.add_mul (places + 1) 2 f.binade
    rw [roundUnits, shifted, capped, infinity, overflow, last, steps, Nat.add_le_add_iff_left,
      Nat.pow_eq, two_mul_le_roundQuotient_pow_iff positive binade]
  · exact (roundUnits_of_far bits positive (by omega)).elim iff_of_true

theorem nearest_eq_infinity_iff (bits : 2 ≤ f.exponentBits) (d : Decimal) :
    f.nearest .toEven d = f.infinity ↔ f.overflow * f.denominator d ≤ f.numerator d := by
  by_cases zero : d.digits = 0
  · have four : 2 ^ 2 ≤ 2 ^ f.exponentBits := Nat.pow_le_pow_right (by decide) bits
    have binade := f.binade_pos
    have infinity : 0 < f.infinity := Nat.mul_pos (by rw [Nat.pow_eq]; omega) binade
    have overflow : 0 < f.overflow := Nat.mul_pos (by omega) (Nat.two_pow_pos _)
    have product := Nat.mul_pos overflow (f.denominator_pos d)
    have none : f.numerator d = 0 := by rw [numerator, zero, Nat.zero_mul, Nat.zero_mul]
    rw [f.nearest_of_digits _ zero, none]
    omega
  · rw [nearest_eq (by omega) _ zero, roundUnits_eq_infinity_iff bits (f.denominator_pos d)]

end FloatFormat

/-- Whether a decimal is as great as a natural number. -/
def Decimal.AtLeast (d : Decimal) (n : Nat) : Prop :=
  n * 10 ^ (-d.exponent).toNat ≤ d.digits * 10 ^ d.exponent.toNat

instance (d : Decimal) (n : Nat) : Decidable (d.AtLeast n) := inferInstanceAs (Decidable (_ ≤ _))

/-- A float of double precision is finite if its decimal is less than halfway from the greatest
finite number, `2 ^ 1024 - 2 ^ 971`, to `2 ^ 1024`. -/
theorem Binary.isFinite_ofDecimal_iff (negative : Bool) (d : Decimal) :
    (Binary.ofDecimal .binary64 negative d).isFinite = true ↔ ¬ d.AtLeast (2 ^ 1024 - 2 ^ 970) := by
  have least := FloatFormat.nearest_le .binary64 .toEven d
  have infinite := FloatFormat.nearest_eq_infinity_iff (f := .binary64) (by decide) d
  have threshold : FloatFormat.overflow .binary64 = (2 ^ 1024 - 2 ^ 970) * 2 ^ 1074 := by
    decide +kernel
  have scaled : FloatFormat.overflow .binary64 * FloatFormat.denominator .binary64 d ≤
      FloatFormat.numerator .binary64 d ↔ d.AtLeast (2 ^ 1024 - 2 ^ 970) := by
    have unit : FloatFormat.binary64.unitExponent = -1074 := by decide
    rw [threshold, FloatFormat.denominator, FloatFormat.numerator, unit, Decimal.AtLeast]
    generalize 2 ^ 1024 - 2 ^ 970 = limit
    rw [show (-1074 : Int).toNat = 0 from rfl, show (- -1074 : Int).toNat = 1074 from rfl,
      Nat.pow_zero, Nat.mul_one, Nat.mul_right_comm, Nat.mul_le_mul_right_iff (Nat.two_pow_pos _)]
  rw [isFinite, decide_eq_true_eq, ← scaled, ← infinite]
  exact Nat.lt_iff_le_and_ne.trans (and_iff_right least)

end QueryDoc
