import QueryDoc.Numeric.Decimal

/-!
Binary floating point numbers, kept as a sign and a magnitude: the number's bits without the sign
bit. Magnitudes are in the order of the numbers that they stand for. Rounding is exact, on natural
numbers only: a magnitude's number is a multiple of the format's least positive number, and so
every decimal is measured in that unit.
-/

namespace QueryDoc

structure FloatFormat where
  fractionBits : Nat
  exponentBits : Nat
deriving DecidableEq, Repr

namespace FloatFormat

def binary64 : FloatFormat := ⟨52, 11⟩

def binary32 : FloatFormat := ⟨23, 8⟩

/-- The unit is two to this power. -/
def unitExponent (f : FloatFormat) : Int :=
  2 - (Nat.pow 2 (f.exponentBits - 1) : Nat) - f.fractionBits

/-- How many magnitudes follow each other in equal steps, before the steps double. -/
def binade (f : FloatFormat) : Nat := Nat.pow 2 f.fractionBits

/-- The weight of the sign among the bits; magnitudes are less. -/
def signWeight (f : FloatFormat) : Nat := Nat.pow 2 (f.exponentBits + f.fractionBits)

/-- The magnitude of infinity: greater ones are not numbers, lesser ones are finite. -/
def infinity (f : FloatFormat) : Nat := (Nat.pow 2 f.exponentBits - 1) * f.binade

/-- The digits of a magnitude's number, in binary. -/
def significand (f : FloatFormat) (magnitude : Nat) : Nat :=
  if magnitude < f.binade then magnitude else f.binade + magnitude % f.binade

/-- A magnitude's number is its significand, shifted left by this many places. -/
def shift (f : FloatFormat) (magnitude : Nat) : Nat := magnitude / f.binade - 1

/-- The decimal that is exactly a magnitude's number. -/
def exact (f : FloatFormat) (magnitude : Nat) : Decimal :=
  let power := f.shift magnitude + f.unitExponent
  if 0 ≤ power then ⟨f.significand magnitude * Nat.pow 2 power.toNat, 0⟩
  else ⟨f.significand magnitude * Nat.pow 5 (-power).toNat, power⟩

/-- The magnitude nearest to `num / den` units. A significand rounded up to one more place is the
first one with the next shift, and magnitudes follow each other in the same way. -/
def roundUnits (f : FloatFormat) (tie : Tie) (num den : Nat) : Nat :=
  let shift := Nat.log2 (num / den) - f.fractionBits
  Nat.min f.infinity (shift * f.binade + roundQuotient tie num (den * Nat.pow 2 shift))

/-- The magnitude nearest to a decimal. Decimals far out of range are told by the size of their
exponent alone, since eight is less than ten. -/
def nearest (f : FloatFormat) (tie : Tie) (d : Decimal) : Nat :=
  if d.digits = 0 then 0
  else if (Nat.pow 2 (f.exponentBits - 1) : Nat) ≤ 3 * d.exponent then f.infinity
  else if d.exponent < 0 ∧ Nat.log2 d.digits + 1 + 3 * d.exponent < f.unitExponent then 0
  else
    f.roundUnits tie
      (d.digits * Nat.pow 10 d.exponent.toNat * Nat.pow 2 (-f.unitExponent).toNat)
      (Nat.pow 10 (-d.exponent).toNat * Nat.pow 2 f.unitExponent.toNat)

theorem roundUnits_le (f : FloatFormat) (tie : Tie) (num den : Nat) :
    f.roundUnits tie num den ≤ f.infinity :=
  Nat.min_le_left ..

theorem nearest_le (f : FloatFormat) (tie : Tie) (d : Decimal) :
    f.nearest tie d ≤ f.infinity := by
  unfold nearest
  split
  · exact Nat.zero_le _
  · split
    · exact Nat.le_refl _
    · split
      · exact Nat.zero_le _
      · exact roundUnits_le ..

theorem signWeight_eq (f : FloatFormat) : f.signWeight = Nat.pow 2 f.exponentBits * f.binade :=
  Nat.pow_add ..

theorem infinity_lt (f : FloatFormat) : f.infinity < f.signWeight := by
  rw [infinity, signWeight_eq]
  have : 0 < Nat.pow 2 f.exponentBits := Nat.two_pow_pos _
  exact Nat.mul_lt_mul_of_pos_right (by omega) (Nat.two_pow_pos _)

end FloatFormat

/-- A number of the given format, an infinity, or not a number. -/
structure Binary (f : FloatFormat) where
  negative : Bool
  magnitude : Nat
  bound : magnitude < f.signWeight
deriving DecidableEq

namespace Binary

variable {f : FloatFormat}

def isFinite (x : Binary f) : Bool := x.magnitude < f.infinity

def isNaN (x : Binary f) : Bool := f.infinity < x.magnitude

/-- Whether two finite numbers are equal. Zero is equal to zero with either sign. -/
def sameNumber (x y : Binary f) : Bool :=
  x.magnitude = y.magnitude && (x.negative = y.negative || x.magnitude = 0)

/-- The number with the given bits, the sign first; bits beyond the format's width are left out. -/
def ofBits (f : FloatFormat) (bits : Nat) : Binary f :=
  ⟨bits / f.signWeight % 2 = 1, bits % f.signWeight, Nat.mod_lt _ (Nat.two_pow_pos _)⟩

def toBits (x : Binary f) : Nat :=
  (if x.negative then f.signWeight else 0) + x.magnitude

/-- The number nearest to a decimal, with the given sign. Ties go to the even number. -/
def ofDecimal (f : FloatFormat) (negative : Bool) (d : Decimal) : Binary f :=
  ⟨negative, f.nearest .toEven d, Nat.lt_of_le_of_lt (f.nearest_le _ d) f.infinity_lt⟩

def convert (g : FloatFormat) (x : Binary f) : Binary g :=
  ofDecimal g x.negative (f.exact x.magnitude)

end Binary

end QueryDoc
