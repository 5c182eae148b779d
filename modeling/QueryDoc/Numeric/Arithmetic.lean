import QueryDoc.Numeric.Binary

/-!
Products and quotients of binary numbers. The exact result is measured in the format's unit and
rounded once.
-/

namespace QueryDoc

/-- A magnitude's number, in units. -/
def FloatFormat.units (f : FloatFormat) (magnitude : Nat) : Nat :=
  f.significand magnitude * Nat.pow 2 (f.shift magnitude)

namespace Binary

variable {f : FloatFormat}

/-- The number nearest to `num / den` units, with the given sign. Ties go to the even number. -/
def ofUnits (f : FloatFormat) (negative : Bool) (num den : Nat) : Binary f :=
  ⟨negative, f.roundUnits .toEven num den, Nat.lt_of_le_of_lt (f.roundUnits_le ..) f.infinity_lt⟩

/-- The product of two finite numbers. -/
def mul (x y : Binary f) : Binary f :=
  ofUnits f (x.negative != y.negative)
    (f.units x.magnitude * f.units y.magnitude * Nat.pow 2 f.unitExponent.toNat)
    (Nat.pow 2 (-f.unitExponent).toNat)

/-- The quotient of two finite numbers, of which the second is not zero. -/
def div (x y : Binary f) : Binary f :=
  ofUnits f (x.negative != y.negative)
    (f.units x.magnitude * Nat.pow 2 (-f.unitExponent).toNat)
    (f.units y.magnitude * Nat.pow 2 f.unitExponent.toNat)

end Binary

end QueryDoc
