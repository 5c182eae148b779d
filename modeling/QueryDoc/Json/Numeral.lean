import QueryDoc.Json.Basic
import QueryDoc.Numeric.Arithmetic
import QueryDoc.Numeric.Numeral

/-!
The numbers that numerals in a JSON text stand for. Integers are exact, as far as 64 bits hold them.
All other numbers are floats, made of the leading digits, as many as 64 bits hold: these digits as a
float, times or divided by a power of ten as a float. As every step rounds, the result need not be
the nearest float.
-/

namespace QueryDoc.Numeral

/-- Goes on from `value` with the leading digits, as far as 64 bits hold the number. Gives back the
number, and how many digits are left. -/
def takeDigits (value : Nat) : List Char → Nat × Nat
  | [] => (value, 0)
  | c :: digits =>
    let next := value * 10 + digitsValue [c]
    if next < 18446744073709551616 then takeDigits next digits else (value, digits.length + 1)

/-- The leading digits and the power of ten that they are multiplied by. Digits that are left in the
whole part count as zeros. -/
def scaledDigits (n : Numeral) : Nat × Int :=
  let (value, zeros) := takeDigits 0 n.whole
  let (value, left) := takeDigits value n.fraction
  (value, n.exponent + zeros + left - n.fraction.length)

/-- The greatest power of ten that is a finite float. -/
def greatestPower : Nat := 308

def powerOfTen (k : Nat) : Binary64 := .ofDecimal .binary64 false ⟨1, k⟩

/-- Divides by a power of ten, in steps if the power is not a finite float. -/
def divByPower (x : Binary64) (k : Nat) : Binary64 :=
  if x.magnitude = 0 then x
  else if k ≤ greatestPower then x.div (powerOfTen k)
  else divByPower (x.div (powerOfTen greatestPower)) (k - greatestPower)
termination_by k
decreasing_by exact Nat.sub_lt (by omega) (by decide)

/-- The float of a numeral, unless it is out of range. -/
def toFloat? (n : Numeral) : Option Number :=
  let (digits, power) := n.scaledDigits
  let x : Binary64 := .ofDecimal .binary64 n.negative ⟨digits, 0⟩
  if x.magnitude = 0 then Number.ofFloat? x
  else if power < 0 then Number.ofFloat? (divByPower x (-power).toNat)
  else if power ≤ greatestPower then Number.ofFloat? (x.mul (powerOfTen power.toNat))
  else none

/-- The number of a numeral, unless it is out of range. A numeral without point and exponent is an
integer if 64 bits hold it, except that minus zero is a float. -/
def toNumber? (n : Numeral) : Option Number :=
  if n.isWhole ∧ ¬ (n.negative ∧ digitsValue n.whole = 0) then
    let value : Int := digitsValue n.whole
    (Number.ofInt? (if n.negative then -value else value)).or n.toFloat?
  else n.toFloat?

end QueryDoc.Numeral
