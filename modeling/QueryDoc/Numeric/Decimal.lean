/-!
Decimal numbers: a natural number of units, each a power of ten. A decimal is cut down to fewer
digits by taking one of its two neighbours on the coarser grid.
-/

namespace QueryDoc

/-- The number `digits * 10 ^ exponent`. -/
structure Decimal where
  digits : Nat
  exponent : Int
deriving DecidableEq, Repr

/-- Which of two equally near numbers is taken: the one with an even last digit, the greater one, or
the lesser one. -/
inductive Tie where
  | toEven
  | up
  | down
deriving DecidableEq, Repr

/-- Whether the integer below a quotient is taken as the nearest one, rather than the next. -/
def Tie.takesBelow (tie : Tie) (num den : Nat) : Bool :=
  let rest := num % den
  2 * rest < den || 2 * rest = den &&
    match tie with
    | .toEven => num / den % 2 = 0
    | .up => false
    | .down => true

def roundQuotient (tie : Tie) (num den : Nat) : Nat :=
  if tie.takesBelow num den then num / den else num / den + 1

def integerText (n : Int) : String :=
  if n < 0 then "-" ++ Nat.repr n.natAbs else Nat.repr n.natAbs

namespace Decimal

/-- How many digits are written, one for zero. -/
def length (d : Decimal) : Nat := (Nat.toDigits 10 d.digits).length

/-- The power of ten of the first digit. -/
def firstExponent (d : Decimal) : Int := d.exponent + d.length - 1

/-- The two neighbours of `d` with `n` digits, the nearer one first. -/
def neighbours (tie : Tie) (d : Decimal) (n : Nat) : List Decimal :=
  let dropped := d.length - n
  let unit := Nat.pow 10 dropped
  let lower : Decimal := ⟨d.digits / unit, d.exponent + dropped⟩
  let upper : Decimal := ⟨d.digits / unit + 1, d.exponent + dropped⟩
  if tie.takesBelow d.digits unit then [lower, upper] else [upper, lower]

end Decimal

end QueryDoc
