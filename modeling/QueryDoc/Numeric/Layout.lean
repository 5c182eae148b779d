import QueryDoc.Numeric.Decimal

/-!
Writing decimals. A layout says for which numbers all places up to the point are written, and how
a power of ten is written for the others.
-/

namespace QueryDoc

structure NumberLayout where
  /-- The least power of ten of the first digit that is written without an exponent. -/
  least : Int
  /-- The greatest such power. -/
  greatest : Int
  /-- Whether a single digit before an exponent is followed by `.0`. -/
  alwaysFraction : Bool
  /-- Whether a positive exponent has a plus sign. -/
  plusSign : Bool
  /-- Whether zero keeps its sign. -/
  signedZero : Bool
deriving DecidableEq, Repr

def trimZeros (digits : List Char) : List Char :=
  (digits.reverse.dropWhile (· = '0')).reverse

namespace NumberLayout

/-- A fraction is never empty. -/
def fraction (digits : List Char) : List Char := if digits = [] then ['0'] else digits

/-- The digits with a point after the place of the ones; `first` is the power of ten of the first
digit. -/
def positional (digits : List Char) (first : Int) : List Char :=
  if first < 0 then '0' :: '.' :: List.replicate (-first - 1).toNat '0' ++ digits
  else
    let places := first.toNat + 1
    digits.take places ++ List.replicate (places - digits.length) '0' ++
      '.' :: fraction (digits.drop places)

def scientific (layout : NumberLayout) (digits : List Char) (first : Int) : List Char :=
  let tail := digits.drop 1
  let sign := if first < 0 then ['-'] else if layout.plusSign then ['+'] else []
  digits.take 1 ++ (if tail = [] ∧ ¬ layout.alwaysFraction then [] else '.' :: fraction tail) ++
    'e' :: sign ++ Nat.toDigits 10 first.natAbs

def unsigned (layout : NumberLayout) (d : Decimal) : List Char :=
  let digits := trimZeros (Nat.toDigits 10 d.digits)
  let first := d.firstExponent
  if layout.least ≤ first ∧ first ≤ layout.greatest then positional digits first
  else layout.scientific digits first

def write (layout : NumberLayout) (negative : Bool) (d : Decimal) : String :=
  if d.digits = 0 then if negative ∧ layout.signedZero then "-0.0" else "0.0"
  else if negative then "-" ++ String.ofList (layout.unsigned d)
  else String.ofList (layout.unsigned d)

end NumberLayout

end QueryDoc
