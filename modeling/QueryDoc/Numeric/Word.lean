import QueryDoc.Numeric.Numeral

/-!
Integers of a fixed number of bits. A word is the bits of such an integer, with the complement of
two for a negative one. A word is written with the digits of its amount, and read from a text digit
by digit. Arithmetic on words gives the word of the exact result, or none if there is no such word.
-/

namespace QueryDoc

/-- The integers of so many bits, with a sign or without one. -/
structure IntegerType where
  signed : Bool
  bits : Nat
  byte_le : 8 ≤ bits := by decide
deriving DecidableEq

namespace IntegerType

def signed64 : IntegerType := { signed := true, bits := 64 }

def unsigned64 : IntegerType := { signed := false, bits := 64 }

abbrev Word (t : IntegerType) : Type := BitVec t.bits

variable (t : IntegerType)

def least : Int := if t.signed then -(Nat.pow 2 (t.bits - 1) : Nat) else 0

def greatest : Int := (Nat.pow 2 (if t.signed then t.bits - 1 else t.bits) : Nat) - 1

def Holds (n : Int) : Prop := t.least ≤ n ∧ n ≤ t.greatest

instance (n : Int) : Decidable (t.Holds n) := inferInstanceAs (Decidable (_ ∧ _))

def value (w : t.Word) : Int := if t.signed then w.toInt else w.toNat

/-- The word with the last bits of an integer, which is the word of that integer if the type holds
it. -/
def word (n : Int) : t.Word := BitVec.ofInt t.bits n

theorem holds_value (w : t.Word) : t.Holds (t.value w) := by
  have signedLeast := w.le_toInt
  have signedGreatest := w.toInt_lt
  have unsigned : (w.toNat : Int) < 2 ^ t.bits := by exact_mod_cast w.isLt
  rw [Holds, least, greatest, value]
  simp only [Nat.pow_eq, Int.natCast_pow, Int.cast_ofNat_Int]
  split <;> omega

section Writing

def isNegative (w : t.Word) : Bool := t.signed && w.msb

/-- The word without its sign, as one that never has a sign. The least of the signed words is its
own complement, and then stands for its own amount. -/
def magnitude (w : t.Word) : t.Word := if t.isNegative w then -w else w

def text (w : t.Word) : String :=
  if t.isNegative w then "-" ++ Nat.repr (t.magnitude w).toNat
  else Nat.repr (t.magnitude w).toNat

end Writing

section Reading

/-- The result of an operation, unless the exact one is out of range. -/
def checked (overflow : Bool) (result : t.Word) : Option t.Word :=
  if overflow then none else some result

def add? (v w : t.Word) : Option t.Word :=
  t.checked (if t.signed then v.saddOverflow w else v.uaddOverflow w) (v + w)

def sub? (v w : t.Word) : Option t.Word :=
  t.checked (if t.signed then v.ssubOverflow w else v.usubOverflow w) (v - w)

def mul? (v w : t.Word) : Option t.Word :=
  t.checked (if t.signed then v.smulOverflow w else v.umulOverflow w) (v * w)

/-- Goes on with one more digit. Negative integers grow downwards, as the least one has no word
without its sign. -/
def next? (negative : Bool) (w : t.Word) (c : Char) : Option t.Word :=
  if c.isDigit then do
    let shifted ← t.mul? w (t.word 10)
    let digit := t.word (digitsValue [c])
    if negative then t.sub? shifted digit else t.add? shifted digit
  else none

/-- A sign in front. Without negative integers, a minus sign is none. -/
def leadingSign (cs : List Char) : Bool × List Char :=
  match QueryDoc.leadingSign cs with
  | (true, body) => if t.signed then (true, body) else (false, cs)
  | (false, body) => (false, body)

/-- The word of a text of digits, with or without a sign. -/
def read? (text : String) : Option t.Word :=
  match t.leadingSign text.toList with
  | (_, []) => none
  | (negative, digits) => digits.foldlM (t.next? negative) (t.word 0)

end Reading

end IntegerType

end QueryDoc
