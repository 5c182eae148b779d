import QueryDoc.Error
import QueryDoc.Numeric.Layout
import QueryDoc.Numeric.Shortest
import QueryDoc.Numeric.Word
import QueryDoc.Value

/-!
Values from numbers. An integer becomes its canonical decimal text, a float the shortest decimal
that reads back as the same float. A float that is not finite has no literal, and neither has a list
with such an item.
-/

namespace QueryDoc.Value

variable {Ref : Type} {f : FloatFormat}

/-- Float literals always have a fraction, and up to ten places before the point or five after it
are written out. Zero has no sign. -/
def floatLayout : NumberLayout :=
  { least := -5, greatest := 9, alwaysFraction := true, plusSign := false, signedZero := false }

/-- A literal halfway to the next lesser float is that float to a reader who rounds halves down. Only
floats of double precision whose last place is at most `2 ^ 9` have such literals. Of two literals
that are equally near to a single precision float the greater one is taken, unless the float is a
power of two. -/
def literalRule (x : Binary f) : ShortestRule where
  tie := if f = .binary32 ∧ x.magnitude % f.binade ≠ 0 then .up else .toEven
  readings :=
    if f = .binary32 ∨ 9 < f.shift x.magnitude + f.unitExponent then [.toEven, .down]
    else [.toEven]

def ofInt (n : Int) : Value Ref := .int (integerText n)

/-- The value of an integer of a fixed number of bits. -/
def ofWord (t : IntegerType) (w : t.Word) : Value Ref := .int (t.text w)

def floatText (x : Binary f) : String := floatLayout.write x.negative (x.shortest (literalRule x))

/-- What a float that is not finite is called. -/
def floatName (x : Binary f) : String :=
  if x.isNaN then "NaN" else if x.negative then "-inf" else "inf"

def ofFloat (x : Binary f) : Except Error (Value Ref) :=
  if x.isFinite then .ok (.float (floatText x)) else .error (.noFloatLiteral (floatName x))

/-- A list whose items are made into values in order; the first one that has no value ends this. -/
def ofItems {Item : Type} (ofItem : Item → Except Error (Value Ref)) (items : List Item) :
    Except Error (Value Ref) := do
  let values ← items.mapM ofItem
  return .list values

end QueryDoc.Value
