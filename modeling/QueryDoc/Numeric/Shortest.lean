import QueryDoc.Numeric.Binary

/-!
The shortest decimal that reads back as a given binary number, and of several such decimals the
nearest one. If any decimal with so many digits reads back, one of the number's two neighbours on
that grid does, so these two are tried for one digit, two digits, and so on. The search ends, at
the latest, with all the digits of the number itself.
-/

namespace QueryDoc

/-- What is asked of a short decimal besides its length. -/
structure ShortestRule where
  /-- Which of two decimals is taken that are equally short and equally near. -/
  tie : Tie := .toEven
  /-- The decimal reads back whichever of these ways its reader rounds in. -/
  readings : List Tie := [.toEven]
deriving DecidableEq, Repr

namespace FloatFormat

def readsBack (f : FloatFormat) (readings : List Tie) (magnitude : Nat) (d : Decimal) : Bool :=
  readings.all fun tie => f.nearest tie d = magnitude

def shortest (f : FloatFormat) (rule : ShortestRule) (magnitude : Nat) : Decimal :=
  let all := f.exact magnitude
  let found := (List.range' 1 all.length).findSome? fun n =>
    (all.neighbours rule.tie n).find? (f.readsBack rule.readings magnitude)
  found.getD all

end FloatFormat

/-- The shortest decimal for the number without its sign. -/
def Binary.shortest {f : FloatFormat} (rule : ShortestRule) (x : Binary f) : Decimal :=
  f.shortest rule x.magnitude

end QueryDoc
