import QueryDoc.Numeric.Numeral

/-!
A sentence about a failure may end with a place, as in `too deep at line 3 column 4`. The place
counts as data and not as wording: its numbers are shown without leading zeros, and line 0 stands
for a place that is not known and therefore not shown.
-/

namespace QueryDoc

structure Place where
  line : Nat
  column : Nat
deriving DecidableEq, Repr

namespace Place

/-- The number of at least one digit, if 64 bits hold it. -/
def coordinate? : List Char → Option Nat
  | [] => none
  | digits =>
    if digitsValue digits < 18446744073709551616 then some (digitsValue digits) else none

/-- The place that makes up the whole text. -/
def ofChars? (cs : List Char) : Option Place := do
  let (line, rest) := leadingDigits (← " at line ".toList.isPrefixOf? cs)
  let (column, rest) := leadingDigits (← " column ".toList.isPrefixOf? rest)
  guard (rest = [])
  return ⟨← coordinate? line, ← coordinate? column⟩

def text (p : Place) : String :=
  if p.line = 0 then ""
  else " at line " ++ integerText p.line ++ " column " ++ integerText p.column

/-- The text with the place at its end, if there is one, as it is shown. A text has at most one:
what follows ` at line ` in a place starts with a digit, so no place starts inside another. -/
def normalize : List Char → List Char
  | [] => []
  | c :: cs =>
    match ofChars? (c :: cs) with
    | some p => p.text.toList
    | none => c :: normalize cs

end Place

end QueryDoc
