import QueryDoc.Numeric.Decimal

/-!
Reading numerals: a sign, digits, a point with more digits, and a power of ten. Digits are those
of ASCII alone. Each reader takes what it can from the front and gives the rest back.
-/

namespace QueryDoc

/-- The leading digits, and what follows them. -/
def leadingDigits : List Char → List Char × List Char
  | [] => ([], [])
  | c :: cs =>
    if c.isDigit then
      let (digits, rest) := leadingDigits cs
      (c :: digits, rest)
    else ([], c :: cs)

theorem leadingDigits_append (cs : List Char) :
    (leadingDigits cs).1 ++ (leadingDigits cs).2 = cs := by
  induction cs with
  | nil => rfl
  | cons c cs ih =>
    rw [leadingDigits]
    split
    · exact congrArg (c :: ·) ih
    · rfl

theorem leadingDigits_length (cs : List Char) :
    (leadingDigits cs).1.length + (leadingDigits cs).2.length = cs.length := by
  rw [← List.length_append, leadingDigits_append]

def digitsValue (digits : List Char) : Nat := Nat.ofDigitChars 10 digits 0

/-- A sign in front, if there is one; true stands for minus. -/
def leadingSign : List Char → Bool × List Char
  | '-' :: cs => (true, cs)
  | '+' :: cs => (false, cs)
  | cs => (false, cs)

theorem leadingSign_length (cs : List Char) : (leadingSign cs).2.length ≤ cs.length := by
  unfold leadingSign
  split <;> simp

/-- A text is a sign, which may be missing, and what comes behind it. -/
theorem exists_sign (cs : List Char) : ∃ sign, cs = sign ++ (leadingSign cs).2 ∧
    (sign = [] ∨ sign = ['+'] ∨ sign = ['-']) ∧
      (leadingSign cs).1 = decide (sign = ['-']) := by
  fun_cases leadingSign cs with
  | case1 => exact ⟨['-'], rfl, .inr (.inr rfl), rfl⟩
  | case2 => exact ⟨['+'], rfl, .inr (.inl rfl), rfl⟩
  | case3 => exact ⟨[], rfl, .inl rfl, rfl⟩

/-- The integer written by a sign and at least one digit, and nothing else. -/
def integerOfText? (text : String) : Option Int :=
  let (negative, body) := leadingSign text.toList
  match leadingDigits body with
  | ([], _) | (_, _ :: _) => none
  | (digits, []) => some (if negative then -(digitsValue digits : Int) else digitsValue digits)

structure Numeral where
  negative : Bool
  whole : List Char
  fraction : List Char
  exponent : Int
  /-- Whether the numeral has neither a point nor an exponent. -/
  isWhole : Bool
deriving DecidableEq, Repr

namespace Numeral

/-- The number without its sign. -/
def decimal (n : Numeral) : Decimal :=
  ⟨digitsValue (n.whole ++ n.fraction), n.exponent - n.fraction.length⟩

/-- An exponent in front: the letter, an optional sign and at least one digit. `none` is a letter
with no digits; without a letter there is no exponent. -/
def leadingExponent : List Char → Option (Option Int × List Char)
  | c :: cs =>
    if c = 'e' ∨ c = 'E' then
      let (negative, body) := leadingSign cs
      match leadingDigits body with
      | ([], _) => none
      | (digits, rest) =>
        some (some (if negative then -(digitsValue digits : Int) else digitsValue digits), rest)
    else some (none, c :: cs)
  | [] => some (none, [])

/-- A point in front, and the digits after it. -/
def leadingFraction : List Char → Option (List Char) × List Char
  | '.' :: cs =>
    let (digits, rest) := leadingDigits cs
    (some digits, rest)
  | cs => (none, cs)

theorem leadingFraction_length (cs : List Char) :
    (leadingFraction cs).2.length ≤ cs.length := by
  unfold leadingFraction
  split
  · rename_i cs
    have := leadingDigits_length cs
    simp only [List.length_cons]
    omega
  · exact Nat.le_refl _

theorem leadingExponent_length {cs rest : List Char} {exponent : Option Int}
    (h : leadingExponent cs = some (exponent, rest)) : rest.length ≤ cs.length := by
  unfold leadingExponent at h
  split at h
  · rename_i c cs
    split at h
    · have hs := leadingSign_length cs
      have hd := leadingDigits_length (leadingSign cs).2
      simp only at h
      split at h
      · cases h
      · rename_i digits rest' _ heq
        simp only [Option.some.injEq, Prod.mk.injEq] at h
        rw [heq] at hd
        obtain ⟨-, rfl⟩ := h
        simp only [List.length_cons] at hd ⊢
        omega
    · simp only [Option.some.injEq, Prod.mk.injEq] at h
      exact Nat.le_of_eq (congrArg List.length h.2.symm)
  · simp only [Option.some.injEq, Prod.mk.injEq] at h
    exact Nat.le_of_eq (congrArg List.length h.2.symm)

def ofParts (negative : Bool) (whole : List Char) (fraction : Option (List Char))
    (exponent : Option Int) : Numeral :=
  ⟨negative, whole, fraction.getD [], exponent.getD 0, fraction.isNone && exponent.isNone⟩

end Numeral

inductive FloatText where
  | number (n : Numeral)
  /-- An infinity, or not a number. -/
  | notFinite
deriving DecidableEq, Repr

/-- Reads the text of a float: an optional sign, then `inf`, `infinity` or `nan` in any case, or
digits with at most one point before, between or after them, and an optional exponent. -/
def FloatText.ofText? (text : String) : Option FloatText :=
  let (negative, body) := leadingSign text.toList
  if ["inf", "infinity", "nan"].contains (String.ofList (body.map Char.toLower)) then
    some .notFinite
  else
    let (whole, afterWhole) := leadingDigits body
    let (fraction, afterFraction) := Numeral.leadingFraction afterWhole
    if whole = [] ∧ fraction.getD [] = [] then none
    else
      match Numeral.leadingExponent afterFraction with
      | some (exponent, []) => some (.number (.ofParts negative whole fraction exponent))
      | _ => none

end QueryDoc
