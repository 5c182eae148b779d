import QueryDoc.Proofs.Grammar.Number

/-!
Numerals by their parts. The text of a numeral is a sign, digits, a fraction and an exponent, of
which the last two may be missing. Both readers of numerals, the one for whole texts and the one for
numerals in front of other text, take such a text apart into the parts that it was made of.
-/

namespace QueryDoc

structure NumeralParts where
  negative : Bool
  whole : List Char
  fraction : Option (List Char) := none
  exponent : Option Int := none
deriving DecidableEq

namespace NumeralParts

open Grammar

def numeral (p : NumeralParts) : Numeral := .ofParts p.negative p.whole p.fraction p.exponent

def fractionText : Option (List Char) → List Char
  | none => []
  | some digits => '.' :: digits

def exponentText (plusSign : Bool) : Option Int → List Char
  | none => []
  | some k =>
    'e' :: ((if k < 0 then ['-'] else if plusSign then ['+'] else []) ++ Nat.toDigits 10 k.natAbs)

def signText (negative : Bool) : List Char := if negative then ['-'] else []

/-- The text without the sign. -/
def body (plusSign : Bool) (p : NumeralParts) : List Char :=
  p.whole ++ (fractionText p.fraction ++ exponentText plusSign p.exponent)

def text (plusSign : Bool) (p : NumeralParts) : List Char := signText p.negative ++ p.body plusSign

/-- There are digits wherever digits have to be, and no zero before other digits. -/
structure WellFormed (p : NumeralParts) : Prop where
  whole : IsDigits p.whole
  first : p.whole = ['0'] ∨ p.whole.head? ≠ some '0'
  fraction : ∀ digits ∈ p.fraction, IsDigits digits

variable {p : NumeralParts} {plusSign : Bool} {digits rest : List Char}

theorem isDigits_toDigits (n : Nat) : IsDigits (Nat.toDigits 10 n) := by
  refine ⟨Nat.toDigits_ne_nil, ?_⟩
  rw [List.all_eq_true]
  exact fun c hc => Nat.isDigit_of_mem_toDigits (by decide) (by decide) hc

theorem digitsValue_toDigits (n : Nat) : digitsValue (Nat.toDigits 10 n) = n :=
  Nat.ofDigitChars_ten_toDigits

/-- An integer is made of its sign and its amount. -/
theorem signed_natAbs (k : Int) :
    (if decide (k < 0) = true then -(k.natAbs : Int) else k.natAbs) = k := by
  simp only [decide_eq_true_eq]
  omega

theorem separates_nil : Separates [] := fun _ h => nomatch h

theorem fractionText_form (h : ∀ digits ∈ p.fraction, IsDigits digits) :
    fractionText p.fraction = [] ∨ IsFraction (fractionText p.fraction) := by
  cases e : p.fraction with
  | none => exact .inl rfl
  | some digits => exact .inr ⟨digits, rfl, h digits e⟩

theorem exponentText_form (plusSign : Bool) (exponent : Option Int) :
    exponentText plusSign exponent = [] ∨ IsExponent (exponentText plusSign exponent) := by
  cases exponent with
  | none => exact .inl rfl
  | some k =>
      refine .inr ⟨'e', _, _, rfl, .inl rfl, ?_, isDigits_toDigits k.natAbs⟩
      split
      · exact .inr (.inr rfl)
      · split
        · exact .inr (.inl rfl)
        · exact .inl rfl

theorem leadingSign_digits (h : IsDigits digits) (rest : List Char) :
    leadingSign (digits ++ rest) = (false, digits ++ rest) := by
  rw [leadingSign]
  · exact digits_append_ne h rfl rest
  · exact digits_append_ne h rfl rest

theorem leadingMinus_digits (h : IsDigits digits) (rest : List Char) :
    Numeral.leadingMinus (digits ++ rest) = (false, digits ++ rest) := by
  rw [Numeral.leadingMinus]
  exact digits_append_ne h rfl rest

theorem leadingFraction_text (plusSign : Bool) (h : ∀ digits ∈ p.fraction, IsDigits digits)
    (sep : Separates rest) :
    Numeral.leadingFraction
        (fractionText p.fraction ++ (exponentText plusSign p.exponent ++ rest)) =
      (p.fraction, exponentText plusSign p.exponent ++ rest) := by
  obtain ⟨noDigit, noPoint⟩ := exponent_stops (exponentText_form plusSign p.exponent) sep
  cases e : p.fraction with
  | none => exact leadingFraction_none noPoint
  | some digits => exact leadingFraction_some (h digits e) noDigit

theorem leadingExponent_signed {signed : List Char} {negative : Bool} (h : IsDigits digits)
    (sep : Separates rest) (sign : leadingSign signed = (negative, digits ++ rest)) :
    Numeral.leadingExponent ('e' :: signed) =
      some (some (if negative then -(digitsValue digits : Int) else digitsValue digits), rest) := by
  rw [Numeral.leadingExponent, if_pos (.inl rfl), sign]
  simp only [leadingDigits_eq h.2 (isDigit_eq_false_of_head sep)]
  cases digits with
  | nil => exact absurd rfl h.1
  | cons d digits => rfl

theorem leadingExponent_text (plusSign : Bool) (exponent : Option Int) (sep : Separates rest) :
    Numeral.leadingExponent (exponentText plusSign exponent ++ rest) = some (exponent, rest) := by
  cases exponent with
  | none => exact leadingExponent_none fun c hc => (sep c hc).1
  | some k =>
      have digits := isDigits_toDigits k.natAbs
      have sign : leadingSign ((if k < 0 then ['-'] else if plusSign then ['+'] else []) ++
          (Nat.toDigits 10 k.natAbs ++ rest)) =
            (decide (k < 0), Nat.toDigits 10 k.natAbs ++ rest) := by
        by_cases negative : k < 0
        · rw [if_pos negative, decide_eq_true negative]
          rfl
        · rw [if_neg negative, decide_eq_false negative]
          cases plusSign with
          | false => exact leadingSign_digits digits rest
          | true => rfl
      rw [exponentText, List.cons_append, List.append_assoc, leadingExponent_signed digits sep sign,
        digitsValue_toDigits, signed_natAbs]

/-- A numeral in front of other text is taken as a whole, and as the numeral of its parts. -/
theorem leading?_text (h : p.WellFormed) (sep : Separates rest) :
    Numeral.leading? (p.text plusSign ++ rest) = some (p.numeral, rest) := by
  have signed : Numeral.leadingMinus (p.text plusSign ++ rest) =
      (p.negative, p.body plusSign ++ rest) := by
    rw [text, signText]
    cases p.negative with
    | true => rfl
    | false =>
        rw [if_neg Bool.false_ne_true, List.nil_append, body, List.append_assoc]
        exact leadingMinus_digits h.whole _
  have whole := leadingDigits_eq h.whole.2 (fraction_stops (fractionText_form h.fraction)
    (exponentText_form plusSign p.exponent) sep)
  have allowed : ¬ (p.whole = [] ∨ 1 < p.whole.length ∧ p.whole.head? = some '0' ∨
      p.fraction = some []) := by
    rintro (none | ⟨long, zero⟩ | none)
    · exact h.whole.1 none
    · rcases h.first with only | other
      · rw [only] at long
        exact absurd long (by decide)
      · exact other zero
    · exact (h.fraction [] none).1 rfl
  rw [Numeral.leading?, signed]
  simp only [body, List.append_assoc, whole, leadingFraction_text _ h.fraction sep,
    if_neg allowed, leadingExponent_text _ p.exponent sep]
  rfl

theorem toLower_of_isDigit {d : Char} (h : d.isDigit) : d.toLower = d := by
  rw [Char.isDigit, Bool.and_eq_true, decide_eq_true_eq, decide_eq_true_eq] at h
  exact dif_neg fun upper => by grind

/-- What starts with a digit is neither the name of an infinity nor of what is no number. -/
theorem not_named (h : IsDigits digits) (rest : List Char) :
    ["inf", "infinity", "nan"].contains
      (String.ofList ((digits ++ rest).map Char.toLower)) = false := by
  obtain ⟨nonempty, all⟩ := h
  cases digits with
  | nil => exact absurd rfl nonempty
  | cons d digits =>
      rw [List.all_cons, Bool.and_eq_true] at all
      rw [List.cons_append, List.map_cons, toLower_of_isDigit all.1, Bool.eq_false_iff]
      generalize (digits ++ rest).map Char.toLower = cs
      intro named
      have letters {text : String} (e : String.ofList (d :: cs) = text) : d :: cs = text.toList :=
        (String.toList_ofList ..).symm.trans (congrArg String.toList e)
      simp only [List.contains_iff_mem, List.mem_cons, List.not_mem_nil, or_false] at named
      rcases named with e | e | e <;> cases letters e <;> exact absurd all.1 (by decide)

/-- A text that is a numeral is read as the numeral of its parts. -/
theorem ofText?_text (h : p.WellFormed) :
    FloatText.ofText? (String.ofList (p.text plusSign)) = some (.number p.numeral) := by
  have signed : leadingSign (p.text plusSign) = (p.negative, p.body plusSign) := by
    rw [text, signText]
    cases p.negative with
    | true => rfl
    | false => exact leadingSign_digits h.whole _
  have whole := leadingDigits_eq h.whole.2 (fraction_stops (fractionText_form h.fraction)
    (exponentText_form plusSign p.exponent) separates_nil)
  have fraction := leadingFraction_text plusSign h.fraction separates_nil
  have exponent := leadingExponent_text plusSign p.exponent separates_nil
  rw [List.append_nil] at whole fraction exponent
  have digits : ¬ (p.whole = [] ∧ p.fraction.getD [] = []) := fun none => h.whole.1 none.1
  rw [FloatText.ofText?, String.toList_ofList, signed]
  simp only [body, not_named h.whole, whole, fraction, exponent, if_neg digits]
  rfl

end NumeralParts

end QueryDoc
