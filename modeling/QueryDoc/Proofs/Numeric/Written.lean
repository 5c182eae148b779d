import QueryDoc.Numeric.Layout
import QueryDoc.Proofs.Numeric.Parts
import QueryDoc.Proofs.Numeric.Rounding

/-!
What layouts write. Whichever form a layout chooses for a decimal, the text is that of a numeral
with a fraction or an exponent, and the numeral is worth as much as the decimal. Zeros at the end of
the digits come and go on the way, so the two are compared by the numbers that are nearest to them.
-/

namespace QueryDoc

open Grammar

section Digits

variable {digits : List Char} {d : Decimal} {k n : Nat}

theorem digitsValue_append_zeros (digits : List Char) (k : Nat) :
    digitsValue (digits ++ List.replicate k '0') = digitsValue digits * 10 ^ k := by
  rw [digitsValue, Nat.ofDigitChars_append, Nat.ofDigitChars_replicate_zero, Nat.mul_comm]
  rfl

theorem digitsValue_zeros_append (digits : List Char) (k : Nat) :
    digitsValue (List.replicate k '0' ++ digits) = digitsValue digits := by
  rw [digitsValue, Nat.ofDigitChars_append, Nat.ofDigitChars_replicate_zero, Nat.mul_zero]
  rfl

theorem exists_trimZeros (digits : List Char) :
    ∃ k, digits = trimZeros digits ++ List.replicate k '0' := by
  have zeros : digits.reverse.takeWhile (· = '0') =
      List.replicate (digits.reverse.takeWhile (· = '0')).length '0' := by
    refine List.eq_replicate_iff.mpr ⟨rfl, fun c hc => ?_⟩
    exact of_decide_eq_true (List.all_eq_true.mp List.all_takeWhile c hc)
  have parts := List.takeWhile_append_dropWhile (p := (· = '0')) (l := digits.reverse)
  rw [zeros] at parts
  refine ⟨(digits.reverse.takeWhile (· = '0')).length, ?_⟩
  rw [← List.reverse_inj, trimZeros, List.reverse_append, List.reverse_reverse,
    List.reverse_replicate]
  exact parts.symm

/-- The digits of a decimal without the zeros at the end. -/
def Decimal.significant (d : Decimal) : List Char := trimZeros (Nat.toDigits 10 d.digits)

theorem Decimal.exists_significant (d : Decimal) :
    ∃ k, Nat.toDigits 10 d.digits = d.significant ++ List.replicate k '0' ∧
      d = ⟨digitsValue d.significant * 10 ^ k, d.exponent⟩ ∧
      d.firstExponent + 1 - d.significant.length = d.exponent + k := by
  obtain ⟨k, split⟩ := exists_trimZeros (Nat.toDigits 10 d.digits)
  refine ⟨k, split, ?_, ?_⟩
  · have value := NumeralParts.digitsValue_toDigits d.digits
    rw [split, digitsValue_append_zeros] at value
    rw [significant, value]
  · have length := congrArg List.length split
    rw [List.length_append, List.length_replicate] at length
    rw [firstExponent, Decimal.length, length, significant]
    omega

theorem Decimal.isDigits_significant (nonzero : d.digits ≠ 0) :
    IsDigits d.significant ∧ d.significant.head? ≠ some '0' := by
  obtain ⟨k, split, value, -⟩ := d.exists_significant
  obtain ⟨-, all⟩ := NumeralParts.isDigits_toDigits d.digits
  have first := head?_toDigits (Nat.pos_of_ne_zero nonzero)
  rw [split, List.all_append, Bool.and_eq_true] at all
  cases e : d.significant with
  | nil =>
      rw [e, digitsValue, Nat.ofDigitChars_nil, Nat.zero_mul] at value
      exact absurd (congrArg Decimal.digits value) nonzero
  | cons c cs =>
      rw [e] at split all
      rw [split, List.cons_append, List.head?_cons] at first
      exact ⟨⟨List.cons_ne_nil c cs, all.1⟩, first⟩

/-- The significant digits, with the place of the last one, are worth as much as the decimal. -/
theorem FloatFormat.nearest_significant {f : FloatFormat} (bits : 0 < f.exponentBits) (tie : Tie)
    (d : Decimal) :
    f.nearest tie ⟨digitsValue d.significant, d.firstExponent + 1 - d.significant.length⟩ =
      f.nearest tie d := by
  obtain ⟨k, -, value, place⟩ := d.exists_significant
  rw [place, ← f.nearest_shift bits, ← value]

end Digits

namespace NumberLayout

section Forms

variable {negative : Bool} {digits : List Char} {first : Int} {layout : NumberLayout}

def positionalParts (negative : Bool) (digits : List Char) (first : Int) : NumeralParts :=
  if first < 0 then
    { negative, whole := ['0'],
      fraction := some (List.replicate (-first - 1).toNat '0' ++ digits) }
  else
    let places := first.toNat + 1
    { negative, whole := digits.take places ++ List.replicate (places - digits.length) '0',
      fraction := some (fraction (digits.drop places)) }

def scientificParts (layout : NumberLayout) (negative : Bool) (digits : List Char) (first : Int) :
    NumeralParts :=
  let tail := digits.drop 1
  { negative, whole := digits.take 1, exponent := some first,
    fraction := if tail = [] ∧ ¬ layout.alwaysFraction then none else some (fraction tail) }

theorem negative_positionalParts (negative : Bool) (digits : List Char) (first : Int) :
    (positionalParts negative digits first).negative = negative := by
  rw [positionalParts]
  split <;> rfl

theorem positional_eq (negative plusSign : Bool) (digits : List Char) (first : Int) :
    positional digits first = (positionalParts negative digits first).body plusSign := by
  rw [positional, positionalParts]
  split <;> simp [NumeralParts.body, NumeralParts.fractionText, NumeralParts.exponentText]

theorem scientific_eq (layout : NumberLayout) (negative : Bool) (digits : List Char)
    (first : Int) :
    layout.scientific digits first =
      (layout.scientificParts negative digits first).body layout.plusSign := by
  have fractions : (if digits.drop 1 = [] ∧ ¬ layout.alwaysFraction then []
        else '.' :: fraction (digits.drop 1)) =
      NumeralParts.fractionText (if digits.drop 1 = [] ∧ ¬ layout.alwaysFraction then none
        else some (fraction (digits.drop 1))) := by
    split <;> rfl
  rw [scientific, scientificParts, fractions]
  simp only [NumeralParts.body, NumeralParts.exponentText, List.append_assoc, List.cons_append]

/-- The parts of a numeral that is no integer and is worth the digits, of which the first one has
the given power of ten. -/
structure Stands (p : NumeralParts) (digits : List Char) (first : Int) : Prop where
  wellFormed : p.WellFormed
  isWhole : p.numeral.isWhole = false
  decimal : ∃ k : Nat, p.numeral.decimal =
    ⟨digitsValue digits * 10 ^ k, first + 1 - digits.length - k⟩

/-- Only zeros are added to the digits, in front of them or at the end. -/
theorem decimal_eq {p : NumeralParts} {j k : Nat}
    (same : p.whole ++ p.fraction.getD [] =
      List.replicate j '0' ++ (digits ++ List.replicate k '0'))
    (place : p.exponent.getD 0 - (p.fraction.getD []).length = first + 1 - digits.length - k) :
    p.numeral.decimal = ⟨digitsValue digits * 10 ^ k, first + 1 - digits.length - k⟩ := by
  rw [NumeralParts.numeral, Numeral.ofParts, Numeral.decimal]
  simp only [same, place, digitsValue_zeros_append, digitsValue_append_zeros]

theorem isDigits_fraction (all : digits.all Char.isDigit) : IsDigits (fraction digits) := by
  rw [fraction]
  split
  · decide
  · exact ⟨‹_›, all⟩

theorem all_drop (all : digits.all Char.isDigit) (n : Nat) :
    (digits.drop n).all Char.isDigit := by
  rw [List.all_eq_true] at all ⊢
  exact fun c hc => all c (List.mem_of_mem_drop hc)

/-- Some digits from the front, and zeros after them. -/
theorem isDigits_take_append (h : IsDigits digits) {n : Nat} (positive : 0 < n) (k : Nat) :
    IsDigits (digits.take n ++ List.replicate k '0') ∧
      (digits.take n ++ List.replicate k '0').head? = digits.head? := by
  obtain ⟨nonempty, all⟩ := h
  obtain ⟨n, rfl⟩ := Nat.exists_eq_add_one_of_ne_zero (Nat.ne_of_gt positive)
  cases digits with
  | nil => exact absurd rfl nonempty
  | cons c cs =>
      refine ⟨⟨List.cons_ne_nil _ _, ?_⟩, rfl⟩
      rw [List.all_eq_true] at all ⊢
      intro d hd
      rcases List.mem_append.mp hd with hd | hd
      · exact all d (List.mem_of_mem_take hd)
      · rw [List.eq_of_mem_replicate hd]
        rfl

/-- Digits taken from the front, filled up with zeros, and a fraction with the other digits are the
digits with zeros at the end. -/
theorem take_append_fraction (digits : List Char) (n : Nat) :
    ∃ k : Nat, digits.take n ++ List.replicate (n - digits.length) '0' ++
        fraction (digits.drop n) = digits ++ List.replicate k '0' ∧
      (fraction (digits.drop n)).length + n = digits.length + k := by
  by_cases long : n < digits.length
  · have inside : digits.drop n ≠ [] := by simpa using long
    have filled : n - digits.length = 0 := Nat.sub_eq_zero_of_le (Nat.le_of_lt long)
    refine ⟨0, ?_, ?_⟩
    · simp [fraction, inside, filled]
    · rw [fraction, if_neg inside, List.length_drop]
      omega
  · have outside : digits.drop n = [] := by simpa using long
    have all : digits.take n = digits := List.take_of_length_le (Nat.le_of_not_lt long)
    refine ⟨n - digits.length + 1, ?_, ?_⟩
    · simp [fraction, outside, all, List.replicate_succ']
    · rw [fraction, if_pos outside, List.length_singleton]
      omega

theorem stands_positional (h : IsDigits digits) (zero : digits.head? ≠ some '0') :
    Stands (positionalParts negative digits first) digits first := by
  rw [positionalParts]
  split
  · rename_i small
    have whole : IsDigits ['0'] := by decide
    refine ⟨⟨whole, .inl rfl, ?_⟩, rfl, 0, decimal_eq (j := (-first - 1).toNat + 1) ?_ ?_⟩
    · rintro _ ⟨⟩
      refine ⟨List.append_ne_nil_of_right_ne_nil _ h.1, ?_⟩
      rw [List.all_append, h.2, List.all_replicate]
      simp
    · simp [List.replicate_succ]
    · simp only [Option.getD_none, Option.getD_some, List.length_append, List.length_replicate]
      omega
  · rename_i large
    obtain ⟨whole, head⟩ := isDigits_take_append h (Nat.succ_pos first.toNat)
      (first.toNat + 1 - digits.length)
    obtain ⟨k, same, length⟩ := take_append_fraction digits (first.toNat + 1)
    refine ⟨⟨whole, .inr (head ▸ zero), ?_⟩, rfl, k, decimal_eq (j := 0) same ?_⟩
    · rintro _ ⟨⟩
      exact isDigits_fraction (all_drop h.2 _)
    · simp only [Option.getD_none, Option.getD_some]
      omega

theorem stands_scientific (h : IsDigits digits) (zero : digits.head? ≠ some '0') :
    Stands (layout.scientificParts negative digits first) digits first := by
  obtain ⟨whole, head⟩ := isDigits_take_append h Nat.one_pos 0
  rw [List.replicate_zero, List.append_nil] at whole head
  have one : 1 ≤ digits.length := List.length_pos_iff.mpr h.1
  rw [scientificParts]
  by_cases bare : digits.drop 1 = [] ∧ ¬ layout.alwaysFraction
  · simp only [if_pos bare]
    have short : digits.length ≤ 1 := List.drop_eq_nil_iff.mp bare.1
    refine ⟨⟨whole, .inr (head ▸ zero), nofun⟩, rfl, 0, decimal_eq (j := 0) ?_ ?_⟩
    · simp [List.take_of_length_le short]
    · simp only [Option.getD_none, Option.getD_some, List.length_nil]
      omega
  · simp only [if_neg bare]
    obtain ⟨k, same, length⟩ := take_append_fraction digits 1
    rw [Nat.sub_eq_zero_of_le one, List.replicate_zero, List.append_nil] at same
    refine ⟨⟨whole, .inr (head ▸ zero), ?_⟩, rfl, k, decimal_eq (j := 0) same ?_⟩
    · rintro _ ⟨⟩
      exact isDigits_fraction (all_drop h.2 _)
    · simp only [Option.getD_some]
      omega

end Forms

section Written

variable {f : FloatFormat} (layout : NumberLayout) (negative : Bool) (d : Decimal)

/-- The parts that are written. Zero has one form, with or without its sign. -/
def parts (layout : NumberLayout) (negative : Bool) (d : Decimal) : NumeralParts :=
  if d.digits = 0 then
    { negative := negative && layout.signedZero, whole := ['0'], fraction := some ['0'] }
  else if layout.least ≤ d.firstExponent ∧ d.firstExponent ≤ layout.greatest then
    positionalParts negative d.significant d.firstExponent
  else layout.scientificParts negative d.significant d.firstExponent

theorem negative_parts :
    (layout.parts negative d).negative =
      (negative && (layout.signedZero || decide (d.digits ≠ 0))) := by
  rw [parts]
  split
  · rename_i zero
    simp [zero]
  · rename_i nonzero
    split
    · simp [nonzero, negative_positionalParts]
    · simp [nonzero, scientificParts]

theorem unsigned_eq (nonzero : d.digits ≠ 0) :
    layout.unsigned d = (layout.parts negative d).body layout.plusSign := by
  rw [unsigned, parts, if_neg nonzero]
  split
  · exact positional_eq ..
  · exact scientific_eq ..

theorem write_eq :
    layout.write negative d =
      String.ofList ((layout.parts negative d).text layout.plusSign) := by
  by_cases zero : d.digits = 0
  · rw [write, parts, if_pos zero, if_pos zero]
    cases negative <;> cases layout.signedZero <;> rfl
  · rw [write, if_neg zero, NumeralParts.text, NumeralParts.signText, negative_parts,
      ← layout.unsigned_eq negative d zero, decide_eq_true zero, Bool.or_true, Bool.and_true]
    cases negative with
    | false => rfl
    | true => exact (@String.ofList_append ['-'] _).symm

theorem wellFormed_parts : (layout.parts negative d).WellFormed := by
  rw [parts]
  split
  · have digits : IsDigits ['0'] := by decide
    refine ⟨digits, .inl rfl, ?_⟩
    rintro _ ⟨⟩
    exact digits
  · rename_i nonzero
    obtain ⟨digits, first⟩ := d.isDigits_significant nonzero
    split
    · exact (stands_positional digits first).wellFormed
    · exact (stands_scientific digits first).wellFormed

theorem isWhole_parts : (layout.parts negative d).numeral.isWhole = false := by
  rw [parts]
  split
  · rfl
  · rename_i nonzero
    obtain ⟨digits, first⟩ := d.isDigits_significant nonzero
    split
    · exact (stands_positional digits first).isWhole
    · exact (stands_scientific digits first).isWhole

/-- What is written is as near to every number as the decimal is. -/
theorem nearest_parts (bits : 0 < f.exponentBits) (tie : Tie) :
    f.nearest tie (layout.parts negative d).numeral.decimal = f.nearest tie d := by
  rw [parts]
  split
  · rename_i zero
    rw [f.nearest_of_digits tie zero]
    exact f.nearest_of_digits tie (by decide : digitsValue ['0', '0'] = 0)
  · rename_i nonzero
    obtain ⟨digits, first⟩ := d.isDigits_significant nonzero
    have stands : ∀ p, Stands p d.significant d.firstExponent →
        f.nearest tie p.numeral.decimal = f.nearest tie d := by
      intro p h
      obtain ⟨k, decimal⟩ := h.decimal
      rw [decimal, f.nearest_shift bits, Int.sub_add_cancel, f.nearest_significant bits]
    split
    · exact stands _ (stands_positional digits first)
    · exact stands _ (stands_scientific digits first)

end Written

end NumberLayout

end QueryDoc
