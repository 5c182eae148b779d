import Mathlib.Data.List.Induction
import Mathlib.Tactic.Ring
import QueryDoc.Numeric.Word
import QueryDoc.Proofs.Numeric.Parts

/-!
Words and the integers that they stand for. A word's text is the canonical text of its integer.
Arithmetic on words gives the word of the exact result wherever there is one, so that a reader that
goes from digit to digit never loses track of the number, however many digits there are: it reads
exactly the texts of the integers that it has words for.
-/

namespace QueryDoc

open Grammar

section Texts

/-- The integer of a sign and of digits. -/
def signedValue (negative : Bool) (digits : List Char) : Int :=
  if negative then -(digitsValue digits : Int) else digitsValue digits

/-- The text is a sign, which may be missing, and then digits, and the integer is the one that
they stand for. -/
def Denotes (text : String) (n : Int) : Prop :=
  ∃ sign digits, text.toList = sign ++ digits ∧ (sign = [] ∨ sign = ['+'] ∨ sign = ['-']) ∧
    IsDigits digits ∧ n = signedValue (sign = ['-']) digits

variable {digits cs : List Char} {text : String} {n : Int}

theorem leadingSign_signed {sign : List Char} (h : sign = [] ∨ sign = ['+'] ∨ sign = ['-'])
    (isDigits : IsDigits digits) :
    leadingSign (sign ++ digits) = (decide (sign = ['-']), digits) := by
  rcases h with rfl | rfl | rfl
  · simpa using NumeralParts.leadingSign_digits isDigits []
  · rfl
  · rfl

/-- A text denotes an integer if digits follow its sign, and nothing else. -/
theorem denotes_iff :
    Denotes text n ↔ IsDigits (leadingSign text.toList).2 ∧
      n = signedValue (leadingSign text.toList).1 (leadingSign text.toList).2 := by
  constructor
  · rintro ⟨sign, digits, split, signs, isDigits, value⟩
    rw [split, leadingSign_signed signs isDigits]
    exact ⟨isDigits, value⟩
  · rintro ⟨isDigits, value⟩
    obtain ⟨sign, split, signs, negative⟩ := exists_sign text.toList
    exact ⟨sign, _, split, signs, isDigits, by rw [value, negative]⟩

theorem Denotes.unique {m : Int} (h : Denotes text n) (h' : Denotes text m) : n = m :=
  (denotes_iff.mp h).2.trans (denotes_iff.mp h').2.symm

theorem leadingDigits_eq_all_iff :
    leadingDigits cs = (digits, []) ↔ digits = cs ∧ cs.all Char.isDigit := by
  constructor
  · intro read
    have parts := leadingDigits_append cs
    rw [read, List.append_nil] at parts
    refine ⟨parts, ?_⟩
    subst parts
    induction digits with
    | nil => rfl
    | cons c digits ih =>
        rw [leadingDigits] at read
        split at read
        next digit => rw [List.all_cons, digit, ih (by simpa [Prod.ext_iff] using read)]; rfl
        next => cases read
  · rintro ⟨rfl, all⟩
    have read := leadingDigits_eq all (isDigit_eq_false_of_head NumeralParts.separates_nil)
    rwa [List.append_nil] at read

theorem integerOfText?_eq_some_iff : integerOfText? text = some n ↔ Denotes text n := by
  rw [denotes_iff, integerOfText?]
  generalize leadingSign text.toList = signed
  obtain ⟨negative, body⟩ := signed
  simp only
  constructor
  · intro read
    split at read
    next => cases read
    next => cases read
    next digits nonempty all =>
      obtain ⟨rfl, isDigits⟩ := leadingDigits_eq_all_iff.mp all
      exact ⟨⟨fun none => nonempty none, isDigits⟩, (Option.some.inj read).symm⟩
  · rintro ⟨⟨nonempty, all⟩, value⟩
    rw [leadingDigits_eq_all_iff.mpr ⟨rfl, all⟩, value]
    cases body with
    | nil => exact absurd rfl nonempty
    | cons c cs => rfl

end Texts

namespace IntegerType

variable {t : IntegerType} {v w x : t.Word} {n : Int}

section Values

theorem value_of_signed (h : t.signed = true) (w : t.Word) : t.value w = w.toInt := if_pos h

theorem value_of_unsigned (h : t.signed = false) (w : t.Word) : t.value w = w.toNat :=
  if_neg (by rw [h]; exact Bool.false_ne_true)

theorem holds_of_signed (h : t.signed = true) :
    t.Holds n ↔ -2 ^ (t.bits - 1) ≤ n ∧ n < 2 ^ (t.bits - 1) := by
  rw [Holds, least, greatest, if_pos h, if_pos h]
  push_cast [Nat.pow_eq]
  omega

theorem holds_of_unsigned (h : t.signed = false) : t.Holds n ↔ 0 ≤ n ∧ n < 2 ^ t.bits := by
  simp only [Holds, least, greatest, h, Bool.false_eq_true, if_false]
  push_cast [Nat.pow_eq]
  omega

/-- The word of an integer stands for this integer, if the type holds it. -/
theorem value_word (held : t.Holds n) : t.value (t.word n) = n := by
  have byte := t.byte_le
  cases h : t.signed with
  | true =>
      obtain ⟨least, greatest⟩ := (holds_of_signed h).mp held
      rw [value_of_signed h]
      exact BitVec.toInt_ofInt_eq_self (by omega) least greatest
  | false =>
      obtain ⟨least, greatest⟩ := (holds_of_unsigned h).mp held
      rw [value_of_unsigned h, word, BitVec.toNat_ofInt]
      have same : n % ((2 ^ t.bits : Nat) : Int) = n :=
        Int.emod_eq_of_lt least (by exact_mod_cast greatest)
      rw [same, Int.toNat_of_nonneg least]

theorem value_inj : t.value v = t.value w ↔ v = w := by
  cases h : t.signed with
  | true => rw [value_of_signed h, value_of_signed h, BitVec.toInt_inj]
  | false => rw [value_of_unsigned h, value_of_unsigned h, Int.natCast_inj, BitVec.toNat_inj]

/-- The integers that a type holds are those of its words. -/
theorem holds_iff : t.Holds n ↔ ∃ w, t.value w = n :=
  ⟨fun held => ⟨t.word n, value_word held⟩, fun ⟨w, e⟩ => e ▸ t.holds_value w⟩

/-- Nearer to zero than an integer of a type there are only integers of that type. -/
theorem Holds.of_between {m : Int} (held : t.Holds n) (between : 0 ≤ m ∧ m ≤ n ∨ n ≤ m ∧ m ≤ 0) :
    t.Holds m := by
  cases h : t.signed with
  | true =>
      have := Int.pow_pos (n := 2) (m := t.bits - 1) (by decide)
      rw [holds_of_signed h] at held ⊢
      omega
  | false =>
      have := Int.pow_pos (n := 2) (m := t.bits) (by decide)
      rw [holds_of_unsigned h] at held ⊢
      omega

/-- Every type holds the integers of one digit, and ten. -/
theorem holds_small {k : Nat} (small : k < 128) : t.Holds k := by
  have byte := t.byte_le
  cases h : t.signed with
  | true =>
      have : (2 : Int) ^ 7 ≤ 2 ^ (t.bits - 1) := by
        exact_mod_cast Nat.pow_le_pow_right (n := 2) (by decide) (by omega)
      rw [holds_of_signed h]
      omega
  | false =>
      have : (2 : Int) ^ 8 ≤ 2 ^ t.bits := by
        exact_mod_cast Nat.pow_le_pow_right (n := 2) (by decide) byte
      rw [holds_of_unsigned h]
      omega

theorem value_ten : t.value (t.word 10) = 10 := value_word (holds_small (k := 10) (by decide))

end Values

section Writing

theorem isNegative_eq (w : t.Word) : t.isNegative w = decide (t.value w < 0) := by
  cases h : t.signed with
  | true => rw [isNegative, h, Bool.true_and, value_of_signed h, BitVec.msb_eq_toInt]
  | false =>
      rw [isNegative, h, Bool.false_and, value_of_unsigned h]
      exact (decide_eq_false (by omega)).symm

/-- The magnitude of a word is the amount of its integer, also for the least integer. -/
theorem toNat_magnitude (w : t.Word) : (t.magnitude w).toNat = (t.value w).natAbs := by
  rw [magnitude]
  cases negative : t.isNegative w with
  | true =>
      rw [isNegative, Bool.and_eq_true] at negative
      rw [value_of_signed negative.1, if_pos rfl,
        BitVec.toInt_eq_neg_toNat_neg_of_msb_true negative.2, Int.natAbs_neg, Int.natAbs_natCast]
  | false =>
      rw [if_neg Bool.false_ne_true]
      cases h : t.signed with
      | true =>
          rw [isNegative, h, Bool.true_and] at negative
          rw [value_of_signed h, BitVec.toInt_eq_toNat_of_msb negative, Int.natAbs_natCast]
      | false => rw [value_of_unsigned h, Int.natAbs_natCast]

theorem text_eq (w : t.Word) : t.text w = integerText (t.value w) := by
  rw [text, integerText, toNat_magnitude, isNegative_eq]
  simp only [decide_eq_true_eq]

example : text { signed := true, bits := 128 } (BitVec.intMin 128) =
    "-170141183460469231731687303715884105728" := by
  decide +kernel

end Writing

section Arithmetic

variable {signedOverflow unsignedOverflow : Bool} {result : t.Word}

/-- An operation whose overflow is told correctly gives the word of the exact result, or none if
there is no such word. -/
theorem checked_eq_some_iff {overflow : Bool} (told : ¬ overflow = true ↔ t.Holds n)
    (same : ¬ overflow = true → t.value result = n) :
    t.checked overflow result = some x ↔ t.value x = n := by
  rw [checked]
  split
  next exceeds =>
    have missing : ¬ t.Holds n := fun held => told.mpr held exceeds
    exact iff_of_false nofun fun e => missing (e ▸ t.holds_value x)
  next fits => rw [Option.some.injEq, ← same fits, value_inj, eq_comm]

theorem checked_signed (h : t.signed = true)
    (told : ¬ signedOverflow = true ↔ -2 ^ (t.bits - 1) ≤ n ∧ n < 2 ^ (t.bits - 1))
    (same : ¬ signedOverflow = true → result.toInt = n) :
    t.checked (if t.signed then signedOverflow else unsignedOverflow) result = some x ↔
      t.value x = n := by
  rw [if_pos h]
  exact checked_eq_some_iff (told.trans (holds_of_signed h).symm)
    fun fits => (value_of_signed h _).trans (same fits)

theorem checked_unsigned (h : t.signed = false)
    (told : ¬ unsignedOverflow = true ↔ 0 ≤ n ∧ n < 2 ^ t.bits)
    (same : ¬ unsignedOverflow = true → (result.toNat : Int) = n) :
    t.checked (if t.signed then signedOverflow else unsignedOverflow) result = some x ↔
      t.value x = n := by
  rw [if_neg (by rw [h]; exact Bool.false_ne_true)]
  exact checked_eq_some_iff (told.trans (holds_of_unsigned h).symm)
    fun fits => (value_of_unsigned h _).trans (same fits)

theorem add?_eq_some_iff : t.add? v w = some x ↔ t.value x = t.value v + t.value w := by
  rw [add?]
  rcases Bool.eq_false_or_eq_true t.signed with h | h
  · rw [value_of_signed h v, value_of_signed h w]
    refine checked_signed h ?_ BitVec.toInt_add_of_not_saddOverflow
    simp only [BitVec.saddOverflow, Bool.or_eq_true, decide_eq_true_eq]
    omega
  · rw [value_of_unsigned h v, value_of_unsigned h w]
    refine checked_unsigned h ?_ fun fits => ?_
    · simp only [BitVec.uaddOverflow, decide_eq_true_eq]
      norm_cast
      omega
    · exact_mod_cast BitVec.toNat_add_of_not_uaddOverflow fits

theorem sub?_eq_some_iff : t.sub? v w = some x ↔ t.value x = t.value v - t.value w := by
  rw [sub?]
  rcases Bool.eq_false_or_eq_true t.signed with h | h
  · rw [value_of_signed h v, value_of_signed h w]
    refine checked_signed h ?_ BitVec.toInt_sub_of_not_ssubOverflow
    simp only [BitVec.ssubOverflow, Bool.or_eq_true, decide_eq_true_eq]
    omega
  · rw [value_of_unsigned h v, value_of_unsigned h w]
    have below : (v.toNat : Int) < 2 ^ t.bits := by exact_mod_cast v.isLt
    refine checked_unsigned h ?_ fun fits => ?_
    · simp only [BitVec.usubOverflow, decide_eq_true_eq]
      omega
    · have order : w.toNat ≤ v.toNat := by simpa [BitVec.usubOverflow] using fits
      rw [BitVec.toNat_sub_of_not_usubOverflow fits, Int.ofNat_sub order]

theorem mul?_eq_some_iff : t.mul? v w = some x ↔ t.value x = t.value v * t.value w := by
  rw [mul?]
  rcases Bool.eq_false_or_eq_true t.signed with h | h
  · rw [value_of_signed h v, value_of_signed h w]
    refine checked_signed h ?_ BitVec.toInt_mul_of_not_smulOverflow
    simp only [BitVec.smulOverflow, Bool.or_eq_true, decide_eq_true_eq]
    omega
  · rw [value_of_unsigned h v, value_of_unsigned h w]
    refine checked_unsigned h ?_ fun fits => ?_
    · simp only [BitVec.umulOverflow, decide_eq_true_eq]
      norm_cast
      omega
    · exact_mod_cast BitVec.toNat_mul_of_not_umulOverflow fits

end Arithmetic

section Reading

variable {negative : Bool} {digits : List Char} {c : Char} {text : String}

theorem digitsValue_append_digit (digits : List Char) (c : Char) :
    digitsValue (digits ++ [c]) = 10 * digitsValue digits + digitsValue [c] := by
  rw [digitsValue, Nat.ofDigitChars_append]
  simp [digitsValue, Nat.ofDigitChars]

theorem digitsValue_digit_lt (digit : c.isDigit) : digitsValue [c] < 10 := by
  rw [Char.isDigit, Bool.and_eq_true, decide_eq_true_eq, decide_eq_true_eq] at digit
  have : digitsValue [c] = c.toNat - '0'.toNat := by simp [digitsValue, Nat.ofDigitChars]
  have least : 48 ≤ c.toNat := digit.1
  have greatest : c.toNat ≤ 57 := digit.2
  rw [this]
  change c.toNat - 48 < 10
  omega

theorem signedValue_append_digit (negative : Bool) (digits : List Char) (c : Char) :
    signedValue negative (digits ++ [c]) =
      signedValue negative digits * 10 + signedValue negative [c] := by
  have digit := digitsValue_append_digit digits c
  cases negative <;> simp only [signedValue, if_true, Bool.false_eq_true, if_false] <;> omega

/-- What is read grows away from zero. -/
theorem signedValue_between (negative : Bool) (digits : List Char) (c : Char) :
    0 ≤ signedValue negative digits ∧
        signedValue negative digits ≤ signedValue negative digits * 10 ∧
        signedValue negative digits * 10 ≤ signedValue negative (digits ++ [c]) ∨
      signedValue negative (digits ++ [c]) ≤ signedValue negative digits * 10 ∧
        signedValue negative digits * 10 ≤ signedValue negative digits ∧
        signedValue negative digits ≤ 0 := by
  rw [signedValue_append_digit]
  cases negative <;> simp only [signedValue, if_true, Bool.false_eq_true, if_false] <;> omega

/-- One more digit gives the word of the number with this digit, if there is such a word. The
product on the way is nearer to zero, so that it has a word as well. -/
theorem next?_eq_some_iff (reached : t.value w = signedValue negative digits) :
    t.next? negative w c = some x ↔
      c.isDigit ∧ t.value x = signedValue negative (digits ++ [c]) := by
  rw [next?]
  split
  next digit =>
    have one : t.value (t.word (digitsValue [c])) = digitsValue [c] :=
      value_word (holds_small (Nat.lt_trans (digitsValue_digit_lt digit) (by decide)))
    have last (shifted : t.Word) (product : t.value shifted = signedValue negative digits * 10) :
        (if negative then t.sub? shifted (t.word (digitsValue [c]))
          else t.add? shifted (t.word (digitsValue [c]))) = some x ↔
            t.value x = signedValue negative (digits ++ [c]) := by
      rw [signedValue_append_digit, ← product]
      cases negative with
      | true => rw [if_pos rfl, sub?_eq_some_iff, one]; rfl
      | false => rw [if_neg Bool.false_ne_true, add?_eq_some_iff, one]; rfl
    simp only [Option.bind_eq_bind, Option.bind_eq_some_iff, digit, true_and, mul?_eq_some_iff,
      reached, value_ten]
    constructor
    · rintro ⟨shifted, product, sum⟩
      exact (last shifted product).mp sum
    · intro sum
      have held : t.Holds (signedValue negative digits * 10) :=
        Holds.of_between (sum ▸ t.holds_value x) (by
          have := signedValue_between negative digits c
          omega)
      exact ⟨t.word _, value_word held, (last _ (value_word held)).mpr sum⟩
  next other => simp [other]

/-- A reader that has taken some digits has the word of exactly their number, however many digits
these are; it stops where there is no such word. -/
theorem foldlM_next?_eq_some_iff :
    digits.foldlM (t.next? negative) (t.word 0) = some w ↔
      digits.all Char.isDigit ∧ t.value w = signedValue negative digits := by
  induction digits using List.reverseRecOn generalizing w with
  | nil =>
      have zero : t.value (t.word 0) = 0 := value_word (holds_small (k := 0) (by decide))
      have none : signedValue negative [] = 0 := by cases negative <;> rfl
      have same : t.value w = 0 ↔ w = t.word 0 := by rw [← value_inj, zero]
      rw [List.foldlM_nil, none, same]
      simp [eq_comm]
  | append_singleton digits c ih =>
      rw [List.foldlM_append, List.all_append, Bool.and_eq_true]
      simp only [List.foldlM_cons, List.foldlM_nil, bind_pure, Option.bind_eq_bind,
        Option.bind_eq_some_iff]
      constructor
      · rintro ⟨v, before, step⟩
        obtain ⟨all, reached⟩ := ih.mp before
        obtain ⟨digit, sum⟩ := (next?_eq_some_iff reached).mp step
        exact ⟨⟨all, by simp [digit]⟩, sum⟩
      · rintro ⟨⟨all, digit⟩, sum⟩
        have held : t.Holds (signedValue negative digits) :=
          Holds.of_between (sum ▸ t.holds_value w) (by
            have := signedValue_between negative digits c
            omega)
        have reached := value_word held
        exact ⟨t.word _, ih.mpr ⟨all, reached⟩,
          (next?_eq_some_iff reached).mpr ⟨by simpa using digit, sum⟩⟩

theorem leadingSign_fst_iff (cs : List Char) :
    (QueryDoc.leadingSign cs).1 = true ↔ cs.head? = some '-' := by
  constructor
  · intro negative
    obtain ⟨sign, split, -, isMinus⟩ := exists_sign cs
    rw [negative] at isMinus
    rw [split, of_decide_eq_true isMinus.symm]
    rfl
  · intro minus
    obtain ⟨body, rfl⟩ := List.head?_eq_some_iff.mp minus
    rfl

/-- Only a minus sign may be left where it is. -/
theorem leadingSign_eq {cs : List Char} (allowed : t.signed = false → cs.head? ≠ some '-') :
    t.leadingSign cs = QueryDoc.leadingSign cs := by
  have minus := leadingSign_fst_iff cs
  rw [leadingSign]
  generalize QueryDoc.leadingSign cs = signed at minus ⊢
  obtain ⟨negative, body⟩ := signed
  cases negative with
  | false => rfl
  | true =>
      cases h : t.signed with
      | true => rfl
      | false => exact absurd (minus.mp rfl) (allowed h)

/-- The reader takes exactly the texts of the integers that it has words for. Without negative
integers, it takes no minus sign, and so not the text of minus zero. -/
theorem read?_eq_some_iff :
    t.read? text = some w ↔
      Denotes text (t.value w) ∧ (t.signed = false → text.toList.head? ≠ some '-') := by
  rw [denotes_iff, read?]
  by_cases allowed : t.signed = false → text.toList.head? ≠ some '-'
  · rw [leadingSign_eq allowed, and_iff_left allowed]
    generalize QueryDoc.leadingSign text.toList = signed
    obtain ⟨negative, body⟩ := signed
    cases body with
    | nil => exact iff_of_false nofun fun h => h.1.1 rfl
    | cons c cs =>
        simp only [foldlM_next?_eq_some_iff, IsDigits, ne_eq, reduceCtorEq, not_false_eq_true,
          true_and]
  · rw [Classical.not_imp, not_not] at allowed
    obtain ⟨unsigned, minus⟩ := allowed
    refine iff_of_false (fun read => ?_) fun h => h.2 unsigned minus
    obtain ⟨body, split⟩ := List.head?_eq_some_iff.mp minus
    have kept : t.leadingSign ('-' :: body) = (false, '-' :: body) := by
      simp [leadingSign, QueryDoc.leadingSign, unsigned]
    rw [split, kept] at read
    cases (foldlM_next?_eq_some_iff.mp read).1

theorem read?_of_denotes (denotes : Denotes text n) (held : t.Holds n)
    (sign : t.signed = false → text.toList.head? ≠ some '-') : t.read? text = some (t.word n) :=
  read?_eq_some_iff.mpr ⟨(value_word held).symm ▸ denotes, sign⟩

/-- Whatever digits the reader has taken, its word is the one of their number, and the product that
the next digit is added to is exact as well. The reader has stopped if and only if there was
something else than a digit or the number is out of range. -/
def ReadsExactly (t : IntegerType) (negative : Bool) (digits : List Char) : Prop :=
  match digits.foldlM (t.next? negative) (t.word 0) with
  | some w => digits.all Char.isDigit ∧ t.value w = signedValue negative digits ∧
      ∀ p, t.mul? w (t.word 10) = some p → t.value p = 10 * signedValue negative digits
  | none => ¬ (digits.all Char.isDigit ∧ t.Holds (signedValue negative digits))

theorem readsExactly (t : IntegerType) (negative : Bool) (digits : List Char) :
    t.ReadsExactly negative digits := by
  rw [ReadsExactly]
  cases read : digits.foldlM (t.next? negative) (t.word 0) with
  | some w =>
      obtain ⟨all, reached⟩ := foldlM_next?_eq_some_iff.mp read
      refine ⟨all, reached, fun p product => ?_⟩
      rw [mul?_eq_some_iff.mp product, reached, value_ten, Int.mul_comm]
  | none =>
      rintro ⟨all, held⟩
      rw [foldlM_next?_eq_some_iff.mpr ⟨all, value_word held⟩] at read
      cases read

end Reading

end IntegerType

end QueryDoc
