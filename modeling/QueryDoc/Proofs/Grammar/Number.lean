import QueryDoc.Proofs.Grammar.Token

/-!
Numerals in front of other text. The readers for the parts of a numeral take exactly the part in
front of them, if what follows cannot belong to it, so that a numeral is taken as a whole where what
follows may follow a number.
-/

namespace QueryDoc.Grammar

/-- What may follow a name, a number or a string. -/
def Separates (cs : List Char) : Prop :=
  ∀ c ∈ cs.head?, isNameContinue c = false ∧ c ≠ '.' ∧ c ≠ '"'

variable {cs rest digits fraction exponent : List Char}

theorem isDigit_eq_false_of_head (sep : Separates rest) : ∀ c ∈ rest.head?, c.isDigit = false := by
  intro c hc
  have h := (sep c hc).1
  rw [isNameContinue, Char.isAlphanum] at h
  simp only [Bool.or_eq_false_iff] at h
  exact h.1.2

theorem leadingDigits_eq (h : digits.all Char.isDigit)
    (stop : ∀ c ∈ rest.head?, c.isDigit = false) :
    leadingDigits (digits ++ rest) = (digits, rest) := by
  induction digits with
  | nil =>
      cases rest with
      | nil => rfl
      | cons c rest => simp [leadingDigits, stop c rfl]
  | cons c digits ih =>
      rw [List.all_cons, Bool.and_eq_true] at h
      rw [List.cons_append, leadingDigits, if_pos h.1, ih h.2]

theorem digits_append_ne (h : IsDigits digits) {c : Char} (hc : c.isDigit = false)
    (rest cs : List Char) : digits ++ rest ≠ c :: cs := by
  obtain ⟨nonempty, all⟩ := h
  cases digits with
  | nil => exact absurd rfl nonempty
  | cons d digits =>
      intro e
      cases e
      simp [hc] at all

theorem leadingFraction_none (h : cs.head? ≠ some '.') :
    Numeral.leadingFraction cs = (none, cs) := by
  rw [Numeral.leadingFraction]
  rintro cs rfl
  exact h rfl

theorem leadingFraction_some (h : IsDigits digits) (stop : ∀ c ∈ rest.head?, c.isDigit = false) :
    Numeral.leadingFraction ('.' :: (digits ++ rest)) = (some digits, rest) := by
  rw [Numeral.leadingFraction, leadingDigits_eq h.2 stop]

theorem leadingExponent_none (h : ∀ c ∈ cs.head?, isNameContinue c = false) :
    Numeral.leadingExponent cs = some (none, cs) := by
  cases cs with
  | nil => rfl
  | cons c cs =>
      rw [Numeral.leadingExponent, if_neg]
      rintro (rfl | rfl)
      · exact absurd (h 'e' rfl) (by decide)
      · exact absurd (h 'E' rfl) (by decide)

theorem leadingSign_append {sign : List Char} (h : sign = [] ∨ sign = ['+'] ∨ sign = ['-'])
    (hd : IsDigits digits) (rest : List Char) :
    (leadingSign (sign ++ (digits ++ rest))).2 = digits ++ rest := by
  rcases h with rfl | rfl | rfl
  · rw [List.nil_append, leadingSign]
    · exact fun cs e => digits_append_ne hd rfl rest cs e
    · exact fun cs e => digits_append_ne hd rfl rest cs e
  · rfl
  · rfl

theorem leadingExponent_some (h : IsExponent exponent)
    (stop : ∀ c ∈ rest.head?, c.isDigit = false) :
    ∃ k, Numeral.leadingExponent (exponent ++ rest) = some (some k, rest) := by
  obtain ⟨e, sign, digits, rfl, he, hs, hd⟩ := h
  rw [List.cons_append, List.append_assoc, Numeral.leadingExponent, if_pos he]
  have body := leadingSign_append hs hd rest
  generalize leadingSign (sign ++ (digits ++ rest)) = signed at body ⊢
  obtain ⟨negative, body'⟩ := signed
  subst body
  simp only [leadingDigits_eq hd.2 stop]
  cases digits with
  | nil => exact absurd rfl hd.1
  | cons d digits => exact ⟨_, rfl⟩

theorem leadingMinus_append {sign : List Char} (h : sign = [] ∨ sign = ['-'])
    (hd : IsDigits digits) (rest : List Char) :
    (Numeral.leadingMinus (sign ++ (digits ++ rest))).2 = digits ++ rest := by
  rcases h with rfl | rfl
  · rw [List.nil_append, Numeral.leadingMinus]
    exact fun cs e => digits_append_ne hd rfl rest cs e
  · rfl

/-- After a fraction comes neither a digit nor a point. -/
theorem exponent_stops (h : exponent = [] ∨ IsExponent exponent) (sep : Separates rest) :
    (∀ c ∈ (exponent ++ rest).head?, c.isDigit = false) ∧ (exponent ++ rest).head? ≠ some '.' := by
  rcases h with rfl | ⟨e, sign, digits, rfl, he, -, -⟩
  · exact ⟨isDigit_eq_false_of_head sep, fun h => (sep '.' h).2.1 rfl⟩
  · rcases he with rfl | rfl <;> simp

/-- After an integer part comes no digit. -/
theorem fraction_stops (h : fraction = [] ∨ IsFraction fraction)
    (he : exponent = [] ∨ IsExponent exponent) (sep : Separates rest) :
    ∀ c ∈ (fraction ++ (exponent ++ rest)).head?, c.isDigit = false := by
  rcases h with rfl | ⟨digits, rfl, -⟩
  · exact (exponent_stops he sep).1
  · simp

theorem leadingFraction_append (h : fraction = [] ∨ IsFraction fraction)
    (he : exponent = [] ∨ IsExponent exponent) (sep : Separates rest) :
    ∃ digits, Numeral.leadingFraction (fraction ++ (exponent ++ rest)) =
      (digits, exponent ++ rest) ∧ digits ≠ some [] ∧ digits.isNone = decide (fraction = []) := by
  obtain ⟨noDigit, noPoint⟩ := exponent_stops he sep
  rcases h with rfl | ⟨digits, rfl, hd⟩
  · exact ⟨none, leadingFraction_none noPoint, nofun, rfl⟩
  · exact ⟨some digits, leadingFraction_some hd noDigit, fun e => hd.1 (Option.some.inj e), rfl⟩

theorem leadingExponent_append (h : exponent = [] ∨ IsExponent exponent) (sep : Separates rest) :
    ∃ k, Numeral.leadingExponent (exponent ++ rest) = some (k, rest) ∧
      k.isNone = decide (exponent = []) := by
  rcases h with rfl | he
  · exact ⟨none, leadingExponent_none fun c hc => (sep c hc).1, rfl⟩
  · obtain ⟨k, read⟩ := leadingExponent_some he (isDigit_eq_false_of_head sep)
    obtain ⟨e, sign, digits, rfl, -⟩ := he
    exact ⟨some k, read, rfl⟩

/-- A numeral is taken from the front as a whole. -/
theorem leading?_append {whole : List Char} (hw : IsIntegerPart whole)
    (hf : fraction = [] ∨ IsFraction fraction) (he : exponent = [] ∨ IsExponent exponent)
    (sep : Separates rest) :
    ∃ n, Numeral.leading? (whole ++ (fraction ++ (exponent ++ rest))) = some (n, rest) ∧
      n.isWhole = (decide (fraction = []) && decide (exponent = [])) := by
  obtain ⟨sign, digits, rfl, hs, hd, zero⟩ := hw
  obtain ⟨fractionDigits, readFraction, nonempty, isNoneFraction⟩ :=
    leadingFraction_append hf he sep
  obtain ⟨k, readExponent, isNoneExponent⟩ := leadingExponent_append he sep
  have body := leadingMinus_append hs hd (fraction ++ (exponent ++ rest))
  have readWhole := leadingDigits_eq hd.2 (fraction_stops hf he sep)
  have allowed : ¬ (digits = [] ∨ 1 < digits.length ∧ digits.head? = some '0' ∨
      fractionDigits = some []) := by
    rintro (none | ⟨long, first⟩ | none)
    · exact hd.1 none
    · rcases zero with rfl | other
      · exact absurd long (by decide)
      · exact other first
    · exact nonempty none
  rw [List.append_assoc, Numeral.leading?]
  generalize Numeral.leadingMinus (sign ++ (digits ++ (fraction ++ (exponent ++ rest)))) = signed
    at body ⊢
  obtain ⟨negative, body'⟩ := signed
  subst body
  simp only [readWhole, readFraction, if_neg allowed, readExponent]
  refine ⟨_, rfl, ?_⟩
  rw [Numeral.ofParts, isNoneFraction, isNoneExponent]

theorem head?_toDigits {n : Nat} (h : 0 < n) : (Nat.toDigits 10 n).head? ≠ some '0' := by
  induction n using Nat.strongRecOn with
  | ind n ih =>
      by_cases small : n < 10
      · have digit : ∀ k : Fin 10, 0 < k.val → Nat.digitChar k ≠ '0' := by decide
        rw [Nat.toDigits_of_lt_base small, List.head?_cons, ne_eq, Option.some.injEq]
        exact digit ⟨n, small⟩ h
      · have front := ih (n / 10) (by omega) (by omega)
        rw [Nat.toDigits_of_base_le (by decide) (by omega)]
        cases e : Nat.toDigits 10 (n / 10) with
        | nil => exact absurd e Nat.toDigits_ne_nil
        | cons d ds => rwa [e] at front

/-- Natural numbers are written as integers of the grammar. -/
theorem isInt_repr (n : Nat) : IsInt (Nat.repr n) := by
  refine ⟨[], Nat.toDigits 10 n, Nat.toList_repr, .inl rfl, ⟨Nat.toDigits_ne_nil, ?_⟩, ?_⟩
  · rw [List.all_eq_true]
    exact fun c hc => Nat.isDigit_of_mem_toDigits (by decide) (by decide) hc
  · rcases Nat.eq_zero_or_pos n with rfl | positive
    · exact .inl (Nat.toDigits_zero 10)
    · exact .inr (head?_toDigits positive)

end QueryDoc.Grammar
