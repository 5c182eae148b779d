import QueryDoc.Proofs.Json.Number

/-!
Integers in values and in JSON. The text of an integer is the same whatever type the integer comes
from, and stands for this integer alone. As JSON it is a number exactly if 64 bits hold it; any text
that denotes no such integer stays a text. Two readers of words in a row, neither of which ever
holds another number than the one of the digits that it has taken, tell these texts apart.
-/

namespace QueryDoc

variable {text : String} {n : Int}

section Texts

theorem denotes_integerText_iff {m : Int} : Denotes (integerText n) m ↔ m = n :=
  ⟨fun h => h.unique (denotes_integerText n), fun e => e ▸ denotes_integerText n⟩

theorem integerText_inj {m : Int} : integerText n = integerText m ↔ n = m :=
  ⟨fun same => denotes_integerText_iff.mp (same ▸ denotes_integerText n), congrArg integerText⟩

theorem isInt_integerText (n : Int) : Grammar.IsInt (integerText n) := by
  refine ⟨NumeralParts.signText (decide (n < 0)), Nat.toDigits 10 n.natAbs, toList_integerText n,
    ?_, NumeralParts.isDigits_toDigits _, ?_⟩
  · cases decide (n < 0) with
    | true => exact .inr rfl
    | false => exact .inl rfl
  · rcases Nat.eq_zero_or_pos n.natAbs with zero | positive
    · exact .inl (by rw [zero, Nat.toDigits_zero])
    · exact .inr (Grammar.head?_toDigits positive)

/-- Zero is written without a sign. -/
theorem integerText_ne_minusZero (n : Int) : integerText n ≠ "-0" := by
  intro same
  have zero : (0 : Int) = n := denotes_integerText_iff.mp
    (same ▸ ⟨['-'], ['0'], rfl, .inr (.inr rfl), by decide, rfl⟩)
  rw [← zero] at same
  exact absurd same (by decide)

/-- What follows a minus sign is no positive integer. -/
theorem Denotes.nonpos_of_minus (h : Denotes text n) (minus : text.toList.head? = some '-') :
    n ≤ 0 := by
  have value := (denotes_iff.mp h).2
  rw [(IntegerType.leadingSign_fst_iff _).mpr minus, signedValue, if_pos rfl] at value
  omega

end Texts

section Numbers

theorem Json.ofIntText_of_denotes (denotes : Denotes text n) (inRange : Number.InRange n) :
    Json.ofIntText text = .number (.int n inRange) := by
  rw [ofIntText, integerOfText?_eq_some_iff.mpr denotes, Option.bind_some,
    Number.ofInt?_eq inRange]

theorem Json.ofIntText_of_not_denotes (none : ∀ n, Denotes text n → ¬ Number.InRange n) :
    Json.ofIntText text = .string text := by
  rw [ofIntText]
  cases read : integerOfText? text with
  | none => rfl
  | some n =>
      have outside := none n (integerOfText?_eq_some_iff.mp read)
      rw [Option.bind_some, Number.ofInt?, dif_neg outside]

example : ∀ text ∈ ["", "-", " 1", "٣", "-9223372036854775809", "18446744073709551616"],
    Json.ofIntText text = .string text := by
  simp only [List.forall_mem_cons]
  exact ⟨rfl, rfl, rfl, rfl, rfl, rfl, fun _ none => absurd none List.not_mem_nil⟩

theorem Json.ofIntText_eq_int_iff :
    (∃ inRange, Json.ofIntText text = .number (.int n inRange)) ↔
      Denotes text n ∧ Number.InRange n := by
  constructor
  · rintro ⟨inRange, same⟩
    by_cases found : ∃ m, Denotes text m ∧ Number.InRange m
    · obtain ⟨m, denotes, held⟩ := found
      rw [ofIntText_of_denotes denotes held] at same
      cases same
      exact ⟨denotes, inRange⟩
    · rw [ofIntText_of_not_denotes fun m denotes held => found ⟨m, denotes, held⟩] at same
      cases same
  · rintro ⟨denotes, inRange⟩
    exact ⟨inRange, Json.ofIntText_of_denotes denotes inRange⟩

/-- An integer that 64 bits hold has a word with a sign, or else is positive and has one without. -/
theorem Number.InRange.holds (inRange : Number.InRange n) :
    IntegerType.signed64.Holds n ∨ 0 < n ∧ IntegerType.unsigned64.Holds n := by
  rw [Number.InRange] at inRange
  rw [IntegerType.holds_of_signed rfl, IntegerType.holds_of_unsigned rfl]
  simp only [IntegerType.signed64, IntegerType.unsigned64]
  omega

/-- Reading words tells the same integers from other texts as reading integers of any size does. -/
theorem Json.ofIntWords_eq (text : String) : Json.ofIntWords text = Json.ofIntText text := by
  rw [ofIntWords]
  cases signed : IntegerType.signed64.read? text with
  | some w => exact (ofIntText_of_denotes (IntegerType.read?_eq_some_iff.mp signed).1 _).symm
  | none =>
      cases unsigned : IntegerType.unsigned64.read? text with
      | some w => exact (ofIntText_of_denotes (IntegerType.read?_eq_some_iff.mp unsigned).1 _).symm
      | none =>
          refine (ofIntText_of_not_denotes fun n denotes inRange => ?_).symm
          rcases inRange.holds with held | ⟨positive, held⟩
          · rw [IntegerType.read?_of_denotes denotes held nofun] at signed
            cases signed
          · have sign (minus : text.toList.head? = some '-') : False :=
              Int.not_le.mpr positive (denotes.nonpos_of_minus minus)
            rw [IntegerType.read?_of_denotes denotes held fun _ => sign] at unsigned
            cases unsigned

end Numbers

namespace Store

/-- An integer text becomes the number that it denotes if 64 bits hold this, and stays as it is
otherwise, whatever it is. A reader of words with a sign and one of words without a sign, tried one
after the other, tell the two cases apart, and no word on their way stands for another number than
the digits so far. -/
theorem integer_texts_are_told_exactly (s : Store) (bindings : Option Bindings) (trail : Trail)
    (text : String) :
    (∀ n, (∃ inRange, s.nodeJson? bindings trail (.value (.int text)) =
        some (.ok (.number (.int n inRange)))) ↔ Denotes text n ∧ Number.InRange n) ∧
      ((∀ n, Denotes text n → ¬ Number.InRange n) →
        s.nodeJson? bindings trail (.value (.int text)) = some (.ok (.string text))) ∧
      s.nodeJson? bindings trail (.value (.int text)) = some (.ok (Json.ofIntWords text)) ∧
      ∀ (t : IntegerType) (negative : Bool) (digits : List Char),
        t.ReadsExactly negative digits := by
  have json : s.nodeJson? bindings trail (.value (.int text)) =
      some (.ok (Json.ofIntText text)) := rfl
  simp only [json, Option.some.injEq, Except.ok.injEq]
  exact ⟨fun n => Json.ofIntText_eq_int_iff, Json.ofIntText_of_not_denotes,
    (Json.ofIntWords_eq text).symm, IntegerType.readsExactly⟩

/-- The integers of a type are those of its words, and each of them is carried by its text: the text
is the same for all types and for no other integer, and is an integer of the query language without
needless signs and zeros. As JSON it is the integer, and comes back from there, as long as 64 bits
hold it; a longer one stays in its text. -/
theorem integers_are_carried_exactly (s : Store) (bindings : Option Bindings) (trail : Trail)
    (t : IntegerType) :
    (∀ n, t.Holds n ↔ ∃ w, t.value w = n) ∧
      ∀ w : t.Word, ∃ text, Value.ofWord t w = (.int text : Value ObjectId) ∧
        Grammar.IsInt text ∧ text ≠ "-0" ∧ (∀ n, Denotes text n ↔ n = t.value w) ∧
        (∀ (u : IntegerType) (v : u.Word),
          Value.ofWord u v = (.int text : Value ObjectId) ↔ u.value v = t.value w) ∧
        (∀ inRange : Number.InRange (t.value w),
          s.nodeJson? bindings trail (.value (.int text)) =
              some (.ok (.number (.int (t.value w) inRange))) ∧
            s.ofJson (.number (.int (t.value w) inRange)) = (s, .int text)) ∧
        (¬ Number.InRange (t.value w) →
          s.nodeJson? bindings trail (.value (.int text)) = some (.ok (.string text))) := by
  refine ⟨fun n => IntegerType.holds_iff, fun w => ?_⟩
  have json (text : String) : s.nodeJson? bindings trail (.value (.int text)) =
      some (.ok (Json.ofIntText text)) := rfl
  refine ⟨integerText (t.value w), ?_, isInt_integerText _, integerText_ne_minusZero _,
    fun n => denotes_integerText_iff, fun u v => ?_, fun inRange => ⟨?_, rfl⟩, fun outside => ?_⟩
  · rw [Value.ofWord, t.text_eq]
  · rw [Value.ofWord, u.text_eq, Value.int.injEq, integerText_inj]
  · rw [json, Json.ofIntText_integerText inRange]
  · rw [json, Json.ofIntText_of_not_denotes fun n denotes =>
      (denotes_integerText_iff.mp denotes).symm ▸ outside]

end Store

end QueryDoc
