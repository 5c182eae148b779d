import QueryDoc.Json.Numeral
import QueryDoc.Json.Text
import QueryDoc.Proofs.Numeric.Shortest
import QueryDoc.Proofs.Numeric.Word
import QueryDoc.Proofs.Numeric.Written
import QueryDoc.Value.Json

/-!
Numbers that are written and read again, as literals of the query language and in JSON texts. An
integer comes back as it was. The literal of a float comes back as the same float, except that zero
loses its sign. In a JSON text zero keeps its sign, and a float comes back if the reader takes the
nearest float for its text.
-/

namespace QueryDoc

/-- Zero without its sign. -/
def Binary.unsignedZero {f : FloatFormat} (x : Binary f) : Binary f :=
  ⟨x.negative && decide (x.magnitude ≠ 0), x.magnitude, x.bound⟩

theorem Binary.unsignedZero_eq_self_iff {f : FloatFormat} {x : Binary f} :
    x.unsignedZero = x ↔ ¬ (x.negative = true ∧ x.magnitude = 0) := by
  obtain ⟨negative, magnitude, bound⟩ := x
  cases negative <;> simp [unsignedZero]

theorem Binary.isFinite_unsignedZero {f : FloatFormat} {x : Binary f} (finite : x.isFinite = true) :
    x.unsignedZero.isFinite = true :=
  finite

/-- Only the negative zero is replaced. -/
def Number.unsignedZero : Number → Number
  | .int n inRange => .int n inRange
  | .float x finite => .float x.unsignedZero (Binary.isFinite_unsignedZero finite)

theorem Number.unsignedZero_float_iff {x : Binary64} {finite : x.isFinite = true} :
    (Number.float x finite).unsignedZero = .float x finite ↔
      ¬ (x.negative = true ∧ x.magnitude = 0) := by
  rw [unsignedZero, float.injEq, Binary.unsignedZero_eq_self_iff]

theorem Number.ofInt?_eq {n : Int} (inRange : InRange n) : ofInt? n = some (.int n inRange) :=
  dif_pos inRange

theorem Number.ofFloat?_eq {x : Binary64} (finite : x.isFinite = true) :
    ofFloat? x = some (.float x finite) :=
  dif_pos finite

section Integers

/-- The text of an integer, without a plus sign. -/
theorem toList_integerText (n : Int) :
    (integerText n).toList =
      NumeralParts.signText (decide (n < 0)) ++ Nat.toDigits 10 n.natAbs := by
  rw [integerText, NumeralParts.signText]
  by_cases negative : n < 0
  · rw [if_pos negative, if_pos (decide_eq_true negative), String.toList_append, Nat.toList_repr]
    rfl
  · rw [if_neg negative, if_neg (by simpa using negative), Nat.toList_repr, List.nil_append]

theorem denotes_integerText (n : Int) : Denotes (integerText n) n := by
  refine ⟨NumeralParts.signText (decide (n < 0)), Nat.toDigits 10 n.natAbs, toList_integerText n,
    ?_, NumeralParts.isDigits_toDigits _, ?_⟩
  · cases decide (n < 0) with
    | true => exact .inr (.inr rfl)
    | false => exact .inl rfl
  · rw [signedValue, NumeralParts.digitsValue_toDigits]
    by_cases negative : n < 0
    · rw [decide_eq_true negative]
      change n = -(n.natAbs : Int)
      omega
    · rw [decide_eq_false negative]
      change n = (n.natAbs : Int)
      omega

theorem integerOfText?_integerText (n : Int) : integerOfText? (integerText n) = some n :=
  integerOfText?_eq_some_iff.mpr (denotes_integerText n)

theorem Json.ofIntText_integerText {n : Int} (inRange : Number.InRange n) :
    Json.ofIntText (integerText n) = .number (.int n inRange) := by
  rw [ofIntText, integerOfText?_integerText, Option.bind_some, Number.ofInt?_eq inRange]

end Integers

section Floats

variable {f : FloatFormat}

/-- The text that a layout gives to the shortest decimal stands for the float that this decimal was
made for. Only zero loses its sign, if the layout does not keep it. -/
theorem ofDecimal_parts (rule : ShortestRule) (layout : NumberLayout) (bits : 0 < f.exponentBits)
    (reads : .toEven ∈ rule.readings) {x : Binary f} (finite : x.isFinite = true)
    {n : Numeral} (e : n = (layout.parts x.negative (x.shortest rule)).numeral) :
    Binary.ofDecimal f n.negative n.decimal = if layout.signedZero then x else x.unsignedZero := by
  have bound : x.magnitude < f.infinity := of_decide_eq_true finite
  have zero : (x.shortest rule).digits = 0 ↔ x.magnitude = 0 :=
    FloatFormat.digits_shortest_eq_zero_iff bits reads bound
  have magnitude : f.nearest .toEven n.decimal = x.magnitude := by
    rw [e, NumberLayout.nearest_parts _ _ _ bits]
    exact FloatFormat.nearest_shortest bits reads bound
  have sign : n.negative = (x.negative && (layout.signedZero || decide (x.magnitude ≠ 0))) := by
    rw [e]
    exact (NumberLayout.negative_parts ..).trans (by simp only [ne_eq, zero])
  obtain ⟨negative, m, _⟩ := x
  cases signed : layout.signedZero with
  | true => simp [Binary.ofDecimal, magnitude, sign, signed]
  | false => simp [Binary.ofDecimal, Binary.unsignedZero, magnitude, sign, signed]

theorem Value.toEven_mem_readings (x : Binary f) : .toEven ∈ (literalRule x).readings := by
  simp only [literalRule]
  split <;> decide

/-- The literal of a finite float is read as a number to which the float is nearest, but for the
sign of zero. -/
theorem Value.exists_numeral_floatText (bits : 0 < f.exponentBits) {x : Binary f}
    (finite : x.isFinite = true) :
    ∃ n, FloatText.ofText? (floatText x) = some (.number n) ∧
      Binary.ofDecimal f n.negative n.decimal = x.unsignedZero := by
  refine ⟨(floatLayout.parts x.negative (x.shortest (literalRule x))).numeral, ?_, ?_⟩
  · rw [floatText, NumberLayout.write_eq,
      NumeralParts.ofText?_text (NumberLayout.wellFormed_parts ..)]
  · exact ofDecimal_parts _ floatLayout bits (toEven_mem_readings x) finite rfl

/-- A literal comes back as the float that it was made for, but for the sign of zero. -/
theorem Json.ofFloatText_floatText (x : Binary64) (finite : x.isFinite = true) :
    Json.ofFloatText (Value.floatText x) = .number (Number.float x finite).unsignedZero := by
  obtain ⟨n, read, same⟩ := Value.exists_numeral_floatText (by decide) finite
  simp only [ofFloatText, read, same, Number.ofFloat?_eq (Binary.isFinite_unsignedZero finite)]
  rfl

end Floats

section Numerals

namespace Number

/-- The parts of a number's text in JSON. -/
def parts : Number → NumeralParts
  | .int n _ => { negative := decide (n < 0), whole := Nat.toDigits 10 n.natAbs }
  | .float x _ => Number.layout.parts x.negative (x.shortest {})

/-- The reader of JSON texts takes the nearest float for the text of a float. -/
def ReadAsNearest : Number → Prop
  | .int _ _ => True
  | .float x finite => ∀ n, Numeral.leading? (Number.float x finite).text.toList = some (n, []) →
    n.toFloat? = ofFloat? (.ofDecimal .binary64 n.negative n.decimal)

theorem toList_text (n : Number) : n.text.toList = n.parts.text true := by
  cases n with
  | int n _ =>
      rw [text, toList_integerText, NumeralParts.text, NumeralParts.body]
      simp only [parts, NumeralParts.fractionText, NumeralParts.exponentText, List.append_nil]
  | float x _ =>
      rw [text, NumberLayout.write_eq, String.toList_ofList]
      rfl

theorem wellFormed_parts (n : Number) : n.parts.WellFormed := by
  cases n with
  | int n _ =>
      refine ⟨NumeralParts.isDigits_toDigits n.natAbs, ?_, nofun⟩
      rcases Nat.eq_zero_or_pos n.natAbs with zero | positive
      · exact .inl (by rw [parts, zero, Nat.toDigits_zero])
      · exact .inr (Grammar.head?_toDigits positive)
  | float x _ => exact NumberLayout.wellFormed_parts ..

theorem leading?_text (n : Number) {rest : List Char} (sep : Grammar.Separates rest) :
    Numeral.leading? (n.text.toList ++ rest) = some (n.parts.numeral, rest) := by
  rw [toList_text]
  exact NumeralParts.leading?_text n.wellFormed_parts sep

theorem leading?_text_all (n : Number) :
    Numeral.leading? n.text.toList = some (n.parts.numeral, []) := by
  simpa using n.leading?_text NumeralParts.separates_nil

theorem readAsNearest_float_iff {x : Binary64} {finite : x.isFinite = true} :
    ReadAsNearest (.float x finite) ↔ (Number.float x finite).parts.numeral.toFloat? =
      ofFloat? (.ofDecimal .binary64 (Number.float x finite).parts.numeral.negative
        (Number.float x finite).parts.numeral.decimal) := by
  simp only [ReadAsNearest, leading?_text_all, Option.some.injEq, Prod.mk.injEq, and_true,
    forall_eq']

instance : DecidablePred ReadAsNearest
  | .int _ _ => .isTrue trivial
  | .float _ _ => decidable_of_iff _ readAsNearest_float_iff.symm

/-- A number in a JSON text is read as that number. -/
theorem toNumber?_parts (n : Number) (nearest : n.ReadAsNearest) :
    n.parts.numeral.toNumber? = some n := by
  cases n with
  | int n inRange =>
      have notZero : ¬ (decide (n < 0) = true ∧ n.natAbs = 0) := by
        rw [decide_eq_true_eq]
        omega
      rw [Numeral.toNumber?]
      simp only [parts, NumeralParts.numeral, Numeral.ofParts, NumeralParts.digitsValue_toDigits,
        notZero, not_false_eq_true, Option.isNone_none, Bool.and_self, and_self, if_true,
        NumeralParts.signed_natAbs, ofInt?_eq inRange]
      rfl
  | float x finite =>
      have same := ofDecimal_parts {} Number.layout (by decide) (by decide) finite rfl
      have notWhole : (Number.float x finite).parts.numeral.isWhole = false :=
        NumberLayout.isWhole_parts ..
      rw [Numeral.toNumber?, notWhole, if_neg (fun h => Bool.false_ne_true h.1),
        readAsNearest_float_iff.mp nearest, parts, same, ← ofFloat?_eq finite]
      rfl

end Number

end Numerals

end QueryDoc
