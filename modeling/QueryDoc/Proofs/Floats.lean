import QueryDoc.Proofs.Grammar.Lexing
import QueryDoc.Proofs.Json.Number

/-!
Floats in values and in JSON. The literal of a finite float cannot be taken for an integer, and
reads back as the same float, bit by bit, unless the float is the negative zero: both zeros have the
same literal. Floats that are not finite have no literal, and the first of them in a list fails the
list.
-/

namespace QueryDoc

section Bits

variable {f : FloatFormat}

theorem Binary.toBits_ofBits {bits : Nat} (width : bits < 2 * f.signWeight) :
    (Binary.ofBits f bits).toBits = bits := by
  have split := Nat.div_add_mod bits f.signWeight
  have sign : bits / f.signWeight < 2 := Nat.div_lt_of_lt_mul (by rwa [Nat.mul_comm])
  rw [toBits, ofBits]
  rcases Nat.le_one_iff_eq_zero_or_eq_one.mp (Nat.le_of_lt_succ sign) with sign | sign
  · simpa [sign] using split
  · simpa [sign] using split

/-- The negative zero is the float whose only bit is the sign. -/
theorem Binary.toBits_unsignedZero (x : Binary f) :
    x.unsignedZero.toBits = if x.toBits = f.signWeight then 0 else x.toBits := by
  have bound := x.bound
  obtain ⟨negative, magnitude, _⟩ := x
  simp only [toBits, unsignedZero]
  cases negative with
  | true => by_cases zero : magnitude = 0 <;> simp [zero]
  | false => simp [Nat.ne_of_lt bound]

end Bits

section Literals

open Grammar

variable {f : FloatFormat} {text : String} {rest : List Char}

theorem NumeralParts.isFloat_text {p : NumeralParts} (plusSign : Bool) (h : p.WellFormed)
    (notWhole : p.numeral.isWhole = false) : IsFloat (String.ofList (p.text plusSign)) := by
  refine ⟨signText p.negative ++ p.whole, fractionText p.fraction,
    exponentText plusSign p.exponent, ?_, ⟨signText p.negative, p.whole, rfl, ?_, h.whole, h.first⟩,
    fractionText_form h.fraction, exponentText_form plusSign p.exponent, ?_⟩
  · rw [String.toList_ofList, text, body, List.append_assoc]
  · cases p.negative with
    | true => exact .inr rfl
    | false => exact .inl rfl
  · rintro ⟨noFraction, noExponent⟩
    obtain ⟨negative, whole, fraction, exponent⟩ := p
    cases fraction with
    | some digits => cases noFraction
    | none =>
        cases exponent with
        | some k => cases noExponent
        | none => cases notWhole

/-- A literal has a fraction or an exponent. -/
theorem Value.isFloat_floatText (x : Binary f) : IsFloat (floatText x) := by
  rw [floatText, NumberLayout.write_eq]
  exact NumeralParts.isFloat_text _ (NumberLayout.wellFormed_parts ..)
    (NumberLayout.isWhole_parts ..)

theorem Grammar.token?_float (h : IsFloat text) (sep : Separates rest) :
    token? (text.toList ++ rest) = some (.float text, rest) := by
  obtain ⟨whole, fraction, exponent, split, hw, hf, he, some⟩ := h
  rw [token?_number hw hf he sep split, if_neg some]

theorem Grammar.IsFloat.not_isInt (h : IsFloat text) : ¬ IsInt text := by
  intro integer
  have read : token? (text.toList ++ []) = some (.int text, []) :=
    token?_number integer (.inl rfl) (.inl rfl) NumeralParts.separates_nil (List.append_nil _).symm
  rw [token?_float h NumeralParts.separates_nil] at read
  cases read

/-- Both zeros have the same text. -/
theorem Value.floatText_unsignedZero (bits : 0 < f.exponentBits) {x : Binary f}
    (finite : x.isFinite = true) : floatText x.unsignedZero = floatText x := by
  by_cases zero : x.magnitude = 0
  · have digits : (x.shortest (literalRule x)).digits = 0 :=
      (FloatFormat.digits_shortest_eq_zero_iff bits (toEven_mem_readings x)
        (of_decide_eq_true finite)).mpr zero
    have same : x.unsignedZero.shortest (literalRule x.unsignedZero) =
      x.shortest (literalRule x) := rfl
    rw [floatText, floatText, same, NumberLayout.write, NumberLayout.write, if_pos digits,
      if_pos digits]
    simp [floatLayout]
  · rw [Binary.unsignedZero_eq_self_iff.mpr fun h => zero h.2]

/-- The text is the literal of a float. It is a float of the query language and is read as one in
front of everything that may follow a number, never as an integer; the float that is nearest to its
number has the same bits, unless these are the bits of the negative zero. -/
structure Value.IsLiteral (x : Binary f) (text : String) : Prop where
  value : ofFloat x = .ok (.float text : Value ObjectId)
  form : IsFloat text
  notInt : ¬ IsInt text
  token : ∀ rest, Separates rest → token? (text.toList ++ rest) = some (.float text, rest)
  reading : ∃ n, FloatText.ofText? text = some (.number n) ∧
    (Binary.ofDecimal f n.negative n.decimal).toBits =
      if x.toBits = f.signWeight then 0 else x.toBits

theorem Value.isLiteral_floatText (bits : 0 < f.exponentBits) {x : Binary f}
    (finite : x.isFinite = true) : IsLiteral x (floatText x) := by
  have form := isFloat_floatText x
  obtain ⟨n, read, nearest⟩ := exists_numeral_floatText bits finite
  exact ⟨if_pos finite, form, form.not_isInt, fun rest sep => token?_float form sep,
    n, read, nearest ▸ x.toBits_unsignedZero⟩

end Literals

section Items

variable {Ref Item : Type} {f : FloatFormat} {ofItem : Item → Except Error (Value Ref)}

namespace Value

theorem ofFloat_of_finite {x : Binary f} (finite : x.isFinite = true) :
    (ofFloat x : Except Error (Value Ref)) = .ok (.float (floatText x)) :=
  if_pos finite

theorem ofFloat_of_not_finite {x : Binary f} (infinite : x.isFinite = false) :
    (ofFloat x : Except Error (Value Ref)) = .error (.noFloatLiteral (floatName x)) :=
  if_neg (by rw [infinite]; exact Bool.false_ne_true)

/-- A list of items that have values is a list of these values. -/
theorem ofItems_of_ok {items : List Item} {value : Item → Value Ref}
    (all : ∀ i ∈ items, ofItem i = .ok (value i)) :
    ofItems ofItem items = .ok (.list (items.map value)) := by
  have values : items.mapM ofItem = .ok (items.map value) := by
    induction items with
    | nil => rfl
    | cons i items ih =>
        rw [List.forall_mem_cons] at all
        rw [List.mapM_cons, all.1, ih all.2]
        rfl
  rw [ofItems, values]
  rfl

/-- The first item that has no value fails a list. -/
theorem ofItems_of_error {before after : List Item} {item : Item} {e : Error}
    (first : ∀ i ∈ before, ∃ v, ofItem i = .ok v) (failed : ofItem item = .error e) :
    ofItems ofItem (before ++ item :: after) = .error e := by
  have failure : (before ++ item :: after).mapM ofItem = .error e := by
    induction before with
    | nil => rw [List.nil_append, List.mapM_cons, failed]; rfl
    | cons i before ih =>
        rw [List.forall_mem_cons] at first
        obtain ⟨v, value⟩ := first.1
        rw [List.cons_append, List.mapM_cons, value, ih first.2]
        rfl
  rw [ofItems, failure]
  rfl

/-- A list of floats is a list of their literals, or fails for the first one that has none. -/
theorem ofItems_ofFloat (xs : List (Binary f)) :
    (ofItems ofFloat xs : Except Error (Value Ref)) =
      match xs.find? fun x => !x.isFinite with
      | some x => ofFloat x
      | none => .ok (.list (xs.map fun x => .float (floatText x))) := by
  cases found : xs.find? fun x => !x.isFinite with
  | none =>
      refine ofItems_of_ok fun x hx => ofFloat_of_finite ?_
      simpa using List.find?_eq_none.mp found x hx
  | some x =>
      obtain ⟨infinite, before, after, rfl, finite⟩ := List.find?_eq_some_iff_append.mp found
      have failed : (ofFloat x : Except Error (Value Ref)) = .error (.noFloatLiteral (floatName x)) :=
        ofFloat_of_not_finite (by simpa using infinite)
      change ofItems ofFloat (before ++ x :: after) = ofFloat x
      rw [failed]
      refine ofItems_of_error (fun y hy => ⟨_, ofFloat_of_finite ?_⟩) failed
      simpa using finite y hy

end Value

end Items

namespace Store

/-- Every finite float of either precision has a literal, from which its bits come back; only the
negative zero is read as zero. As JSON, a float of double precision is a float with these bits, and
the literal of that one is the same text again. All other floats fail, as does every list with such
an item, for the first of them. -/
theorem literals_keep_floats_but_for_negative_zeros (s : Store) (bindings : Option Bindings)
    (trail : Trail) :
    (∀ f ∈ [FloatFormat.binary32, .binary64],
      (∀ bits < 2 * f.signWeight, (Binary.ofBits f bits).toBits = bits) ∧
      (∀ x : Binary f, x.isFinite = true → ∃ text, Value.IsLiteral x text) ∧
      (∀ x : Binary f, x.isFinite = false → ∃ e : Error, e.kind = .unsupportedValue ∧
        Value.ofFloat x = (.error e : Except Error (Value ObjectId)) ∧
        ∀ (Item : Type) (ofItem : Item → Except Error (Value ObjectId))
          (before after : List Item) (item : Item), (∀ i ∈ before, ∃ v, ofItem i = .ok v) →
          ofItem item = Value.ofFloat x →
          Value.ofItems ofItem (before ++ item :: after) = .error e) ∧
      (∀ xs : List (Binary f), (Value.ofItems Value.ofFloat xs : Except Error (Value ObjectId)) =
        match xs.find? fun x => !x.isFinite with
        | some x => Value.ofFloat x
        | none => .ok (.list (xs.map fun x => .float (Value.floatText x))))) ∧
    ∀ x : Binary64, x.isFinite = true → ∃ text y finite,
      Value.ofFloat x = .ok (.float text : Value ObjectId) ∧
      s.nodeJson? bindings trail (.value (.float text)) = some (.ok (.number (.float y finite))) ∧
      y.toBits = (if x.toBits = 2 ^ 63 then 0 else x.toBits) ∧
      s.ofJson (.number (.float y finite)) = (s, .float text) := by
  have bits : ∀ f ∈ [FloatFormat.binary32, .binary64], 0 < f.exponentBits := by decide
  refine ⟨fun f precision => ⟨fun _ => Binary.toBits_ofBits, fun x finite => ?_,
    fun x infinite => ?_, Value.ofItems_ofFloat⟩, fun x finite => ?_⟩
  · exact ⟨_, Value.isLiteral_floatText (bits f precision) finite⟩
  · have failed : Value.ofFloat x = (.error _ : Except Error (Value ObjectId)) :=
      Value.ofFloat_of_not_finite infinite
    exact ⟨_, rfl, failed, fun _ _ _ _ _ first same =>
      Value.ofItems_of_error first (same.trans failed)⟩
  · have json : s.nodeJson? bindings trail (.value (.float (Value.floatText x))) =
        some (.ok (.number (.float x.unsignedZero (Binary.isFinite_unsignedZero finite)))) :=
      congrArg (some ∘ Except.ok) (Json.ofFloatText_floatText x finite)
    refine ⟨_, _, _, Value.ofFloat_of_finite finite, json, x.toBits_unsignedZero, ?_⟩
    rw [ofJson, Value.floatText_unsignedZero (by decide) finite]

/-- The least positive float of double precision. -/
theorem leastPositive_is_carried :
    (Binary.ofBits .binary64 1).isFinite = true ∧ ∃ text y finite,
      Value.ofFloat (Binary.ofBits .binary64 1) = .ok (.float text : Value ObjectId) ∧
      Store.empty.nodeJson? none [] (.value (.float text)) =
        some (.ok (.number (.float y finite))) ∧ y.toBits = 1 := by
  have finite : (Binary.ofBits .binary64 1).isFinite = true := by decide +kernel
  obtain ⟨text, y, finite', value, json, same, -⟩ :=
    (literals_keep_floats_but_for_negative_zeros .empty none []).2 _ finite
  exact ⟨finite, text, y, finite', value, json, same.trans (by decide +kernel)⟩

/-- Negative zero has the literal of zero, and loses its sign. -/
theorem negativeZero_is_read_as_zero :
    (Binary.ofBits .binary64 (2 ^ 63)).isFinite = true ∧
    Value.ofFloat (Binary.ofBits .binary64 (2 ^ 63)) = .ok (.float "0.0" : Value ObjectId) ∧
    ∃ y finite, Store.empty.nodeJson? none [] (.value (.float "0.0")) =
      some (.ok (.number (.float y finite))) ∧
        y.toBits = 0 ∧ y.toBits ≠ (Binary.ofBits .binary64 (2 ^ 63)).toBits := by
  have finite : (Binary.ofBits .binary64 (2 ^ 63)).isFinite = true := by decide +kernel
  have text : Value.floatText (Binary.ofBits .binary64 (2 ^ 63)) = "0.0" := by decide +kernel
  have json := Json.ofFloatText_floatText _ finite
  rw [text] at json
  have lost := (Binary.toBits_unsignedZero (Binary.ofBits .binary64 (2 ^ 63))).trans (if_pos rfl)
  refine ⟨finite, ?_, _, _, congrArg (some ∘ Except.ok) json, lost, ?_⟩
  · rw [Value.ofFloat_of_finite finite, text]
  · rw [lost]
    decide +kernel

end Store

end QueryDoc
