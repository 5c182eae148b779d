import Mathlib.Data.List.Forall2
import QueryDoc.Proofs.Names
import QueryDoc.Proofs.Numeric.Range
import QueryDoc.Proofs.Numeric.Word

/-!
JSON beside the value that it is made from. Every part of a value has its own part of the JSON: an
item that of the same place, and the last field with a name the member of that name. Numbers are
numbers again, or their own text if JSON has no integer of that size. Nothing else is lost, except
for floats that are out of range: they leave a null behind, like what is null itself and like
variables that have no value.
-/

namespace QueryDoc

section Texts

open Grammar

variable {text : String}

theorem exists_integer (h : IsInt text) : ∃ n, integerOfText? text = some n := by
  obtain ⟨sign, digits, split, signed, isDigits, -⟩ := h
  have signs : sign = [] ∨ sign = ['+'] ∨ sign = ['-'] := signed.imp_right .inr
  exact ⟨_, integerOfText?_eq_some_iff.mpr ⟨sign, digits, split, signs, isDigits, rfl⟩⟩

theorem exists_numeral (h : IsFloat text) : ∃ n, FloatText.ofText? text = some (.number n) := by
  obtain ⟨whole, fraction, exponent, split, ⟨sign, digits, rfl, signed, isDigits, -⟩, isFraction,
    isExponent, -⟩ := h
  have signs : sign = [] ∨ sign = ['+'] ∨ sign = ['-'] := signed.imp_right .inr
  obtain ⟨fractionDigits, readFraction, nonempty, -⟩ :=
    leadingFraction_append isFraction isExponent NumeralParts.separates_nil
  obtain ⟨k, readExponent, -⟩ := leadingExponent_append isExponent NumeralParts.separates_nil
  have readWhole := leadingDigits_eq isDigits.2
    (fraction_stops isFraction isExponent NumeralParts.separates_nil)
  have body := leadingSign_append signs isDigits (fraction ++ exponent)
  rw [List.append_nil] at readFraction readExponent readWhole
  rw [FloatText.ofText?, split, List.append_assoc]
  generalize leadingSign (sign ++ (digits ++ (fraction ++ exponent))) = signed at body ⊢
  obtain ⟨negative, body'⟩ := signed
  subst body
  have some : ¬ (digits = [] ∧ fractionDigits.getD [] = []) := fun none => isDigits.1 none.1
  simp only [NumeralParts.not_named isDigits, readWhole, readFraction, if_neg some, readExponent]
  exact ⟨_, rfl⟩

end Texts

namespace Value

variable {Ref : Type}

mutual

/-- Whether the numbers in a value have the form of numbers, its objects apart. -/
def HasNumerals : Value Ref → Prop
  | .int text => Grammar.IsInt text
  | .float text => Grammar.IsFloat text
  | .list items => HaveNumerals items
  | _ => True
termination_by structural v => v

def HaveNumerals : List (Value Ref) → Prop
  | [] => True
  | v :: items => v.HasNumerals ∧ HaveNumerals items
termination_by structural items => items

end

theorem hasNumerals_list {items : List (Value Ref)} :
    (Value.list items).HasNumerals ↔ ∀ v ∈ items, v.HasNumerals := by
  rw [HasNumerals]
  induction items with
  | nil => simp [HaveNumerals]
  | cons v items ih => rw [HaveNumerals, ih, List.forall_mem_cons]

end Value

/-- Whether a number is out of the range of floats: at least halfway from the greatest one, which is
`2 ^ 1024 - 2 ^ 971`, to `2 ^ 1024`. -/
def Numeral.OutOfRange (n : Numeral) : Prop := n.decimal.AtLeast (2 ^ 1024 - 2 ^ 970)

instance (n : Numeral) : Decidable n.OutOfRange := inferInstanceAs (Decidable (n.decimal.AtLeast _))

namespace Store

/-- The JSON has the form of the value, at every place of both. -/
inductive Mirrors (s : Store) (bindings : Option Bindings) : Value ObjectId → Json → Prop
  | null : Mirrors s bindings .null .null
  | bool (b) : Mirrors s bindings (.bool b) (.bool b)
  | int {text n} (inRange : Number.InRange n) : integerOfText? text = some n →
      Mirrors s bindings (.int text) (.number (.int n inRange))
  | longInt {text n} : integerOfText? text = some n → ¬ Number.InRange n →
      Mirrors s bindings (.int text) (.string text)
  | float {text n} (finite : (Binary.ofDecimal .binary64 n.negative n.decimal).isFinite = true) :
      FloatText.ofText? text = some (.number n) → ¬ n.OutOfRange →
      Mirrors s bindings (.float text) (.number (.float _ finite))
  | largeFloat {text n} : FloatText.ofText? text = some (.number n) → n.OutOfRange →
      Mirrors s bindings (.float text) .null
  | string (text) : Mirrors s bindings (.string text) (.string text)
  | enumerator (name) : Mirrors s bindings (.enumerator name) (.string name)
  | var (name) : Mirrors s bindings (.var name) (binding bindings name)
  | bytes (content) :
      Mirrors s bindings (.bytes content) (.array (content.map fun b => .number (.ofByte b)))
  | list {items js} : List.Forall₂ (Mirrors s bindings) items js →
      Mirrors s bindings (.list items) (.array js)
  | objects {os js} : List.Forall₂ (fun o j => Mirrors s bindings (.object o) j) os js →
      Mirrors s bindings (.objects os) (.array js)
  | object {o members} : NameMap.Sorted members →
      (∀ name, name ∈ Entry.names members ↔ name ∈ Entry.names (s.fields o)) →
      (∀ name j before v after, ⟨name, j⟩ ∈ members → s.fields o = before ++ ⟨name, v⟩ :: after →
        name ∉ Entry.names after → Mirrors s bindings v j) →
      Mirrors s bindings (.object o) (.object members)

variable {s : Store} {bindings : Option Bindings} {trail : Trail} {o : ObjectId} {text : String}

theorem mirrors_int (h : Grammar.IsInt text) :
    s.Mirrors bindings (.int text) (.ofIntText text) := by
  obtain ⟨n, read⟩ := exists_integer h
  rw [Json.ofIntText, read, Option.bind_some, Number.ofInt?]
  split
  next some found =>
    split at found
    next inRange =>
      cases found
      exact .int inRange read
    next => cases found
  next none =>
    split at none
    next => cases none
    next long => exact .longInt read long

theorem mirrors_float (h : Grammar.IsFloat text) :
    s.Mirrors bindings (.float text) (.ofFloatText text) := by
  obtain ⟨n, read⟩ := exists_numeral h
  have range := Binary.isFinite_ofDecimal_iff n.negative n.decimal
  simp only [Json.ofFloatText, read, Number.ofFloat?]
  by_cases large : n.OutOfRange
  · rw [dif_neg fun finite => range.mp finite large]
    exact .largeFloat read large
  · have finite := range.mpr large
    rw [dif_pos finite]
    exact .float finite read large

/-- The JSON of a value mirrors it if the JSON of its objects does. -/
theorem mirrors_value (v : Value ObjectId) (numerals : v.HasNumerals)
    (objects : ∀ o ∈ v.refs, s.Mirrors bindings (.object o) (s.jsonOf bindings (.object o))) :
    s.Mirrors bindings v (s.jsonOf bindings v) := by
  induction v using Value.induct with
  | null => exact .null
  | bool b => exact .bool b
  | int text => exact mirrors_int numerals
  | float text => exact mirrors_float numerals
  | string text => exact .string text
  | enumerator name => exact .enumerator name
  | var name => exact .var name
  | bytes content => exact .bytes content
  | object o => exact objects o (List.mem_singleton_self o)
  | objects os =>
      rw [jsonOf_objects]
      exact .objects (List.forall₂_map_right_iff.mpr (List.forall₂_same.mpr objects))
  | list items ih =>
      rw [jsonOf_list]
      refine .list (List.forall₂_map_right_iff.mpr (List.forall₂_same.mpr fun v hv => ?_))
      rw [Value.refs_list] at objects
      exact ih v hv (Value.hasNumerals_list.mp numerals v hv) fun o ho =>
        objects o (List.mem_flatMap_of_mem hv ho)

theorem mirrors_object (clear : s.Clear trail o)
    (numerals : ∀ p, s.Reaches o p → ∀ f ∈ s.fields p, f.value.HasNumerals) :
    s.Mirrors bindings (.object o) (s.jsonOf bindings (.object o)) := by
  revert numerals
  refine clear.induct fun trail o clear ih => ?_
  intro numerals
  rw [jsonOf_object bindings (clear.mono (List.nil_subset trail))]
  refine .object (NameMap.sorted_map _ (NameMap.sorted_ofEntries _)) (fun name => ?_) ?_
  · rw [Entry.names, List.map_map]
    exact NameMap.mem_names_ofEntries_iff
  · intro name j before v after member split last
    obtain ⟨⟨name, w⟩, kept, ⟨⟩⟩ := List.mem_map.mp member
    have found := NameMap.find?_of_mem (NameMap.sorted_ofEntries _) kept
    have field : ⟨name, v⟩ ∈ s.fields o :=
      split ▸ List.mem_append_right before (List.mem_cons_self ..)
    obtain rfl : w = v := Option.some.inj
      (found.symm.trans (NameMap.find?_ofEntries_eq_some_iff.mpr ⟨before, after, split, last⟩))
    refine mirrors_value w (numerals o .refl _ field) fun p hp => ?_
    have held := mem_objectRefs field hp
    exact ih p held ((clear_iff.mp clear).2 p held) fun q reached => numerals q (.head held reached)

section Uniqueness

theorem eq_map_of_forall₂ {α β : Type} {r : α → β → Prop} {g : α → β} {as : List α} {bs : List β}
    (related : List.Forall₂ r as bs) (unique : ∀ a ∈ as, ∀ b, r a b → b = g a) :
    bs = as.map g := by
  induction related with
  | nil => rfl
  | @cons a b as bs first _ ih =>
      rw [List.map_cons, unique a (List.mem_cons_self ..) b first,
        ih fun a' ha => unique a' (List.mem_cons_of_mem a ha)]

/-- Nothing else mirrors a value than its JSON, if this is so of its objects. -/
theorem Mirrors.eq_jsonOf {v : Value ObjectId} {j : Json} (h : s.Mirrors bindings v j)
    (objects : ∀ o ∈ v.refs, ∀ k, s.Mirrors bindings (.object o) k →
      k = s.jsonOf bindings (.object o)) : j = s.jsonOf bindings v := by
  induction v using Value.induct generalizing j with
  | null | bool _ | string _ | enumerator _ | var _ | bytes _ =>
      cases h
      rfl
  | int text =>
      change j = Json.ofIntText text
      cases h with
      | int inRange read =>
          rw [Json.ofIntText, read, Option.bind_some, Number.ofInt?_eq inRange]
      | longInt read long =>
          rw [Json.ofIntText, read, Option.bind_some, Number.ofInt?, dif_neg long]
  | float text =>
      change j = Json.ofFloatText text
      cases h with
      | float finite read small =>
          simp only [Json.ofFloatText, read, Number.ofFloat?_eq finite]
      | @largeFloat _ n read large =>
          have range := Binary.isFinite_ofDecimal_iff n.negative n.decimal
          simp only [Json.ofFloatText, read, Number.ofFloat?,
            dif_neg fun finite => range.mp finite large]
  | object o => exact objects o (List.mem_singleton_self o) j h
  | objects os =>
      cases h with
      | objects items =>
          rw [jsonOf_objects, eq_map_of_forall₂ items objects]
  | list items ih =>
      rw [Value.refs_list] at objects
      cases h with
      | list related =>
          rw [jsonOf_list]
          refine congrArg Json.array (eq_map_of_forall₂ related fun v hv k mirrors => ?_)
          exact ih v hv mirrors fun o ho => objects o (List.mem_flatMap_of_mem hv ho)

/-- Nothing else mirrors an object than its JSON, as long as no cycle can be reached from it. -/
theorem eq_jsonOf_object (clear : s.Clear trail o) :
    ∀ j, s.Mirrors bindings (.object o) j → j = s.jsonOf bindings (.object o) := by
  refine clear.induct fun trail o clear ih => ?_
  intro j h
  cases h with
  | @object _ members sorted names values =>
      -- both sides have the last field with a name, so a member is the JSON of its entry
      have value {name : String} {v : Value ObjectId} {k : Json}
          (entry : ⟨name, v⟩ ∈ NameMap.ofEntries (s.fields o)) (member : ⟨name, k⟩ ∈ members) :
          k = s.jsonOf bindings v := by
        have found := NameMap.find?_of_mem (NameMap.sorted_ofEntries _) entry
        obtain ⟨before, after, split, last⟩ := NameMap.find?_ofEntries_eq_some_iff.mp found
        have field : ⟨name, v⟩ ∈ s.fields o :=
          split ▸ List.mem_append_right before (List.mem_cons_self ..)
        refine (values name k before v after member split last).eq_jsonOf fun p hp k inner => ?_
        have held := mem_objectRefs field hp
        exact ih p held ((clear_iff.mp clear).2 p held) k inner
      rw [jsonOf_object bindings (clear.mono (List.nil_subset trail))]
      refine congrArg Json.object (NameMap.ext_of_sorted sorted
        (NameMap.sorted_map _ (NameMap.sorted_ofEntries _)) fun ⟨name, j⟩ => ?_)
      rw [List.mem_map]
      constructor
      · intro member
        have named := (names name).mp (List.mem_map_of_mem member)
        obtain ⟨v, found⟩ := Option.isSome_iff_exists.mp
          (Entry.isSome_find?_iff.mpr (NameMap.mem_names_ofEntries_iff.mpr named))
        obtain ⟨before, after, kept, -⟩ := Entry.find?_eq_some_iff.mp found
        have entry : ⟨name, v⟩ ∈ NameMap.ofEntries (s.fields o) :=
          kept ▸ List.mem_append_right before (List.mem_cons_self ..)
        obtain rfl := value entry member
        exact ⟨_, entry, rfl⟩
      · rintro ⟨⟨name, v⟩, entry, ⟨⟩⟩
        have named := NameMap.mem_names_ofEntries_iff.mp (List.mem_map_of_mem entry)
        obtain ⟨⟨name, j⟩, member, ⟨⟩⟩ := List.mem_map.mp ((names _).mpr named)
        exact value entry member ▸ member

end Uniqueness

theorem binding_eq_null_iff {name : String} :
    binding bindings name = .null ↔
      bindings.bind (Entry.find? name) = none ∨ bindings.bind (Entry.find? name) = some .null := by
  rw [binding]
  cases bindings.bind (Entry.find? name) <;> simp

/-- Where the JSON of a part is null. -/
theorem Mirrors.null_iff {v : Value ObjectId} {j : Json} (h : s.Mirrors bindings v j) :
    j = .null ↔ v = .null ∨
      (∃ name, v = .var name ∧ (bindings.bind (Entry.find? name) = none ∨
        bindings.bind (Entry.find? name) = some .null)) ∨
      ∃ text n, v = .float text ∧ FloatText.ofText? text = some (.number n) ∧ n.OutOfRange := by
  cases h with
  | null => simp
  | var name => simp [binding_eq_null_iff]
  | largeFloat read large => simp [read, large]
  | float finite read small => simp [read, small]
  | _ => simp

/-- The JSON of a value from which no cycle can be reached mirrors the value, and no other JSON does,
if all numbers in it have the form of numbers. It is null where the value is null, where a variable
has no value or is bound to null, and where a float is out of range; and nowhere else. -/
theorem json_mirrors_its_value (s : Store) (v : Value ObjectId) (bindings : Option Bindings)
    (acyclic : ∀ o, s.NodeReaches (.value v) o → ¬ s.OnCycle o) (numerals : v.HasNumerals)
    (below : ∀ o, s.NodeReaches (.value v) o → ∀ f ∈ s.fields o, f.value.HasNumerals) :
    ∃ j, s.nodeJson? bindings [] (.value v) = some (.ok j) ∧
      (∀ k, s.Mirrors bindings v k ↔ k = j) ∧
      ∀ w k, s.Mirrors bindings w k → (k = .null ↔ w = .null ∨
        (∃ name, w = .var name ∧ (bindings.bind (Entry.find? name) = none ∨
          bindings.bind (Entry.find? name) = some .null)) ∨
        ∃ text n, w = .float text ∧ FloatText.ofText? text = some (.number n) ∧
          n.OutOfRange) := by
  have reaches (o p : ObjectId) (ho : o ∈ v.refs) (reached : s.Reaches o p) :
      s.NodeReaches (.value v) p := ⟨o, (refs_value v).symm ▸ ho, reached⟩
  have clear : ∀ o ∈ v.refs, s.Clear [] o := fun o ho p reached =>
    ⟨List.not_mem_nil, acyclic p (reaches o p ho reached)⟩
  have mirrored : s.Mirrors bindings v (s.jsonOf bindings v) :=
    mirrors_value v numerals fun o ho =>
      mirrors_object (clear o ho) fun p reached => below p (reaches o p ho reached)
  refine ⟨s.jsonOf bindings v, ?_, fun k => ⟨fun mirrors => ?_, fun same => same ▸ mirrored⟩,
    fun w k mirrors => mirrors.null_iff⟩
  · rw [nodeJson?, valueJson_of_clear bindings clear]
  · exact mirrors.eq_jsonOf fun o ho => eq_jsonOf_object (clear o ho)

theorem isFloat_large : Grammar.IsFloat "1e400" :=
  ⟨['1'], [], ['e', '4', '0', '0'], rfl, ⟨[], ['1'], rfl, .inl rfl, by decide, .inr (by decide)⟩,
    .inl rfl, .inr ⟨'e', [], ['4', '0', '0'], rfl, .inl rfl, .inl rfl, by decide⟩, by decide⟩

theorem ofText?_large :
    FloatText.ofText? "1e400" = some (.number ⟨false, ['1'], [], 400, false⟩) := by
  decide +kernel

/-- An object with a float that is out of range, and with a variable that has no value. -/
def measuredStore : Store :=
  ⟨#[[⟨"size", .float "1e400"⟩, ⟨"parts", .list [.bytes [1, 2], .var "x"]⟩]]⟩

theorem measuredStore_is_mirrored :
    (∀ o, measuredStore.NodeReaches (.value (.objects [⟨0⟩])) o → ¬ measuredStore.OnCycle o) ∧
    (∀ o, measuredStore.NodeReaches (.value (.objects [⟨0⟩])) o →
      ∀ f ∈ measuredStore.fields o, f.value.HasNumerals) ∧
    ∃ members, measuredStore.nodeJson? none [] (.value (.objects [⟨0⟩])) =
        some (.ok (.array [.object members])) ∧
      NameMap.Sorted members ∧ ⟨"size", .null⟩ ∈ members := by
  have acyclic : ∀ o, measuredStore.NodeReaches (.value (.objects [⟨0⟩])) o →
      ¬ measuredStore.OnCycle o := fun o reached =>
    ((visitAll_refs_eq_none_iff _ [] _).mp (by decide +kernel) o reached).2
  have below : ∀ o, measuredStore.NodeReaches (.value (.objects [⟨0⟩])) o →
      ∀ f ∈ measuredStore.fields o, f.value.HasNumerals := by
    rintro ⟨_ | n⟩ - f held
    · rcases List.mem_cons.mp held with rfl | held
      · exact isFloat_large
      · cases List.mem_singleton.mp held
        exact ⟨trivial, trivial, trivial⟩
    · cases held
  obtain ⟨j, json, only, null⟩ :=
    json_mirrors_its_value measuredStore (.objects [⟨0⟩]) none acyclic trivial below
  have mirrors := (only j).mpr rfl
  refine ⟨acyclic, below, ?_⟩
  cases mirrors with
  | objects items =>
      cases items with
      | cons first others =>
          cases others
          cases first with
          | object sorted names values =>
              refine ⟨_, json, sorted, ?_⟩
              obtain ⟨⟨name, k⟩, member, named⟩ :=
                List.mem_map.mp ((names "size").mpr (List.mem_cons_self ..))
              obtain rfl : name = "size" := named
              have size := values "size" k [] (.float "1e400") _ member rfl (by decide)
              obtain rfl : k = .null := (null _ _ size).mpr
                (.inr (.inr ⟨_, _, rfl, ofText?_large, by decide +kernel⟩))
              exact member

/-- A float may be out of range although it has the form of one, and becomes null then. -/
theorem largeFloat_becomes_null :
    Grammar.IsFloat "1e400" ∧ (∀ o, ¬ Store.empty.NodeReaches (.value (.float "1e400")) o) ∧
      Store.empty.nodeJson? none [] (.value (.float "1e400")) = some (.ok .null) := by
  have isolated (o : ObjectId) : ¬ Store.empty.NodeReaches (.value (.float "1e400")) o := by
    rintro ⟨r, held, -⟩
    cases held
  refine ⟨isFloat_large, isolated, ?_⟩
  rw [nodeJson?, valueJson, Value.toJson, Json.ofFloatText, ofText?_large]
  rfl

end Store

end QueryDoc
