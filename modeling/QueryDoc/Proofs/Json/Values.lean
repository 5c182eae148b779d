import QueryDoc.Proofs.Creation
import QueryDoc.Proofs.Json.Number

/-!
JSON values as values of a store, and back. Every JSON object becomes a new object of the store, and
refers to older ones only, so the way back meets no object twice. It gives the same JSON value, but
for the sign of zero.
-/

namespace QueryDoc.Store

variable {s t : Store} {items : List Json} {members : List (Entry Json)}

/-- The value made of a JSON value comes back, in every store that still has its objects and inside
of any other objects. -/
def ComesBack (j : Json) : Prop :=
  ∀ (s t : Store) (bindings : Option Bindings) (trail : Trail), (s.ofJson j).1.Extends t →
    (∀ o ∈ trail, ¬ (s.ofJson j).1.Has o) →
    t.valueJson bindings trail (s.ofJson j).2 = .ok (j.mapNumbers Number.unsignedZero)

theorem extends_ofJsonItems (s : Store) (items : List Json) :
    s.Extends (s.ofJsonItems items).1 :=
  (createsAll_ofJsonItems (fun j _ => createsAll_ofJson j) s).1.extends

theorem extends_ofJsonMembers (s : Store) (members : List (Entry Json)) :
    s.Extends (s.ofJsonMembers members).1 :=
  (createsAll_ofJsonMembers (fun m _ => createsAll_ofJson m.value) s).1.extends

theorem itemsJson_ofJsonItems (h : ∀ j ∈ items, ComesBack j) (s t : Store)
    (bindings : Option Bindings) (trail : Trail) (later : (s.ofJsonItems items).1.Extends t)
    (others : ∀ o ∈ trail, ¬ (s.ofJsonItems items).1.Has o) :
    Value.itemsJson (t.objectJson bindings trail) bindings (s.ofJsonItems items).2 =
      .ok (items.map (Json.mapNumbers Number.unsignedZero)) := by
  induction items generalizing s with
  | nil => rfl
  | cons j items ih =>
      have grows := extends_ofJsonItems (s.ofJson j).1 items
      have first : Value.toJson (t.objectJson bindings trail) bindings (s.ofJson j).2 =
          .ok (j.mapNumbers Number.unsignedZero) :=
        h j (List.mem_cons_self ..) s t bindings trail (grows.trans later)
          fun o ho has => others o ho (grows o has).1
      have rest := ih (fun k hk => h k (List.mem_cons_of_mem j hk)) (s.ofJson j).1 later others
      rw [ofJsonItems, Value.itemsJson, first, rest]
      rfl

theorem entriesJson_ofJsonMembers (h : ∀ m ∈ members, ComesBack m.value) (s t : Store)
    (bindings : Option Bindings) (trail : Trail) (later : (s.ofJsonMembers members).1.Extends t)
    (others : ∀ o ∈ trail, ¬ (s.ofJsonMembers members).1.Has o) :
    Value.entriesJson (t.objectJson bindings trail) bindings (s.ofJsonMembers members).2 =
      .ok (members.map (Entry.map (Json.mapNumbers Number.unsignedZero))) := by
  induction members generalizing s with
  | nil => rfl
  | cons m members ih =>
      have grows := extends_ofJsonMembers (s.ofJson m.value).1 members
      have first : Value.toJson (t.objectJson bindings trail) bindings (s.ofJson m.value).2 =
          .ok (m.value.mapNumbers Number.unsignedZero) :=
        h m (List.mem_cons_self ..) s t bindings trail (grows.trans later)
          fun o ho has => others o ho (grows o has).1
      have rest := ih (fun n hn => h n (List.mem_cons_of_mem m hn)) (s.ofJson m.value).1 later
        others
      rw [ofJsonMembers, Value.entriesJson, first, rest]
      rfl

section Created

variable {fields : List InputField} {trail : Trail}

/-- A new object is older than none. -/
theorem not_has_of_mem_created (others : ∀ o ∈ trail, ¬ (s.create fields).1.Has o) :
    ∀ o ∈ (s.create fields).2 :: trail, ¬ s.Has o := by
  intro o ho has
  rcases List.mem_cons.mp ho with rfl | inside
  · exact not_has_created has
  · exact others o inside (has_create_iff.mpr (.inl has))

/-- A new object stands on no trail of older objects. -/
theorem objectJson_created {bindings : Option Bindings} {entries : List (Entry Json)}
    (later : (s.create fields).1.Extends t) (others : ∀ o ∈ trail, ¬ (s.create fields).1.Has o)
    (converted : Value.entriesJson (t.objectJson bindings ((s.create fields).2 :: trail)) bindings
      fields = .ok entries) :
    t.objectJson bindings trail (s.create fields).2 = .ok (.ofEntries entries) := by
  have created : (s.create fields).1.Has (s.create fields).2 := has_create_iff.mpr (.inr rfl)
  have fresh : (s.create fields).2 ∉ trail := fun inside => others _ inside created
  have content : t.fields (s.create fields).2 = fields :=
    (later _ created).2.trans (fields_create_self s fields)
  rw [objectJson_eq, if_neg fresh, content, converted]

end Created

theorem comesBack_object (sorted : NameMap.Sorted members)
    (h : ∀ m ∈ members, ComesBack m.value) : ComesBack (.object members) := by
  intro s t bindings trail later others
  have converted := entriesJson_ofJsonMembers h s t bindings _ (extends_create.trans later)
    (not_has_of_mem_created others)
  have sorted' := NameMap.sorted_map (Json.mapNumbers Number.unsignedZero) sorted
  have object := objectJson_created later others converted
  rw [Json.ofEntries, NameMap.ofEntries_of_sorted sorted'] at object
  rw [Json.mapNumbers, Json.mapMembers_eq]
  exact object

theorem comesBack (j : Json) (canonical : j.Canonical) : ComesBack j := by
  induction j using Json.induct with
  | null | bool _ | string _ => exact fun _ _ _ _ _ _ => rfl
  | number n =>
      intro s t bindings trail _ _
      cases n with
      | int n inRange => exact congrArg Except.ok (Json.ofIntText_integerText inRange)
      | float x finite => exact congrArg Except.ok (Json.ofFloatText_floatText x finite)
  | array items ih =>
      intro s t bindings trail later others
      rw [Json.Canonical, Json.canonicalItems_iff] at canonical
      have items := itemsJson_ofJsonItems (fun j hj => ih j hj (canonical j hj)) s t bindings trail
        later others
      rw [ofJson, valueJson, Value.toJson, Json.mapNumbers, Json.mapItems_eq]
      simp only [items]
      rfl
  | object members ih =>
      rw [Json.Canonical, Json.canonicalMembers_iff] at canonical
      exact comesBack_object canonical.1 fun m hm => ih m hm (canonical.2 m hm)

/-- Whatever a store holds and whatever variables are bound to, a JSON value comes back, with zeros
that have lost their sign. So it comes back as it was if and only if no zero in it has one. -/
theorem json_comes_back_but_for_negative_zeros (s : Store) (bindings : Option Bindings) (j : Json)
    (canonical : j.Canonical) :
    (s.ofJson j).1.valueJson bindings [] (s.ofJson j).2 =
        .ok (j.mapNumbers Number.unsignedZero) ∧
      ((s.ofJson j).1.valueJson bindings [] (s.ofJson j).2 = .ok j ↔
        ∀ x finite, .float x finite ∈ j.numbers → ¬ (x.negative = true ∧ x.magnitude = 0)) := by
  have back := comesBack j canonical s _ bindings [] (.refl _) nofun
  refine ⟨back, ?_⟩
  rw [back, Except.ok.injEq, Json.mapNumbers_eq_self_iff]
  constructor
  · exact fun same x finite hx => Number.unsignedZero_float_iff.mp (same _ hx)
  · intro signs n hn
    cases n with
    | int n inRange => rfl
    | float x finite => exact Number.unsignedZero_float_iff.mpr (signs x finite hn)

/-- The greatest integer of 64 bits and a float in a list, and a text that looks like a variable. -/
def mixedJson : Json :=
  .object [⟨"list", .array [.number (.int 18446744073709551615 (by decide)),
    .number (.float ⟨false, 4612811918334230528, by decide⟩ (by decide))]⟩, ⟨"text", .string "$v"⟩]

theorem mixedJson_comes_back :
    mixedJson.Canonical ∧
    ((⟨#[[⟨"self", .object ⟨0⟩⟩]]⟩ : Store).ofJson mixedJson).1.valueJson (some []) []
      (.object ⟨1⟩) = .ok mixedJson := by
  have canonical : mixedJson.Canonical := by
    rw [mixedJson, Json.Canonical]
    refine ⟨List.pairwise_pair.mpr (by decide : "list" < "text"), ?_⟩
    simp [Json.Canonical, Json.CanonicalItems, Json.CanonicalMembers]
  refine ⟨canonical, (json_comes_back_but_for_negative_zeros _ _ mixedJson canonical).2.mpr ?_⟩
  intro x finite hx
  simp [mixedJson, Json.numbers, Json.itemNumbers, Json.memberNumbers] at hx
  simp [hx]

def negativeZero : Json := .number (.float ⟨true, 0, by decide⟩ (by decide))

/-- Negative zero is the one number that does not come back. -/
theorem negativeZero_loses_its_sign :
    negativeZero.Canonical ∧
    (Store.empty.ofJson negativeZero).1.valueJson none [] (Store.empty.ofJson negativeZero).2 =
      .ok (.number (.float ⟨false, 0, by decide⟩ (by decide))) ∧
    (Store.empty.ofJson negativeZero).1.valueJson none [] (Store.empty.ofJson negativeZero).2 ≠
      .ok negativeZero := by
  have back := comesBack negativeZero trivial .empty _ none [] (.refl _) nofun
  refine ⟨trivial, back, ?_⟩
  rw [back]
  intro same
  simp [negativeZero, Json.mapNumbers, Number.unsignedZero, Binary.unsignedZero] at same

end QueryDoc.Store
