import QueryDoc.Proofs.Json.Canonical
import QueryDoc.Proofs.Json.Number

/-!
Equality of JSON values. It does not tell the two zeros apart, and nothing else is lost when zeros
lose their signs. Other numbers in a value leave its form as it is, down to the order of the members
and to the members that are kept where several have one name.
-/

namespace QueryDoc

namespace NameMap

variable {α β : Type} (f : α → β)

theorem insert_map (e : Entry α) (m : NameMap α) :
    insert (e.map f) (m.map (Entry.map f)) = (insert e m).map (Entry.map f) := by
  induction m with
  | nil => rfl
  | cons x m ih =>
      rw [List.map_cons, insert, insert, ih, apply_ite (List.map (Entry.map f)),
        apply_ite (List.map (Entry.map f))]
      rfl

theorem ofEntries_map (es : List (Entry α)) :
    ofEntries (es.map (Entry.map f)) = (ofEntries es).map (Entry.map f) := by
  have step (m : NameMap α) :
      (es.map (Entry.map f)).foldl (fun m e => insert e m) (m.map (Entry.map f)) =
        (es.foldl (fun m e => insert e m) m).map (Entry.map f) := by
    induction es generalizing m with
    | nil => rfl
    | cons e es ih => rw [List.map_cons, List.foldl_cons, insert_map, ih, List.foldl_cons]
  exact step []

theorem find?_map (name : String) (es : List (Entry α)) :
    Entry.find? name (es.map (Entry.map f)) = (Entry.find? name es).map f := by
  induction es with
  | nil => rfl
  | cons e es ih =>
      rw [List.map_cons, Entry.find?, Entry.find?, ih, apply_ite (Option.map f)]
      rfl

end NameMap

namespace Json

variable (g : Number → Number)

theorem mapNumbers_array (items : List Json) :
    (array items).mapNumbers g = .array (items.map (mapNumbers g)) := by
  rw [mapNumbers, mapItems_eq]

theorem mapNumbers_ofEntries (members : List (Entry Json)) :
    (ofEntries members).mapNumbers g = ofEntries (members.map (Entry.map (mapNumbers g))) := by
  rw [ofEntries, mapNumbers, mapMembers_eq, ofEntries, NameMap.ofEntries_map]

@[simp]
theorem mapNumbers_id (j : Json) : j.mapNumbers id = j :=
  (mapNumbers_eq_self_iff id j).mpr fun _ _ => rfl

theorem mapNumbers_mapNumbers (g' : Number → Number) (j : Json) :
    (j.mapNumbers g).mapNumbers g' = j.mapNumbers (g' ∘ g) := by
  induction j using induct with
  | null | bool _ | string _ | number _ => rfl
  | array items ih =>
      rw [mapNumbers_array, mapNumbers_array, mapNumbers_array, List.map_map]
      exact congrArg array (List.map_congr_left ih)
  | object members ih =>
      rw [mapNumbers, mapNumbers, mapNumbers, mapMembers_eq, mapMembers_eq, mapMembers_eq,
        List.map_map]
      exact congrArg object (List.map_congr_left fun m hm => congrArg (Entry.mk m.name) (ih m hm))

theorem unsignedZero_comp_self :
    Number.unsignedZero ∘ Number.unsignedZero = Number.unsignedZero := by
  funext n
  cases n with
  | int n _ => rfl
  | float x _ => simp [Number.unsignedZero, Binary.unsignedZero]

/-- Taking the signs of zeros away once is enough. -/
theorem mapNumbers_unsignedZero_twice (j : Json) :
    (j.mapNumbers Number.unsignedZero).mapNumbers Number.unsignedZero =
      j.mapNumbers Number.unsignedZero := by
  rw [mapNumbers_mapNumbers, unsignedZero_comp_self]

theorem sameNumber_iff {n m : Number} :
    n.same m = true ↔ n.unsignedZero = m.unsignedZero := by
  cases n with
  | int n _ => cases m <;> simp [Number.same, Number.unsignedZero]
  | float x _ =>
      cases m with
      | int m _ => simp [Number.same, Number.unsignedZero]
      | float y _ =>
          obtain ⟨negative, magnitude, _⟩ := x
          obtain ⟨negative', magnitude', _⟩ := y
          rw [Number.same, Binary.sameNumber, Number.unsignedZero, Number.unsignedZero,
            Number.float.injEq, Binary.unsignedZero, Binary.unsignedZero, Binary.mk.injEq]
          by_cases same : magnitude = magnitude'
          · subst same
            by_cases zero : magnitude = 0 <;> simp [zero]
          · simp [same]

theorem sameItems_iff {items others : List Json}
    (h : ∀ j ∈ items, ∀ k, j.same k = true ↔
      j.mapNumbers Number.unsignedZero = k.mapNumbers Number.unsignedZero) :
    sameItems items others = true ↔
      items.map (mapNumbers Number.unsignedZero) = others.map (mapNumbers Number.unsignedZero) := by
  induction items generalizing others with
  | nil => cases others <;> simp [sameItems]
  | cons j items ih =>
      rw [List.forall_mem_cons] at h
      cases others with
      | nil => simp [sameItems]
      | cons k others => simp [sameItems, h.1 k, ih h.2]

theorem sameMembers_iff {members others : List (Entry Json)}
    (h : ∀ m ∈ members, ∀ k, m.value.same k = true ↔
      m.value.mapNumbers Number.unsignedZero = k.mapNumbers Number.unsignedZero) :
    sameMembers members others = true ↔
      members.map (Entry.map (mapNumbers Number.unsignedZero)) =
        others.map (Entry.map (mapNumbers Number.unsignedZero)) := by
  induction members generalizing others with
  | nil => cases others <;> simp [sameMembers]
  | cons m members ih =>
      rw [List.forall_mem_cons] at h
      cases others with
      | nil => simp [sameMembers]
      | cons n others => simp [sameMembers, h.1 n.value, ih h.2, Entry.map]

/-- JSON values are equal exactly if they differ in nothing but the signs of zeros. -/
theorem same_iff (j k : Json) :
    j.same k = true ↔ j.mapNumbers Number.unsignedZero = k.mapNumbers Number.unsignedZero := by
  induction j using induct generalizing k with
  | array items ih =>
      cases k with
      | array others => rw [same, sameItems_iff ih, mapNumbers_array, mapNumbers_array, array.injEq]
      | _ => simp [same, mapNumbers]
  | object members ih =>
      cases k with
      | object others =>
          rw [same, sameMembers_iff ih, mapNumbers, mapNumbers, mapMembers_eq, mapMembers_eq,
            object.injEq]
      | _ => simp [same, mapNumbers]
  | number n => cases k <;> simp [same, mapNumbers, sameNumber_iff]
  | _ => cases k <;> simp [same, mapNumbers]

end Json

end QueryDoc
