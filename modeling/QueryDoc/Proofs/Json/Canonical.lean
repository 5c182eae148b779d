import QueryDoc.Json.Basic

/-!
Induction over JSON values, the numbers in them, and what it means for all objects in a value to be
in order: such an object is the map of its own members.
-/

namespace QueryDoc

namespace NameMap

variable {α : Type}

/-- An entry whose name comes after all others goes to the end. -/
theorem insert_of_forall_lt {e : Entry α} {m : NameMap α} (h : ∀ x ∈ m, x.name < e.name) :
    insert e m = m ++ [e] := by
  induction m with
  | nil => rfl
  | cons x m ih =>
      have before : x.name < e.name := h x (List.mem_cons_self ..)
      rw [insert, if_neg (fun same => String.lt_irrefl _ (same ▸ before)),
        if_neg (String.lt_asymm before), ih fun y hy => h y (List.mem_cons_of_mem x hy),
        List.cons_append]

theorem ofEntries_of_sorted {m : NameMap α} (h : Sorted m) : ofEntries m = m := by
  have step (rest done : NameMap α) (sorted : Sorted (done ++ rest)) :
      rest.foldl (fun m e => insert e m) done = done ++ rest := by
    induction rest generalizing done with
    | nil => simp
    | cons e rest ih =>
        have last : ∀ x ∈ done, x.name < e.name := fun x hx =>
          (List.pairwise_append.mp sorted).2.2 x hx e (List.mem_cons_self ..)
        rw [List.foldl_cons, insert_of_forall_lt last, ih (done ++ [e]) (by simpa using sorted),
          List.append_assoc]
        rfl
  exact step m [] h

theorem sorted_map {β : Type} (g : α → β) {m : NameMap α} (h : Sorted m) :
    Sorted (m.map (Entry.map g)) :=
  List.pairwise_map.mpr h

end NameMap

namespace Json

/-- Induction over JSON values, with a hypothesis for every item and for every member's value. -/
@[elab_as_elim]
theorem induct {motive : Json → Prop} (j : Json) (null : motive .null)
    (bool : ∀ b, motive (.bool b)) (number : ∀ n, motive (.number n))
    (string : ∀ text, motive (.string text))
    (array : ∀ items, (∀ j ∈ items, motive j) → motive (.array items))
    (object : ∀ members, (∀ m ∈ members, motive m.value) → motive (.object members)) :
    motive j :=
  @Json.rec motive (fun items => ∀ j ∈ items, motive j)
    (fun members => ∀ m ∈ members, motive m.value) (fun m => motive m.value)
    null bool number string array object (fun _ h => nomatch h)
    (fun _ _ hj hitems _ h => (List.mem_cons.mp h).elim (fun e => e ▸ hj) (hitems _))
    (fun _ h => nomatch h)
    (fun _ _ hm hmembers _ h => (List.mem_cons.mp h).elim (fun e => e ▸ hm) (hmembers _))
    (fun _ _ h => h) j

theorem canonicalItems_iff {items : List Json} :
    CanonicalItems items ↔ ∀ j ∈ items, j.Canonical := by
  induction items with
  | nil => simp [CanonicalItems]
  | cons j items ih => rw [CanonicalItems, ih, List.forall_mem_cons]

theorem canonicalMembers_iff {members : List (Entry Json)} :
    CanonicalMembers members ↔ ∀ m ∈ members, m.value.Canonical := by
  induction members with
  | nil => simp [CanonicalMembers]
  | cons m members ih => rw [CanonicalMembers, ih, List.forall_mem_cons]

section Numbers

mutual

/-- The numbers in a value, in reading order. -/
def numbers : Json → List Number
  | .number n => [n]
  | .array items => itemNumbers items
  | .object members => memberNumbers members
  | .null | .bool _ | .string _ => []
termination_by structural j => j

def itemNumbers : List Json → List Number
  | [] => []
  | j :: items => j.numbers ++ itemNumbers items
termination_by structural items => items

def memberNumbers : List (Entry Json) → List Number
  | [] => []
  | ⟨_, j⟩ :: members => j.numbers ++ memberNumbers members
termination_by structural members => members

end

variable (g : Number → Number)

mutual

/-- The value with other numbers. -/
def mapNumbers : Json → Json
  | .number n => .number (g n)
  | .array items => .array (mapItems items)
  | .object members => .object (mapMembers members)
  | .null => .null
  | .bool b => .bool b
  | .string text => .string text
termination_by structural j => j

def mapItems : List Json → List Json
  | [] => []
  | j :: items => j.mapNumbers :: mapItems items
termination_by structural items => items

def mapMembers : List (Entry Json) → List (Entry Json)
  | [] => []
  | ⟨name, j⟩ :: members => ⟨name, j.mapNumbers⟩ :: mapMembers members
termination_by structural members => members

end

theorem itemNumbers_eq (items : List Json) : itemNumbers items = items.flatMap numbers := by
  induction items with
  | nil => rfl
  | cons j items ih => rw [itemNumbers, ih, List.flatMap_cons]

theorem memberNumbers_eq (members : List (Entry Json)) :
    memberNumbers members = members.flatMap fun m => m.value.numbers := by
  induction members with
  | nil => rfl
  | cons m members ih => rw [memberNumbers, ih, List.flatMap_cons]

theorem mapItems_eq (items : List Json) : mapItems g items = items.map (mapNumbers g) := by
  induction items with
  | nil => rfl
  | cons j items ih => rw [mapItems, ih, List.map_cons]

theorem mapMembers_eq (members : List (Entry Json)) :
    mapMembers g members = members.map (Entry.map (mapNumbers g)) := by
  induction members with
  | nil => rfl
  | cons m members ih =>
      rw [mapMembers, ih, List.map_cons]
      rfl

/-- A value stays as it is if and only if all its numbers do. -/
theorem mapNumbers_eq_self_iff (j : Json) :
    j.mapNumbers g = j ↔ ∀ n ∈ j.numbers, g n = n := by
  induction j using Json.induct with
  | null | bool _ | string _ => simp [mapNumbers, numbers]
  | number n => simp [mapNumbers, numbers]
  | array items ih =>
      have same : items.map (mapNumbers g) = items ↔ ∀ j ∈ items, j.mapNumbers g = j := by
        simpa using List.map_inj_left (l := items) (f := mapNumbers g) (g := id)
      simp only [mapNumbers, numbers, mapItems_eq, itemNumbers_eq, array.injEq, same,
        List.mem_flatMap]
      constructor
      · rintro h n ⟨j, hj, hn⟩
        exact (ih j hj).mp (h j hj) n hn
      · exact fun h j hj => (ih j hj).mpr fun n hn => h n ⟨j, hj, hn⟩
  | object members ih =>
      have same : members.map (Entry.map (mapNumbers g)) = members ↔
          ∀ m ∈ members, m.value.mapNumbers g = m.value := by
        have entry (m : Entry Json) :
            m.map (mapNumbers g) = m ↔ m.value.mapNumbers g = m.value := by
          cases m
          simp [Entry.map]
        simpa [entry] using
          List.map_inj_left (l := members) (f := Entry.map (mapNumbers g)) (g := id)
      simp only [mapNumbers, numbers, mapMembers_eq, memberNumbers_eq, object.injEq, same,
        List.mem_flatMap]
      constructor
      · rintro h n ⟨m, hm, hn⟩
        exact (ih m hm).mp (h m hm) n hn
      · exact fun h m hm => (ih m hm).mpr fun n hn => h n ⟨m, hm, hn⟩

end Numbers

end Json

end QueryDoc
