import QueryDoc.Proofs.Json.Canonical
import QueryDoc.Proofs.References
import QueryDoc.Value.Json

/-!
New objects. A new object takes a place that no other object refers to, and leaves those that are
there as they are. So a store that only gets new objects has the references that it had and those
of the new objects, and no cycle that it did not have.
-/

namespace QueryDoc

/-- A relation that leads from one more point to others has new chains through this point only. -/
theorem transGen_of_added {α : Type} {r r' : α → α → Prop} {a : α} {added : α → Prop}
    (h : ∀ x y, r' x y → r x y ∨ x = a ∧ added y) {x y : α} (chain : Relation.TransGen r' x y) :
    Relation.TransGen r x y ∨
      Relation.ReflTransGen r x a ∧ ∃ z, added z ∧ Relation.ReflTransGen r z y := by
  induction chain with
  | single step =>
      rcases h _ _ step with old | ⟨rfl, new⟩
      · exact .inl (.single old)
      · exact .inr ⟨.refl, _, new, .refl⟩
  | tail _ step ih =>
      rcases h _ _ step with old | ⟨rfl, new⟩
      · rcases ih with chain | ⟨toA, z, new, fromZ⟩
        · exact .inl (chain.tail old)
        · exact .inr ⟨toA, z, new, fromZ.tail old⟩
      · rcases ih with chain | ⟨toA, -⟩
        · exact .inr ⟨chain.to_reflTransGen, _, new, .refl⟩
        · exact .inr ⟨toA, _, new, .refl⟩

/-- The references in the values of fields. -/
def fieldRefs (fields : List InputField) : List ObjectId := fields.flatMap fun f => f.value.refs

namespace Store

variable {s t u : Store} {o p : ObjectId} {fields : List InputField}

/-- Objects refer to objects of the store only. -/
def Closed (s : Store) : Prop := ∀ o p, s.References o p → s.Has p

/-- All objects are still there, with the same fields. -/
def Extends (s t : Store) : Prop := ∀ o, s.Has o → t.Has o ∧ t.fields o = s.fields o

theorem Extends.refl (s : Store) : s.Extends s := fun _ h => ⟨h, rfl⟩

theorem Extends.trans (h : s.Extends t) (h' : t.Extends u) : s.Extends u := by
  intro o has
  obtain ⟨hast, same⟩ := h o has
  obtain ⟨hasu, same'⟩ := h' o hast
  exact ⟨hasu, same'.trans same⟩

theorem has_create_iff :
    (s.create fields).1.Has o ↔ s.Has o ∨ o = (s.create fields).2 := by
  obtain ⟨i⟩ := o
  simp only [Has, create, Array.size_push, ObjectId.mk.injEq]
  omega

theorem not_has_created : ¬ s.Has (s.create fields).2 := Nat.lt_irrefl _

theorem extends_create : s.Extends (s.create fields).1 :=
  fun _ h => ⟨has_create_iff.mpr (.inl h), fields_create_of_has fields h⟩

theorem has_of_references (h : s.References o p) : s.Has o := by
  apply Decidable.byContradiction
  intro missing
  rw [References, objectRefs, fields_of_not_has missing] at h
  nomatch h

theorem references_create_iff :
    (s.create fields).1.References o p ↔
      s.References o p ∨ o = (s.create fields).2 ∧ p ∈ fieldRefs fields := by
  by_cases new : o = (s.create fields).2
  · have none : ¬ s.References o p := fun h => not_has_created (new ▸ has_of_references h)
    subst new
    simp only [none, false_or, true_and]
    rw [References, objectRefs, fields_create_self, fieldRefs]
  · simp only [new, false_and, or_false]
    by_cases has : s.Has o
    · rw [References, References, objectRefs, objectRefs, fields_create_of_has fields has]
    · have missing : ¬ (s.create fields).1.Has o := by
        simp only [has_create_iff, has, new, or_self, not_false_eq_true]
      rw [References, References, objectRefs, objectRefs, fields_of_not_has has,
        fields_of_not_has missing]

theorem Reaches.has (closed : s.Closed) (h : s.Reaches o p) (has : s.Has o) : s.Has p := by
  induction h with
  | refl => exact has
  | tail _ step _ => exact closed _ _ step

theorem closed_create (closed : s.Closed) (known : ∀ p ∈ fieldRefs fields, s.Has p) :
    (s.create fields).1.Closed := by
  intro o p h
  rcases references_create_iff.mp h with old | ⟨-, hp⟩
  · exact has_create_iff.mpr (.inl (closed o p old))
  · exact has_create_iff.mpr (.inl (known p hp))

/-- A new object is on no cycle, and closes none. -/
theorem onCycle_of_onCycle_create (closed : s.Closed) (known : ∀ p ∈ fieldRefs fields, s.Has p)
    (h : (s.create fields).1.OnCycle o) : s.OnCycle o := by
  have added (x y : ObjectId) : (s.create fields).1.References x y →
      s.References x y ∨ x = (s.create fields).2 ∧ y ∈ fieldRefs fields :=
    references_create_iff.mp
  rcases transGen_of_added added h with old | ⟨toNew, z, hz, back⟩
  · exact old
  · have returns : s.Reaches z (s.create fields).2 := back.trans toNew
    exact absurd (returns.has closed (known z hz)) not_has_created

/-- From one store to another by new objects, each with references to objects that are there. -/
inductive Creates (s : Store) : Store → Prop
  | refl : Creates s s
  | create {t : Store} (fields : List InputField) : Creates s t →
      (∀ p ∈ fieldRefs fields, t.Has p) → Creates s (t.create fields).1

theorem Creates.trans (h : s.Creates t) (h' : t.Creates u) : s.Creates u := by
  induction h' with
  | refl => exact h
  | create fields _ known ih => exact ih.create fields known

theorem Creates.extends (h : s.Creates t) : s.Extends t := by
  induction h with
  | refl => exact .refl s
  | create fields _ _ ih => exact ih.trans extends_create

theorem Creates.closed (h : s.Creates t) (closed : s.Closed) : t.Closed := by
  induction h with
  | refl => exact closed
  | create fields _ known ih => exact closed_create ih known

theorem Creates.onCycle (h : s.Creates t) (closed : s.Closed) (cycle : t.OnCycle o) :
    s.OnCycle o := by
  induction h with
  | refl => exact cycle
  | create fields steps known ih =>
      exact ih (onCycle_of_onCycle_create (steps.closed closed) known cycle)

/-- What the way back from JSON does to a store, and what it leads to. -/
def CreatesAll (s : Store) (result : Store × List ObjectId) : Prop :=
  s.Creates result.1 ∧ ∀ p ∈ result.2, result.1.Has p

/-- One part after the other: what the first leads to is still there after the second. -/
theorem CreatesAll.append {refs refs' : List ObjectId} (h : s.CreatesAll (t, refs))
    (h' : t.CreatesAll (u, refs')) : s.CreatesAll (u, refs ++ refs') := by
  refine ⟨h.1.trans h'.1, fun p hp => ?_⟩
  rcases List.mem_append.mp hp with hp | hp
  · exact (h'.1.extends p (h.2 p hp)).1
  · exact h'.2 p hp

theorem createsAll_ofJsonItems {items : List Json}
    (h : ∀ j ∈ items, ∀ s : Store, s.CreatesAll ((s.ofJson j).1, (s.ofJson j).2.refs)) (s : Store) :
    s.CreatesAll ((s.ofJsonItems items).1, (s.ofJsonItems items).2.flatMap Value.refs) := by
  induction items generalizing s with
  | nil => exact ⟨.refl, nofun⟩
  | cons j items ih =>
      rw [ofJsonItems, List.flatMap_cons]
      exact (h j (List.mem_cons_self ..) s).append
        (ih (fun k hk => h k (List.mem_cons_of_mem j hk)) _)

theorem createsAll_ofJsonMembers {members : List (Entry Json)}
    (h : ∀ m ∈ members, ∀ s : Store,
      s.CreatesAll ((s.ofJson m.value).1, (s.ofJson m.value).2.refs)) (s : Store) :
    s.CreatesAll ((s.ofJsonMembers members).1, fieldRefs (s.ofJsonMembers members).2) := by
  induction members generalizing s with
  | nil => exact ⟨.refl, nofun⟩
  | cons m members ih =>
      rw [ofJsonMembers, fieldRefs, List.flatMap_cons]
      exact (h m (List.mem_cons_self ..) s).append
        (ih (fun k hk => h k (List.mem_cons_of_mem m hk)) _)

theorem createsAll_ofJson (j : Json) (s : Store) :
    s.CreatesAll ((s.ofJson j).1, (s.ofJson j).2.refs) := by
  induction j using Json.induct generalizing s with
  | null | bool _ | string _ => exact ⟨.refl, nofun⟩
  | number n => cases n <;> exact ⟨.refl, nofun⟩
  | array items ih =>
      rw [ofJson, Value.refs_list]
      exact createsAll_ofJsonItems ih s
  | object members ih =>
      obtain ⟨steps, known⟩ := createsAll_ofJsonMembers ih s
      rw [ofJson]
      refine ⟨steps.create _ known, fun p hp => ?_⟩
      rw [List.mem_singleton.mp hp]
      exact has_create_iff.mpr (.inr rfl)

end Store

end QueryDoc
