import Mathlib.Data.List.Basic
import QueryDoc.Proofs.References

/-!
A walk that takes objects in full and keeps nothing but how it fails. Writing and conversion to JSON
are both measured by it. The walk fails exactly if something on the trail or on a cycle can be
reached; since it spends an object off the trail at each step down, it also carries inductions over
the objects from which no cycle can be reached.
-/

namespace QueryDoc.Store

variable {s : Store} {trail : Trail} {o : ObjectId} {f : Failure}

/-- How taking an object in full fails inside the objects of the trail, if it does. -/
def visit (s : Store) (trail : Trail) (o : ObjectId) : Option Failure :=
  if o ∈ trail then some (s.cycleAt o)
  else if s.Has o then
    ((s.objectRefs o).findSome? fun p => s.visit (o :: trail) p).map (·.inside o)
  else none
termination_by s.unvisited trail
decreasing_by
  rename_i fresh h
  exact unvisited_cons_lt h fresh

/-- How taking objects one after the other fails, if it does. -/
def visitAll (s : Store) (trail : Trail) (os : List ObjectId) : Option Failure :=
  os.findSome? (s.visit trail)

theorem objectRefs_of_not_has (h : ¬ s.Has o) : s.objectRefs o = [] := by
  rw [objectRefs, fields_of_not_has h, List.flatMap_nil]

theorem visit_eq (s : Store) (trail : Trail) (o : ObjectId) :
    s.visit trail o =
      if o ∈ trail then some (s.cycleAt o)
      else (s.visitAll (o :: trail) (s.objectRefs o)).map (·.inside o) := by
  rw [visit]
  split
  · rfl
  · split
    · rfl
    · rename_i h
      rw [objectRefs_of_not_has h]
      rfl

theorem visitAll_eq_none_iff {os : List ObjectId} :
    s.visitAll trail os = none ↔ ∀ o ∈ os, s.visit trail o = none :=
  List.findSome?_eq_none_iff

/-- Induction along the walk, for a property of the objects on the way and of their trails. -/
@[elab_as_elim]
theorem visit_induct {motive : Trail → ObjectId → Prop} (trail : Trail) (o : ObjectId)
    (met : ∀ trail o, o ∈ trail → motive trail o)
    (enter : ∀ trail o, o ∉ trail → (∀ p ∈ s.objectRefs o, motive (o :: trail) p) →
      motive trail o) :
    motive trail o := by
  induction trail, o using visit.induct s with
  | case1 trail o h => exact met trail o h
  | case2 trail o h _ ih => exact enter trail o h fun p _ => ih p
  | case3 trail o h missing =>
      refine enter trail o h fun p hp => ?_
      rw [objectRefs_of_not_has missing] at hp
      nomatch hp

theorem visit_eq_none_iff (s : Store) (trail : Trail) (o : ObjectId) :
    s.visit trail o = none ↔ s.Clear trail o := by
  induction trail, o using visit_induct (s := s) with
  | met trail o h =>
      rw [visit_eq, if_pos h]
      simp only [reduceCtorEq, false_iff]
      exact fun clear => (clear_iff.mp clear).1 h
  | enter trail o h ih =>
      rw [visit_eq, if_neg h, Option.map_eq_none_iff, visitAll_eq_none_iff, clear_iff]
      constructor
      · exact fun free => ⟨h, fun p hp => (ih p hp).mp (free p hp)⟩
      · exact fun clear p hp => (ih p hp).mpr (clear.2 p hp)

theorem visitAll_eq_none_iff_clear {os : List ObjectId} :
    s.visitAll trail os = none ↔ ∀ o ∈ os, s.Clear trail o := by
  rw [visitAll_eq_none_iff]
  exact forall₂_congr fun o _ => visit_eq_none_iff s trail o

/-- Nothing on the trail and nothing on a cycle is among the objects that a walk visits exactly if
the walk does not fail. -/
theorem visitAll_refs_eq_none_iff (s : Store) (trail : Trail) (n : Node (Value ObjectId)) :
    s.visitAll trail n.refs = none ↔
      ∀ o, s.NodeReaches n o → o ∉ trail ∧ ¬ s.OnCycle o := by
  rw [visitAll_eq_none_iff_clear]
  constructor
  · rintro clear o ⟨r, hr, reached⟩
    exact clear r hr o reached
  · exact clear_of_reaches

/-- The walk fails in one way only, at an object met inside itself. -/
theorem visit_error (s : Store) (trail : Trail) (o : ObjectId) :
    s.visit trail o = some f → ∃ p, f.error = (s.cycleAt p).error := by
  intro failed
  induction trail, o using visit_induct (s := s) generalizing f with
  | met trail o h =>
      rw [visit_eq, if_pos h, Option.some.injEq] at failed
      exact ⟨o, congrArg Failure.error failed.symm⟩
  | enter trail o h ih =>
      rw [visit_eq, if_neg h, Option.map_eq_some_iff] at failed
      obtain ⟨inner, found, rfl⟩ := failed
      obtain ⟨p, hp, failed⟩ := List.exists_of_findSome?_eq_some found
      obtain ⟨q, e⟩ := ih p hp failed
      exact ⟨q, e⟩

theorem visitAll_error {os : List ObjectId} (h : s.visitAll trail os = some f) :
    f.error.kind = .cyclicReference := by
  obtain ⟨o, _, failed⟩ := List.exists_of_findSome?_eq_some h
  obtain ⟨p, e⟩ := visit_error s trail o failed
  rw [e]
  rfl

/-- Induction over the objects from which neither the trail nor a cycle can be reached. -/
@[elab_as_elim]
theorem Clear.induct {motive : Trail → ObjectId → Prop}
    (h : s.Clear trail o)
    (enter : ∀ trail o, s.Clear trail o →
      (∀ p ∈ s.objectRefs o, s.Clear (o :: trail) p → motive (o :: trail) p) → motive trail o) :
    motive trail o := by
  revert h
  induction trail, o using visit_induct (s := s) with
  | met trail o h => exact fun clear => absurd h (clear_iff.mp clear).1
  | enter trail o h ih => exact fun clear => enter trail o clear fun p hp below => ih p hp below

theorem findSome?_congr {α β : Type} {g g' : α → Option β} {as : List α}
    (h : ∀ a ∈ as, g' a = g a) : as.findSome? g' = as.findSome? g := by
  rw [← List.head?_filterMap, ← List.head?_filterMap, List.filterMap_congr h]

theorem findSome?_entered {g g' : ObjectId → Option Failure} {os : List ObjectId}
    (h : ∀ o ∈ os, (g' o).map Failure.entered = (g o).map Failure.entered) :
    (os.findSome? g').map Failure.entered = (os.findSome? g).map Failure.entered := by
  rw [List.map_findSome?, List.map_findSome?]
  exact findSome?_congr h

/-- Where the walk fails is decided by the references between objects alone; the names of fields
show in the error only. -/
theorem visit_entered_congr {s' : Store} (same : s'.objectRefs = s.objectRefs) (trail : Trail)
    (o : ObjectId) :
    (s'.visit trail o).map Failure.entered = (s.visit trail o).map Failure.entered := by
  have inside (o : ObjectId) : Failure.entered ∘ (Failure.inside · o) =
      (· ++ [o]) ∘ Failure.entered := rfl
  induction trail, o using visit_induct (s := s) with
  | met trail o h => simp [visit_eq, h, cycleAt]
  | enter trail o h ih =>
      simp only [visit_eq, if_neg h, Option.map_map, same, inside]
      rw [← Option.map_map, ← Option.map_map]
      exact congrArg _ (findSome?_entered ih)

theorem visitAll_entered_congr {s' : Store} (same : s'.objectRefs = s.objectRefs) (trail : Trail)
    (os : List ObjectId) :
    (s'.visitAll trail os).map Failure.entered = (s.visitAll trail os).map Failure.entered :=
  findSome?_entered fun o _ => visit_entered_congr same trail o

end QueryDoc.Store
