import QueryDoc.Error
import QueryDoc.Store

/-!
The objects that a walk through a store is inside of. An object that is met again on its own trail
contains itself, and the walk fails there. Since every object of the store can be on the trail only
once, the objects off the trail bound how deep a walk can go.
-/

namespace QueryDoc

/-- The objects that are being visited, the innermost one first. -/
abbrev Trail := List ObjectId

/-- An error, with the objects that had been entered and not left again when it came up. -/
structure Failure where
  error : Error
  entered : Trail := []
deriving DecidableEq

/-- The same failure, seen from around an object that contains it. -/
def Failure.inside (f : Failure) (o : ObjectId) : Failure := { f with entered := f.entered ++ [o] }

namespace Store

def cycleAt (s : Store) (o : ObjectId) : Failure :=
  { error := .cyclicReference (Entry.names (s.fields o)) }

/-- How many objects of the store are off the trail. -/
def unvisited (s : Store) (trail : Trail) : Nat :=
  (List.range s.objects.size).countP fun i => ⟨i⟩ ∉ trail

theorem unvisited_cons_lt {s : Store} {trail : Trail} {o : ObjectId} (h : s.Has o)
    (fresh : o ∉ trail) : s.unvisited (o :: trail) < s.unvisited trail := by
  obtain ⟨before, after, split⟩ := List.append_of_mem (List.mem_range.mpr h)
  have le (l : List Nat) : (l.countP fun i => (⟨i⟩ : ObjectId) ∉ o :: trail) ≤
      l.countP fun i => (⟨i⟩ : ObjectId) ∉ trail :=
    List.countP_mono_left fun i _ => by simp
  have hbefore := le before
  have hafter := le after
  rw [unvisited, unvisited, split, List.countP_append, List.countP_append,
    List.countP_cons_of_neg (by simp), List.countP_cons_of_pos (by simpa using fresh)]
  omega

theorem unvisited_cons_of_not_has {s : Store} {trail : Trail} {o : ObjectId} (h : ¬ s.Has o) :
    s.unvisited (o :: trail) = s.unvisited trail := by
  apply List.countP_congr
  intro i hi
  have : (⟨i⟩ : ObjectId) ≠ o := fun he => h (he ▸ List.mem_range.mp hi)
  simp [this]

end Store

end QueryDoc
