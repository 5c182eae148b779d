import QueryDoc.Value

/-!
Input objects live in a store and are named by their place in it, so one object may be part of many
values, and of itself. Creating an object takes a new place; a copy has a field list of its own,
while the objects in its fields stay shared.
-/

namespace QueryDoc

structure ObjectId where
  index : Nat
deriving DecidableEq, Repr

/-- A field of an input object in a store. -/
abbrev InputField := Entry (Value ObjectId)

structure Store where
  objects : Array (List InputField)

namespace Store

def empty : Store := ⟨#[]⟩

/-- Whether the store has the object. -/
def Has (s : Store) (o : ObjectId) : Prop := o.index < s.objects.size

instance (s : Store) (o : ObjectId) : Decidable (s.Has o) :=
  inferInstanceAs (Decidable (_ < _))

/-- The fields of an object in the order in which they were added, none for a missing object. -/
def fields (s : Store) (o : ObjectId) : List InputField := s.objects[o.index]?.getD []

/-- A new object with the given fields. -/
def create (s : Store) (fields : List InputField) : Store × ObjectId :=
  (⟨s.objects.push fields⟩, ⟨s.objects.size⟩)

/-- Adds a field to an object itself, so that it is seen wherever the object is used. -/
def append (s : Store) (o : ObjectId) (f : InputField) : Store :=
  ⟨s.objects.modify o.index (· ++ [f])⟩

/-- A new object with the fields of `o`. -/
def copy (s : Store) (o : ObjectId) : Store × ObjectId := s.create (s.fields o)

/-- A new object with the fields of `o` and one more. -/
def extend (s : Store) (o : ObjectId) (f : InputField) : Store × ObjectId :=
  s.create (s.fields o ++ [f])

theorem fields_of_not_has {s : Store} {o : ObjectId} (h : ¬ s.Has o) : s.fields o = [] := by
  simp [fields, Array.getElem?_eq_none (Nat.le_of_not_lt h)]

theorem fields_create_self (s : Store) (fs : List InputField) :
    (s.create fs).1.fields (s.create fs).2 = fs := by
  simp [create, fields]

theorem fields_create_of_has {s : Store} {o : ObjectId} (fs : List InputField) (h : s.Has o) :
    (s.create fs).1.fields o = s.fields o := by
  simp [create, fields, Array.getElem?_push_lt h, Array.getElem?_eq_getElem h]

theorem fields_append_self {s : Store} {o : ObjectId} (f : InputField) (h : s.Has o) :
    (s.append o f).fields o = s.fields o ++ [f] := by
  simp [append, fields, Array.getElem?_modify, Array.getElem?_eq_getElem h]

theorem fields_append_of_ne {s : Store} {o p : ObjectId} (f : InputField) (h : p ≠ o) :
    (s.append o f).fields p = s.fields p := by
  have : o.index ≠ p.index := fun he => h (by cases o; cases p; exact congrArg _ he.symm)
  simp [append, fields, Array.getElem?_modify, this]

end Store

end QueryDoc
