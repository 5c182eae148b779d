import QueryDoc.Proofs.Visit

/-!
Objects without a store. The tree of an object has its fields in order, with a tree of its own for
every object in them, so that two places which share an object have two equal trees. Functions on
trees are given by what they do with the fields of one object. A store has the trees of all objects
from which no cycle can be reached.
-/

namespace QueryDoc

inductive ObjectTree where
  | node (fields : List (Entry (Value ObjectTree)))

namespace ObjectTree

variable {α : Type}

section Fold

variable (f : List (Entry (Value α)) → α)

mutual

/-- The result of `f` on the fields, where its results on the trees in them stand for these. -/
def fold : ObjectTree → α
  | .node fields => f (foldFields fields)
termination_by structural t => t

def foldFields : List (Entry (Value ObjectTree)) → List (Entry (Value α))
  | [] => []
  | ⟨name, v⟩ :: fields => ⟨name, foldValue v⟩ :: foldFields fields
termination_by structural fields => fields

def foldValue : Value ObjectTree → Value α
  | .null => .null
  | .bool b => .bool b
  | .int text => .int text
  | .float text => .float text
  | .string text => .string text
  | .enumerator name => .enumerator name
  | .var name => .var name
  | .bytes content => .bytes content
  | .list items => .list (foldItems items)
  | .objects trees => .objects (foldAll trees)
  | .object tree => .object (fold tree)
termination_by structural v => v

def foldItems : List (Value ObjectTree) → List (Value α)
  | [] => []
  | v :: items => foldValue v :: foldItems items
termination_by structural items => items

def foldAll : List ObjectTree → List α
  | [] => []
  | t :: trees => fold t :: foldAll trees
termination_by structural trees => trees

end

theorem foldAll_eq (trees : List ObjectTree) : foldAll f trees = trees.map (fold f) := by
  induction trees with
  | nil => rfl
  | cons t trees ih => rw [foldAll, ih, List.map_cons]

theorem foldItems_eq (items : List (Value ObjectTree)) :
    foldItems f items = items.map (foldValue f) := by
  induction items with
  | nil => rfl
  | cons v items ih => rw [foldItems, ih, List.map_cons]

theorem foldValue_eq (v : Value ObjectTree) : foldValue f v = v.map (fold f) := by
  induction v using Value.induct with
  | null | bool _ | int _ | float _ | string _ | enumerator _ | var _ | bytes _ | object _ => rfl
  | list items ih =>
      rw [foldValue, foldItems_eq, Value.map_list]
      exact congrArg Value.list (List.map_congr_left ih)
  | objects trees => exact congrArg Value.objects (foldAll_eq f trees)

theorem foldFields_eq (fields : List (Entry (Value ObjectTree))) :
    foldFields f fields = fields.map (Entry.map (Value.map (fold f))) := by
  induction fields with
  | nil => rfl
  | cons e fields ih =>
      rw [foldFields, ih, foldValue_eq]
      rfl

@[simp]
theorem fold_node (fields : List (Entry (Value ObjectTree))) :
    fold f (.node fields) = f (fields.map (Entry.map (Value.map (fold f)))) :=
  congrArg f (foldFields_eq f fields)

end Fold

end ObjectTree

namespace Value

variable {Ref : Type}

mutual

/-- The value with plain lists in the place of bytes and of lists that hold objects only. -/
def plain : Value Ref → Value Ref
  | .bytes content => .list (content.map fun b => .int (Nat.repr b.toNat))
  | .list items => .list (plainItems items)
  | .objects refs => .list (refs.map .object)
  | v => v
termination_by structural v => v

def plainItems : List (Value Ref) → List (Value Ref)
  | [] => []
  | v :: items => v.plain :: plainItems items
termination_by structural items => items

end

theorem plainItems_eq (items : List (Value Ref)) : plainItems items = items.map plain := by
  induction items with
  | nil => rfl
  | cons v items ih => rw [plainItems, ih, List.map_cons]

end Value

/-- The tree with plain lists in it. -/
def ObjectTree.plain : ObjectTree → ObjectTree :=
  fold fun fields => .node (fields.map (Entry.map Value.plain))

namespace Store

variable {s : Store} {trail : Trail} {o : ObjectId}

/-- The tree of an object inside the objects of the trail, which are left without fields. -/
def treeInside (s : Store) (trail : Trail) (o : ObjectId) : ObjectTree :=
  if o ∈ trail then .node []
  else if s.Has o then
    .node ((s.fields o).map (Entry.map (Value.map fun p => s.treeInside (o :: trail) p)))
  else .node []
termination_by s.unvisited trail
decreasing_by
  rename_i fresh h
  exact unvisited_cons_lt h fresh

/-- The tree of an object: its fields, with trees in the place of objects. -/
def tree (s : Store) (o : ObjectId) : ObjectTree := s.treeInside [] o

/-- The tree of an object with these fields, whichever object of the store that is. -/
def treeOfFields (s : Store) (fields : List InputField) : ObjectTree :=
  .node (fields.map (Entry.map (Value.map s.tree)))

theorem treeInside_of_not_mem (fresh : o ∉ trail) :
    s.treeInside trail o =
      .node ((s.fields o).map (Entry.map (Value.map (s.treeInside (o :: trail))))) := by
  rw [treeInside, if_neg fresh]
  split
  · rfl
  · rename_i h
    rw [fields_of_not_has h]
    rfl

/-- Fields keep their form under maps that agree on the objects in them. -/
theorem map_fields_congr {α : Type} {g g' : ObjectId → α} (h : ∀ p ∈ s.objectRefs o, g p = g' p) :
    (s.fields o).map (Entry.map (Value.map g)) = (s.fields o).map (Entry.map (Value.map g')) := by
  apply List.map_congr_left
  intro e he
  rw [Entry.map, Entry.map, Value.map_congr]
  intro p hp
  exact h p (mem_objectRefs he hp)

/-- Trails that keep clear of an object make no difference to its tree. -/
theorem treeInside_eq (h : s.Clear trail o) :
    ∀ trail', s.Clear trail' o → s.treeInside trail o = s.treeInside trail' o := by
  refine h.induct fun trail o clear ih trail' clear' => ?_
  obtain ⟨fresh, below⟩ := clear_iff.mp clear
  obtain ⟨fresh', below'⟩ := clear_iff.mp clear'
  rw [treeInside_of_not_mem fresh, treeInside_of_not_mem fresh']
  refine congrArg ObjectTree.node (map_fields_congr fun p hp => ?_)
  exact ih p hp (below p hp) (o :: trail') (below' p hp)

theorem tree_eq (h : s.Clear trail o) : s.tree o = s.treeOfFields (s.fields o) := by
  have clear : s.Clear [] o := h.mono (List.nil_subset trail)
  obtain ⟨fresh, below⟩ := clear_iff.mp clear
  rw [tree, treeInside_of_not_mem fresh]
  refine congrArg ObjectTree.node (map_fields_congr fun p hp => ?_)
  exact treeInside_eq (below p hp) [] ((below p hp).mono (List.nil_subset _))

/-- A function on trees takes an object to what it makes of the object's fields. -/
theorem fold_tree {α : Type} (f : List (Entry (Value α)) → α) (h : s.Clear trail o) :
    (s.tree o).fold f =
      f ((s.fields o).map (Entry.map (Value.map fun p => (s.tree p).fold f))) := by
  rw [tree_eq h, treeOfFields, ObjectTree.fold_node, List.map_map]
  apply congrArg f
  apply List.map_congr_left
  intro e _
  exact congrArg (Entry.mk e.name) (Value.map_map s.tree (ObjectTree.fold f) e.value)

end Store

end QueryDoc
