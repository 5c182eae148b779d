import QueryDoc.Proofs.Frame
import QueryDoc.Proofs.History
import QueryDoc.Proofs.Replacing

/-!
What a new field of an object changes. The field is seen wherever the object stands, and there only:
the unfolding of a part that leads to the object has the same trees around the places of the object,
and at each of these places the tree of the object with one more field. All else has the outcomes
that it had before, and the making of objects does not change the outcomes of anything.
-/

namespace QueryDoc

def ObjectTree.addField (e : Entry (Value ObjectTree)) : ObjectTree → ObjectTree
  | .node fields => .node (fields ++ [e])

namespace Store

variable {s : Store} {trail : Trail} {o p q : ObjectId} {f : InputField} {t : ObjectTree}

/-- The tree of an object inside the objects of the trail, with `t` wherever `o` stands. -/
def treeWithInside (s : Store) (o : ObjectId) (t : ObjectTree) (trail : Trail) (p : ObjectId) :
    ObjectTree :=
  if p = o then t
  else if p ∈ trail then .node []
  else if s.Has p then
    .node ((s.fields p).map (Entry.map (Value.map fun q => s.treeWithInside o t (p :: trail) q)))
  else .node []
termination_by s.unvisited trail
decreasing_by
  rename_i fresh h
  exact unvisited_cons_lt h fresh

/-- The tree of an object, with `t` wherever `o` stands. -/
def treeWith (s : Store) (o : ObjectId) (t : ObjectTree) (p : ObjectId) : ObjectTree :=
  s.treeWithInside o t [] p

theorem treeWith_self (s : Store) (o : ObjectId) (t : ObjectTree) : s.treeWith o t o = t := by
  rw [treeWith, treeWithInside, if_pos rfl]

theorem treeWithInside_of_ne (ne : p ≠ o) (fresh : p ∉ trail) :
    s.treeWithInside o t trail p =
      .node ((s.fields p).map (Entry.map (Value.map (s.treeWithInside o t (p :: trail))))) := by
  rw [treeWithInside, if_neg ne, if_neg fresh]
  split
  · rfl
  · rename_i h
    rw [fields_of_not_has h]
    rfl

/-- Trails that keep clear of an object make no difference to its tree. -/
theorem treeWithInside_eq (h : s.Clear trail p) :
    ∀ trail', s.Clear trail' p →
      s.treeWithInside o t trail p = s.treeWithInside o t trail' p := by
  refine h.induct fun trail p clear ih trail' clear' => ?_
  by_cases same : p = o
  · rw [treeWithInside, treeWithInside, if_pos same, if_pos same]
  · obtain ⟨fresh, below⟩ := clear_iff.mp clear
    obtain ⟨fresh', below'⟩ := clear_iff.mp clear'
    rw [treeWithInside_of_ne same fresh, treeWithInside_of_ne same fresh']
    refine congrArg ObjectTree.node (map_fields_congr fun q hq => ?_)
    exact ih q hq (below q hq) (p :: trail') (below' q hq)

theorem treeWith_of_ne (ne : p ≠ o) (h : s.Clear [] p) :
    s.treeWith o t p = .node ((s.fields p).map (Entry.map (Value.map (s.treeWith o t)))) := by
  obtain ⟨fresh, below⟩ := clear_iff.mp h
  rw [treeWith, treeWithInside_of_ne ne fresh]
  refine congrArg ObjectTree.node (map_fields_congr fun q hq => ?_)
  exact treeWithInside_eq (below q hq) [] ((below q hq).mono (List.nil_subset _))

/-- Nothing but the trees with `t` for `o` has `t` for `o` and is made up of its fields' trees. -/
theorem treeWith_unique {tree : ObjectId → ObjectTree} (clear : s.Clear trail p)
    (hole : s.Reaches p o → tree o = t)
    (around : ∀ q, s.Reaches p q → q ≠ o →
      tree q = .node ((s.fields q).map (Entry.map (Value.map tree)))) :
    tree p = s.treeWith o t p := by
  -- The walk follows references and ends at `o`, where the tree is `t` whatever the fields are.
  revert hole around
  refine clear.induct fun trail p clear ih hole around => ?_
  by_cases same : p = o
  · subst same
    rw [treeWith_self]
    exact hole .refl
  · rw [around p .refl same, treeWith_of_ne same (clear.mono (List.nil_subset trail))]
    refine congrArg ObjectTree.node (map_fields_congr fun q hq => ?_)
    exact ih q hq ((clear_iff.mp clear).2 q hq) (fun reached => hole (.head hq reached))
      fun r reached => around r (.head hq reached)

theorem tree_eq_treeWith (clear : s.Clear [] p) : s.tree p = s.treeWith o (s.tree o) p := by
  refine treeWith_unique clear (fun _ => rfl) fun q reached _ => ?_
  exact tree_eq fun r hr => clear r (reached.trans hr)

theorem References.append (has : s.Has o) (h : s.References p q) :
    (s.append o f).References p q :=
  (references_append_iff has).mpr (.inl h)

theorem Reaches.append (has : s.Has o) (h : s.Reaches p q) : (s.append o f).Reaches p q :=
  Relation.ReflTransGen.mono (fun _ _ => .append has) _ _ h

theorem Clear.of_append (has : s.Has o) (h : (s.append o f).Clear trail p) : s.Clear trail p := by
  intro q hq
  obtain ⟨off, acyclic⟩ := h q (hq.append has)
  exact ⟨off, fun cycle => acyclic (Relation.TransGen.mono (fun _ _ => .append has) _ _ cycle)⟩

/-- An object that is on no cycle after it was given a field has its former tree, with the field. -/
theorem tree_append_self (has : s.Has o) (clear : (s.append o f).Clear [] o) :
    (s.append o f).tree o = (s.tree o).addField (f.map (Value.map s.tree)) := by
  have before : s.Clear [] o := clear.of_append has
  -- An object in the fields does not lead back to this one, so its tree is not affected.
  have inner : ∀ q ∈ (s.append o f).objectRefs o, (s.append o f).tree q = s.tree q := by
    intro q hq
    refine treeInside_congr [] q fun r hr => fields_append_of_ne f ?_
    rintro rfl
    exact (clear r .refl).2 (onCycle_of_returns hq (hr.append has))
  rw [tree_eq clear, treeOfFields, map_fields_congr inner, tree_eq before, treeOfFields,
    fields_append_self f has, List.map_append]
  rfl

/-- All places of an object get the new field, and no others. -/
theorem tree_append (has : s.Has o) (clear : (s.append o f).Clear [] p) :
    (s.append o f).tree p =
      s.treeWith o ((s.tree o).addField (f.map (Value.map s.tree))) p := by
  refine treeWith_unique (clear.of_append has) (fun reached => ?_) fun q reached ne => ?_
  · exact tree_append_self has fun r hr => clear r ((reached.append has).trans hr)
  · rw [tree_eq fun r hr => clear r ((reached.append has).trans hr), treeOfFields,
      fields_append_of_ne f ne]

theorem extends_changes {changes : List Change} (h : ∀ c ∈ changes, c.isAppend = false) :
    s.Extends (changes.foldl apply s) := by
  induction changes generalizing s with
  | nil => exact .refl s
  | cons c changes ih =>
      obtain ⟨first, rest⟩ := List.forall_mem_cons.mp h
      exact (extends_apply first).trans (ih rest)

/-- A field that is added to an object makes no difference to what does not lead to the object.
Where it does, and no cycle is in reach, the unfolding keeps its form around the places of the
object, and has the field after the former ones at each of them. New objects make no difference to
what is there before. -/
theorem append_shows_where_the_object_stands (s : Store) (o : ObjectId) (f : InputField)
    (n : Node (Value ObjectId)) :
    (¬ s.NodeReaches n o → s.SameOutcomes (s.append o f) n) ∧
    (s.Has o → (∀ p, (s.append o f).NodeReaches n p → ¬ (s.append o f).OnCycle p) →
      s.unfoldNode n = n.map (Value.map (s.treeWith o (s.tree o))) ∧
      (s.append o f).unfoldNode n =
        n.map (Value.map (s.treeWith o ((s.tree o).addField (f.map (Value.map s.tree))))) ∧
      ∀ t, s.treeWith o t o = t ∧ ∀ p, s.NodeReaches n p → p ≠ o →
        s.treeWith o t p = .node ((s.fields p).map (Entry.map (Value.map (s.treeWith o t))))) ∧
    (s.Closed → (∀ p ∈ n.refs, s.Has p) → ∀ changes : List Change,
      (∀ c ∈ changes, c.isAppend = false) → s.SameOutcomes (changes.foldl apply s) n) := by
  refine ⟨sameOutcomes_append, ?_, ?_⟩
  · intro has acyclic
    have after : ∀ p ∈ n.refs, (s.append o f).Clear [] p :=
      clear_of_reaches fun p hp => ⟨List.not_mem_nil, acyclic p hp⟩
    have before : ∀ p ∈ n.refs, s.Clear [] p := fun p hp => (after p hp).of_append has
    refine ⟨?_, ?_, fun t => ⟨treeWith_self s o t, ?_⟩⟩
    · exact Node.map_value_congr fun p hp => tree_eq_treeWith (before p hp)
    · exact Node.map_value_congr fun p hp => tree_append has (after p hp)
    · rintro p ⟨r, hr, reached⟩ ne
      exact treeWith_of_ne ne fun q hq => before r hr q (reached.trans hq)
  · intro closed known changes creating
    exact sameOutcomes_extends closed known (extends_changes creating)

/-- An object, and another one that has it in a field and in a list. -/
def standsTwice : Store :=
  ⟨#[[⟨"a", .int "1"⟩], [⟨"x", .object ⟨0⟩⟩, ⟨"y", .list [.object ⟨0⟩]⟩]]⟩

theorem field_shows_in_both_places :
    standsTwice.Has ⟨0⟩ ∧
    (∀ p, (standsTwice.append ⟨0⟩ ⟨"b", .null⟩).NodeReaches (.value (.object ⟨1⟩)) p →
      ¬ (standsTwice.append ⟨0⟩ ⟨"b", .null⟩).OnCycle p) ∧
    (standsTwice.append ⟨0⟩ ⟨"b", .null⟩).unfoldNode (.value (.object ⟨1⟩)) =
      .value (.object (.node [⟨"x", .object (.node [⟨"a", .int "1"⟩, ⟨"b", .null⟩])⟩,
        ⟨"y", .list [.object (.node [⟨"a", .int "1"⟩, ⟨"b", .null⟩])]⟩])) := by
  have has : standsTwice.Has ⟨0⟩ := by decide
  have visited : (standsTwice.append ⟨0⟩ ⟨"b", .null⟩).visitAll []
      (Node.value (.object ⟨1⟩)).refs = none := by decide +kernel
  have acyclic := fun p hp => ((visitAll_refs_eq_none_iff _ _ _).mp visited p hp).2
  obtain ⟨-, seen, -⟩ := append_shows_where_the_object_stands standsTwice ⟨0⟩ ⟨"b", .null⟩
    (.value (.object ⟨1⟩))
  obtain ⟨-, after, around⟩ := seen has acyclic
  refine ⟨has, acyclic, ?_⟩
  have inner : standsTwice.tree ⟨0⟩ = .node [⟨"a", .int "1"⟩] := by
    rw [tree, treeInside_of_not_mem List.not_mem_nil]
    rfl
  have reached : standsTwice.NodeReaches (.value (.object ⟨1⟩)) ⟨1⟩ := ⟨⟨1⟩, by decide, .refl⟩
  obtain ⟨self, others⟩ := around (.node [⟨"a", .int "1"⟩, ⟨"b", .null⟩])
  have outer : standsTwice.treeWith ⟨0⟩ (.node [⟨"a", .int "1"⟩, ⟨"b", .null⟩]) ⟨1⟩ =
      .node [⟨"x", .object (.node [⟨"a", .int "1"⟩, ⟨"b", .null⟩])⟩,
        ⟨"y", .list [.object (.node [⟨"a", .int "1"⟩, ⟨"b", .null⟩])]⟩] := by
    have here : standsTwice.fields ⟨1⟩ = [⟨"x", .object ⟨0⟩⟩, ⟨"y", .list [.object ⟨0⟩]⟩] := rfl
    rw [others ⟨1⟩ reached (by decide), here]
    simp [Entry.map, Value.map, Value.mapItems, self]
  rw [after, inner]
  exact congrArg (fun tree : ObjectTree => Node.value (Value.object tree)) outer

end Store

end QueryDoc
