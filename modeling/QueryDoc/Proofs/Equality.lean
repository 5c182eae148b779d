import QueryDoc.Proofs.Replacing
import QueryDoc.Proofs.Unfolding

/-!
Equal parts in writing. Equality compares the fields of the objects in a part and goes no further,
whereas writing follows every reference. An object that is on a cycle may so be equal to one that is
not, such as a copy of it. Yet what can be reached through the fields of two equal objects is the
same, and a cycle through one of them is then reached from the other.
-/

namespace QueryDoc

/-- One result twice, or two cyclic references that may name different fields. -/
inductive SameResult {α : Type} : Except Error α → Except Error α → Prop
  | ok (a : α) : SameResult (.ok a) (.ok a)
  | cyclic {e e' : Error} : e.kind = .cyclicReference → e'.kind = .cyclicReference →
      e.message = e'.message → SameResult (.error e) (.error e')

theorem Input.node_injective {V : Type} {i j : Input V} (h : i.node = j.node) : i = j := by
  cases i <;> cases j <;> cases h <;> rfl

namespace Store

variable {s : Store} {trail : Trail} {o p : ObjectId} {a b : Node (Value ObjectId)}
  {os : List ObjectId}

/-- An object is clear if all objects in its fields are, as a cycle through it goes through one of
these. -/
theorem clear_nil_iff : s.Clear [] o ↔ ∀ p ∈ s.objectRefs o, s.Clear [] p := by
  constructor
  · intro h p hp q hq
    exact h q (.head hp hq)
  · intro below q hq
    refine ⟨List.not_mem_nil, fun cycle => ?_⟩
    rcases Relation.ReflTransGen.cases_head hq with rfl | ⟨p, hp, hq⟩
    · obtain ⟨p, hp, back⟩ := Relation.TransGen.head'_iff.mp cycle
      exact (below p hp o back).2 cycle
    · exact (below p hp q hq).2 cycle

theorem Equates.fields (equal : s.Equates a b) : a.refs.map s.fields = b.refs.map s.fields := by
  rw [← Node.flatMap_refs_map, ← Node.flatMap_refs_map]
  exact congrArg (fun n => n.values.flatMap Value.refs) equal

theorem Equates.clear (equal : s.Equates a b) (clear : ∀ o ∈ a.refs, s.Clear [] o) :
    ∀ o ∈ b.refs, s.Clear [] o := by
  intro o ho
  -- Some object of the other part has the same fields, and so the same objects in them.
  have found : s.fields o ∈ a.refs.map s.fields := by
    rw [equal.fields]
    exact List.mem_map_of_mem ho
  obtain ⟨p, hp, same⟩ := List.mem_map.mp found
  rw [clear_nil_iff, objectRefs, ← same]
  exact clear_nil_iff.mp (clear p hp)

/-- A node unfolds to its contents with trees in the place of the field lists. -/
theorem unfoldNode_eq (clear : ∀ o ∈ a.refs, s.Clear [] o) :
    s.unfoldNode a = (s.contents a).map (Value.map s.treeOfFields) := by
  rw [contents, Node.map_map_value, unfoldNode]
  exact Node.map_value_congr fun o ho => tree_eq (clear o ho)

theorem Equates.unfoldNode (equal : s.Equates a b) (clear : ∀ o ∈ a.refs, s.Clear [] o) :
    s.unfoldNode a = s.unfoldNode b := by
  rw [unfoldNode_eq clear, unfoldNode_eq (equal.clear clear), equal]

theorem node_unfold (i : Input (Value ObjectId)) : (s.unfold i).node = s.unfoldNode i.node := by
  cases i <;> rfl

theorem exists_cyclicReference (h : ¬ ∀ o ∈ os, s.Clear trail o) :
    ∃ f names, s.visitAll trail os = some f ∧ f.error = .cyclicReference names := by
  cases failed : s.visitAll trail os with
  | none => exact absurd (visitAll_eq_none_iff_clear.mp failed) h
  | some f =>
      obtain ⟨o, _, visited⟩ := List.exists_of_findSome?_eq_some failed
      obtain ⟨p, e⟩ := visit_error s trail o visited
      exact ⟨f, _, rfl, e⟩

theorem print_of_not_clear (h : ¬ ∀ o ∈ a.refs, s.Clear [] o) :
    ∃ names, s.print a = .error (.cyclicReference names) := by
  obtain ⟨f, names, failed, e⟩ := exists_cyclicReference h
  exact ⟨names, by rw [print_eq, failed, ← e]⟩

theorem inputJson_of_not_clear {i : Input (Value ObjectId)} (bindings : Option Bindings)
    (h : ¬ ∀ o ∈ i.refs, s.Clear trail o) :
    ∃ f names, s.inputJson bindings trail i = .error f ∧ f.error = .cyclicReference names := by
  obtain ⟨f, names, failed, e⟩ := exists_cyclicReference h
  have error := (errorOf_inputJson s bindings trail i).trans failed
  cases json : s.inputJson bindings trail i with
  | ok j => simp [json] at error
  | error f' =>
      simp only [json, errorOf_error, Option.some.injEq] at error
      exact ⟨f', names, rfl, error ▸ e⟩

/-- Equal parts have the same text, or neither has one. Inputs that are equal have the same JSON,
whatever the variables are, or neither has any. If there is none, both fail as cyclic references. -/
theorem equal_parts_are_written_alike (s : Store) (a b : Node (Value ObjectId))
    (equal : s.Equates a b) :
    SameResult (s.print a) (s.print b) ∧
    ∀ i j : Input (Value ObjectId), i.node = a → j.node = b → ∀ bindings,
      ∃ x y, s.nodeJson? bindings [] a = some x ∧ s.nodeJson? bindings [] b = some y ∧
        SameResult (x.mapError Failure.error) (y.mapError Failure.error) := by
  by_cases clear : ∀ o ∈ a.refs, s.Clear [] o
  · have unfolded := equal.unfoldNode clear
    refine ⟨?_, ?_⟩
    · rw [print_unfoldNode clear, print_unfoldNode (equal.clear clear), unfolded]
      exact .ok _
    · rintro i j rfl rfl bindings
      have same : s.unfold i = s.unfold j := by
        apply Input.node_injective
        rw [node_unfold, node_unfold, unfolded]
      refine ⟨_, _, nodeJson_node .., nodeJson_node .., ?_⟩
      rw [inputJson_unfold bindings clear, inputJson_unfold bindings (equal.clear clear), same]
      exact .ok _
  · have other : ¬ ∀ o ∈ b.refs, s.Clear [] o := fun h => clear (Equates.clear equal.symm h)
    refine ⟨?_, ?_⟩
    · obtain ⟨names, failed⟩ := print_of_not_clear clear
      obtain ⟨names', failed'⟩ := print_of_not_clear other
      rw [failed, failed']
      exact .cyclic rfl rfl rfl
    · rintro i j rfl rfl bindings
      obtain ⟨f, names, failed, e⟩ := inputJson_of_not_clear bindings clear
      obtain ⟨f', names', failed', e'⟩ := inputJson_of_not_clear bindings other
      refine ⟨_, _, nodeJson_node .., nodeJson_node .., ?_⟩
      rw [failed, failed', Except.mapError, Except.mapError, e, e']
      exact .cyclic rfl rfl rfl

/-- Two objects that refer to each other, and a copy of the first. -/
def copiedLoop : Store :=
  ⟨#[[⟨"next", .object ⟨1⟩⟩], [⟨"back", .object ⟨0⟩⟩], [⟨"next", .object ⟨1⟩⟩]]⟩

theorem object_on_loop_fails_like_its_copy :
    copiedLoop.Equates (.value (.objects [⟨0⟩])) (.value (.objects [⟨2⟩])) ∧
    SameResult (copiedLoop.print (.value (.objects [⟨0⟩])))
      (copiedLoop.print (.value (.objects [⟨2⟩]))) ∧
    copiedLoop.print (.value (.objects [⟨0⟩])) = .error (.cyclicReference ["next"]) ∧
    copiedLoop.print (.value (.objects [⟨2⟩])) = .error (.cyclicReference ["back"]) := by
  have equal : copiedLoop.Equates (.value (.objects [⟨0⟩])) (.value (.objects [⟨2⟩])) := by
    decide
  have loop : copiedLoop.visitAll [] [⟨0⟩] =
      some ⟨.cyclicReference ["next"], [⟨1⟩, ⟨0⟩]⟩ := by decide +kernel
  have copy : copiedLoop.visitAll [] [⟨2⟩] =
      some ⟨.cyclicReference ["back"], [⟨0⟩, ⟨1⟩, ⟨2⟩]⟩ := by decide +kernel
  refine ⟨equal, (equal_parts_are_written_alike copiedLoop _ _ equal).1, ?_, ?_⟩
  · rw [print_eq, show (Node.value (.objects [⟨0⟩])).refs = [⟨0⟩] from rfl, loop]
  · rw [print_eq, show (Node.value (.objects [⟨2⟩])).refs = [⟨2⟩] from rfl, copy]

end Store

end QueryDoc
