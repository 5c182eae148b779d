import QueryDoc.Proofs.Unfolding
import QueryDoc.Proofs.Appending

/-!
Objects beside arguments. An object that is on no cycle is not met again inside its own fields, so
being inside it makes no difference to these. So its fields are converted, fail and are written as
they are as arguments, and all that sets the two apart are the brackets. An object that is made of
arguments is on no cycle, and fields that it gets later do not show in the arguments.
-/

namespace QueryDoc

namespace Store

variable {s t : Store} {trail trail' : Trail} {o p : ObjectId} {bindings : Option Bindings}

/-- Of a trail, only the objects that can be reached make a difference. -/
theorem objectJson_trail_congr (bindings : Option Bindings) (trail trail' : Trail) (p : ObjectId)
    (h : ∀ q, s.Reaches p q → (q ∈ trail ↔ q ∈ trail')) :
    s.objectJson bindings trail p = s.objectJson bindings trail' p := by
  induction trail, p using visit_induct (s := s) generalizing trail' with
  | met trail p met =>
      rw [objectJson_eq, objectJson_eq, if_pos met, if_pos ((h p .refl).mp met)]
  | enter trail p fresh ih =>
      have inside : ∀ q ∈ s.objectRefs p,
          s.objectJson bindings (p :: trail) q = s.objectJson bindings (p :: trail') q := by
        intro q hq
        refine ih q hq (p :: trail') fun r reached => ?_
        rw [List.mem_cons, List.mem_cons, h r (.head hq reached)]
      have fresh' : p ∉ trail' := fun met => fresh ((h p .refl).mpr met)
      rw [objectJson_eq, objectJson_eq, if_neg fresh, if_neg fresh',
        Value.entriesJson_congr bindings fun e he q hq => inside q (mem_objectRefs he hq)]

theorem visit_trail_congr (h : ∀ q, s.Reaches p q → (q ∈ trail ↔ q ∈ trail')) :
    s.visit trail p = s.visit trail' p := by
  rw [← errorOf_objectJson s none, objectJson_trail_congr none trail trail' p h,
    errorOf_objectJson]

/-- An object that is on no cycle is not reached from its fields. -/
theorem mem_trail_iff_of_not_onCycle (acyclic : ¬ s.OnCycle o) (hp : p ∈ s.objectRefs o) :
    ∀ q, s.Reaches p q → (q ∈ o :: trail ↔ q ∈ trail) := by
  intro q reached
  have ne : q ≠ o := by
    rintro rfl
    exact acyclic (onCycle_of_returns hp reached)
  simp only [List.mem_cons, ne, false_or]

/-- The fields of an object are converted as they are outside of it, as arguments. -/
theorem objectJson_of_not_onCycle (fresh : o ∉ trail) (acyclic : ¬ s.OnCycle o) :
    s.objectJson bindings trail o =
      (s.inputJson bindings trail (.arguments (s.fields o))).mapError (·.inside o) := by
  have outside : ∀ p ∈ s.objectRefs o,
      s.objectJson bindings (o :: trail) p = s.objectJson bindings trail p :=
    fun p hp => objectJson_trail_congr _ _ _ p (mem_trail_iff_of_not_onCycle acyclic hp)
  rw [objectJson_eq, if_neg fresh, inputJson,
    Value.entriesJson_congr bindings fun e he p hp => outside p (mem_objectRefs he hp)]
  cases Value.entriesJson (s.objectJson bindings trail) bindings (s.fields o) <;> rfl

theorem visit_of_not_onCycle (fresh : o ∉ trail) (acyclic : ¬ s.OnCycle o) :
    s.visit trail o = (s.visitAll trail (s.objectRefs o)).map (·.inside o) := by
  have outside : s.visitAll (o :: trail) (s.objectRefs o) = s.visitAll trail (s.objectRefs o) :=
    findSome?_congr fun p hp => visit_trail_congr (mem_trail_iff_of_not_onCycle acyclic hp)
  rw [visit_eq, if_neg fresh, outside]

/-- The object is converted as its fields are, or fails with the same error. -/
theorem mapError_objectJson (bindings : Option Bindings) (acyclic : ¬ s.OnCycle o) :
    (s.valueJson bindings [] (.object o)).mapError Failure.error =
      (s.inputJson bindings [] (.arguments (s.fields o))).mapError Failure.error := by
  have json : s.valueJson bindings [] (.object o) = _ :=
    objectJson_of_not_onCycle List.not_mem_nil acyclic
  rw [json]
  cases s.inputJson bindings [] (.arguments (s.fields o)) <;> rfl

theorem refs_arguments (es : List InputField) : (Node.arguments es).refs = fieldRefs es := by
  rw [Node.refs, Node.values, List.flatMap_map, fieldRefs]

theorem refs_object (o : ObjectId) : (Node.value (.object o)).refs = [o] := rfl

theorem errorOf_print_object (acyclic : ¬ s.OnCycle o) :
    errorOf (s.print (.value (.object o))) = errorOf (s.print (.arguments (s.fields o))) := by
  rw [errorOf_print, errorOf_print, refs_object, refs_arguments, visitAll, List.findSome?_singleton,
    visit_of_not_onCycle List.not_mem_nil acyclic, Option.map_map]
  rfl

/-- The texts of fields or arguments in a row, without brackets. -/
def entriesText (s : Store) (es : List InputField) : String :=
  ", ".intercalate (es.map fun e => (Layout.ofEntry Layout.ofValue e).text s.objectText)

theorem print_object (clear : s.Clear [] o) :
    s.print (.value (.object o)) = .ok ("\x7b" ++ s.entriesText (s.fields o) ++ "\x7d") := by
  have fields := objectText_eq clear
  rw [objectLayout, Layout.ofFields, Layout.text_enclosed, List.map_map] at fields
  rw [print_text (by rwa [refs_object, List.forall_mem_singleton])]
  refine congrArg Except.ok ?_
  rw [Layout.ofNode, Layout.ofValue, Layout.text, Layout.text, String.append_empty, fields]
  rfl

theorem print_arguments {es : List InputField} (nonempty : es ≠ [])
    (clear : ∀ p ∈ fieldRefs es, s.Clear [] p) :
    s.print (.arguments es) = .ok ("(" ++ s.entriesText es ++ ")") := by
  rw [print_text (by rwa [refs_arguments]), Layout.ofNode, Layout.ofArguments,
    Layout.text_enclosed, List.map_map]
  · rfl
  · exact nonempty

/-- Changes that add fields to no object but one that is new leave the others as they are. -/
theorem extends_changes_of_new {changes : List Change} (new : ¬ s.Has o) (h : s.Extends t)
    (appends : ∀ c ∈ changes, ∀ p f, c = .append p f → p = o) :
    s.Extends (changes.foldl apply t) := by
  induction changes generalizing t with
  | nil => exact h
  | cons c changes ih =>
      obtain ⟨first, others⟩ := List.forall_mem_cons.mp appends
      refine ih ?_ others
      cases appends : c.isAppend with
      | false => exact h.trans (extends_apply appends)
      | true =>
          cases c with
          | append p f =>
              obtain rfl := first p f rfl
              intro q has
              have ne : q ≠ p := fun same => new (same ▸ has)
              obtain ⟨has', same⟩ := h q has
              exact ⟨has_append_iff.mpr has', (fields_append_of_ne f ne).trans same⟩
          | _ => cases appends

theorem not_onCycle_created (closed : s.Closed) {es : List InputField}
    (known : ∀ p ∈ fieldRefs es, s.Has p) : ¬ (s.create es).1.OnCycle (s.create es).2 := by
  intro cycle
  obtain ⟨p, first, -⟩ := Relation.TransGen.head'_iff.mp
    (onCycle_of_onCycle_create closed known cycle)
  exact not_has_created (has_of_references first)

/-- The object that is made of arguments agrees with them: it has the same JSON or fails with the
same error, it has the same map, and its text has the same inside, if there is one. What the
arguments are found to be does not change when the object is made, nor when it gets more fields,
whatever other objects are made in between. -/
theorem object_agrees_with_its_arguments (s : Store) (es : List InputField) (closed : s.Closed)
    (known : ∀ p ∈ (Node.arguments es).refs, s.Has p) :
    let t := (s.create es).1
    let o := (s.create es).2
    (∀ bindings, ∃ x y, t.nodeJson? bindings [] (.value (.object o)) = some x ∧
      t.nodeJson? bindings [] (.arguments es) = some y ∧
      x.mapError Failure.error = y.mapError Failure.error) ∧
    NameMap.ofEntries (t.fields o) = NameMap.ofEntries es ∧
    errorOf (t.print (.value (.object o))) = errorOf (t.print (.arguments es)) ∧
    (∀ text, t.print (.value (.object o)) = .ok text → ∃ inside,
      text = "\x7b" ++ inside ++ "\x7d" ∧
      (es = [] → inside = "" ∧ t.print (.arguments es) = .ok "") ∧
      (es ≠ [] → t.print (.arguments es) = .ok ("(" ++ inside ++ ")"))) ∧
    ∀ changes : List Change, (∀ c ∈ changes, ∀ p f, c = .append p f → p = o) →
      s.SameOutcomes (changes.foldl apply t) (.arguments es) := by
  intro t o
  have fields : t.fields o = es := fields_create_self s es
  have acyclic : ¬ t.OnCycle o := not_onCycle_created closed (refs_arguments es ▸ known)
  have json := fun bindings => mapError_objectJson bindings acyclic
  have error := errorOf_print_object acyclic
  rw [fields] at json error
  refine ⟨fun bindings => ⟨_, _, rfl, rfl, json bindings⟩, congrArg _ fields, error, ?_, ?_⟩
  · intro text printed
    have printedObject : errorOf (t.print (.value (.object o))) = none := by
      rw [printed, errorOf_ok]
    have printedArguments := error.symm.trans printedObject
    have shown := print_object (clear_of_print printedObject o (List.mem_singleton_self o))
    rw [fields, printed, Except.ok.injEq] at shown
    refine ⟨_, shown, ?_, fun nonempty => ?_⟩
    · rintro rfl
      exact ⟨rfl, print_text nofun⟩
    · exact print_arguments nonempty (refs_arguments es ▸ clear_of_print printedArguments)
  · intro changes appends
    exact sameOutcomes_extends closed known
      (extends_changes_of_new not_has_created extends_create appends)

/-- Two arguments of one name, of which the second one leads to an object that the first one has. -/
def repeatedArguments : List InputField := [⟨"by", .object ⟨1⟩⟩, ⟨"by", .object ⟨0⟩⟩]

theorem closed_sharingStore : sharingStore.Closed := by
  rintro ⟨_ | _ | index⟩ p h
  · nomatch h
  · have : p ∈ [ObjectId.mk 0, ⟨0⟩, ⟨0⟩] := h
    simp only [List.mem_cons, List.not_mem_nil, or_false, or_self] at this
    rw [this]
    decide
  · nomatch h

theorem repeatedArguments_stay_as_they_are :
    sharingStore.Closed ∧ (∀ p ∈ (Node.arguments repeatedArguments).refs, sharingStore.Has p) ∧
    ((sharingStore.create repeatedArguments).1.append ⟨2⟩ ⟨"z", .null⟩).print
      (.arguments repeatedArguments) =
        .ok ("(by: \x7bx: \x7ba: 1\x7d, y: [[\x7ba: 1\x7d, \x7ba: 1\x7d], null]\x7d, " ++
          "by: \x7ba: 1\x7d)") := by
  have known : ∀ p ∈ (Node.arguments repeatedArguments).refs, sharingStore.Has p := by decide
  obtain ⟨-, -, -, -, later⟩ :=
    object_agrees_with_its_arguments sharingStore repeatedArguments closed_sharingStore known
  have same : sharingStore.SameOutcomes
      ((sharingStore.create repeatedArguments).1.append ⟨2⟩ ⟨"z", .null⟩)
      (.arguments repeatedArguments) :=
    later [.append ⟨2⟩ ⟨"z", .null⟩] (by rintro _ (_ | ⟨_, ⟨⟩⟩) _ _ ⟨⟩; rfl)
  have free : sharingStore.visitAll [] (Node.arguments repeatedArguments).refs = none := by
    decide +kernel
  refine ⟨closed_sharingStore, known, ?_⟩
  rw [print, same.written, ← print,
    print_unfoldNode (clear_of_reaches ((visitAll_refs_eq_none_iff ..).mp free))]
  decide +kernel

end Store

end QueryDoc
