import QueryDoc.Proofs.History

/-!
The field lists of objects over a history. An object has the fields it was made with, and after them
those that were added to the object itself. A copy starts with the fields of its source, and from
then on each of the two has a list of its own. The objects in the fields are the same in both lists,
and so a field that such an object gets is seen from both.
-/

namespace QueryDoc

/-- The place that the next object takes. -/
def Store.next (s : Store) : ObjectId := ⟨s.objects.size⟩

namespace Change

/-- The fields of the object that a change makes from given fields or from another object. -/
def made? (s : Store) : Change → Option (List InputField)
  | .create fields | .ofArguments fields => some fields
  | .copy o => some (s.fields o)
  | .extend o f => some (s.fields o ++ [f])
  | .ofJson _ | .append _ _ => none

/-- The object that a change copies, and the fields that the copy gets besides. -/
def copied? : Change → Option (ObjectId × List InputField)
  | .copy o => some (o, [])
  | .extend o f => some (o, [f])
  | _ => none

def appended? (o : ObjectId) : Change → Option InputField
  | .append p f => if p = o then some f else none
  | _ => none

/-- The fields that are added to the object itself, one after the other. -/
def appendedTo (o : ObjectId) (changes : List Change) : List InputField :=
  changes.filterMap (appended? o)

theorem appendedTo_append (o : ObjectId) (changes later : List Change) :
    appendedTo o (changes ++ later) = appendedTo o changes ++ appendedTo o later :=
  List.filterMap_append

theorem appendedTo_eq_nil_iff {o : ObjectId} {changes : List Change} :
    appendedTo o changes = [] ↔ ∀ f, .append o f ∉ changes := by
  rw [appendedTo, List.filterMap_eq_nil_iff]
  constructor
  · intro none f hf
    simpa [appended?] using none _ hf
  · intro none c hc
    cases c with
    | append p f =>
        have ne : p ≠ o := fun same => none f (same ▸ hc)
        simp [appended?, ne]
    | _ => rfl

theorem made_of_copied {c : Change} {s : Store} {source : ObjectId} {added : List InputField}
    (h : c.copied? = some (source, added)) :
    c.made? s = some (s.fields source ++ added) ∧ source ∈ c.refs := by
  cases c with
  | copy o =>
      cases h
      simp [made?, refs]
  | extend o f =>
      cases h
      simp [made?, refs]
  | _ => cases h

end Change

namespace Store

open Change

variable {s : Store} {changes before later : List Change} {c : Change} {o p source : ObjectId}
  {fields added : List InputField}

/-- What holds of a copy and its source, from the store in which the copy is made to one after some
more changes. The copy gets the added fields besides those of its source. -/
structure Copied (s t : Store) (source copy : ObjectId) (added : List InputField)
    (later : List Change) : Prop where
  distinct : copy ≠ source
  fresh : ¬ s.Has copy
  ofCopy : t.fields copy = s.fields source ++ (added ++ appendedTo copy later)
  ofSource : t.fields source = s.fields source ++ appendedTo source later
  shared : ∀ p, s.References source p → t.References copy p ∧ t.References source p ∧
    t.fields p = s.fields p ++ appendedTo p later

/-- A copy with one more field is a copy to which this field is added. -/
theorem apply_extend (s : Store) (o : ObjectId) (f : InputField) :
    s.apply (.extend o f) = (s.apply (.copy o)).apply (.append s.next f) := by
  have last : (s.objects.push (s.fields o)).modify s.objects.size (· ++ [f]) =
      s.objects.push (s.fields o ++ [f]) := by
    grind [Array.ext]
  exact congrArg Store.mk last.symm

theorem not_has_next : ¬ s.Has s.next := Nat.lt_irrefl _

theorem apply_of_made (h : c.made? s = some fields) : s.apply c = (s.create fields).1 := by
  cases c with
  | create _ | ofArguments _ | copy _ | extend _ _ =>
      cases h
      rfl
  | ofJson _ | append _ _ => cases h

theorem has_apply_of_made (h : c.made? s = some fields) :
    (s.apply c).Has p ↔ s.Has p ∨ p = s.next := by
  rw [apply_of_made h]
  exact has_create_iff

theorem fields_apply_of_made (h : c.made? s = some fields) :
    (s.apply c).fields s.next = fields := by
  rw [apply_of_made h]
  exact fields_create_self s fields

/-- A change adds to the field list of an object that is there, if anything, the field for it. -/
theorem fields_apply (has : s.Has o) :
    (s.apply c).Has o ∧ (s.apply c).fields o = s.fields o ++ appendedTo o [c] := by
  cases appends : c.isAppend with
  | false =>
      obtain ⟨has', same⟩ := extends_apply appends o has
      have none : appendedTo o [c] = [] := by
        rw [appendedTo_eq_nil_iff]
        intro f hf
        cases List.mem_singleton.mp hf
        cases appends
      exact ⟨has', by rw [same, none, List.append_nil]⟩
  | true =>
      cases c with
      | append q f =>
          refine ⟨has_append_iff.mpr has, ?_⟩
          by_cases same : q = o
          · subst same
            simp [apply, fields_append_self f has, appendedTo, appended?]
          · simp [apply, fields_append_of_ne f (Ne.symm same), appendedTo, appended?, same]
      | _ => cases appends

/-- From one time to a later one, the list of an object gets the fields added to the object. -/
theorem fields_outcome_append (later : List Change) (has : (outcome before).Has o) :
    (outcome (before ++ later)).Has o ∧
      (outcome (before ++ later)).fields o = (outcome before).fields o ++ appendedTo o later := by
  induction later using List.reverseRecOn with
  | nil => simpa [appendedTo] using has
  | append_singleton later c ih =>
      obtain ⟨has', grown⟩ := ih
      obtain ⟨stays, last⟩ := fields_apply (c := c) has'
      rw [← List.append_assoc, outcome_concat]
      exact ⟨stays, by rw [last, grown, appendedTo_append, List.append_assoc]⟩

/-- A new object starts with the fields it is made from. -/
theorem fields_outcome_of_made (later : List Change) (h : c.made? (outcome before) = some fields) :
    (outcome (before ++ c :: later)).Has (outcome before).next ∧
      (outcome (before ++ c :: later)).fields (outcome before).next =
        fields ++ appendedTo (outcome before).next later := by
  have has : (outcome (before ++ [c])).Has (outcome before).next := by
    rw [outcome_concat, has_apply_of_made h]
    exact .inr rfl
  have first : (outcome (before ++ [c])).fields (outcome before).next = fields := by
    rw [outcome_concat, fields_apply_of_made h]
  obtain ⟨stays, grown⟩ := fields_outcome_append later has
  rw [List.append_cons]
  exact ⟨stays, by rw [grown, first]⟩

/-- Every object was made by some change. -/
theorem exists_made (known : ∀ j, .ofJson j ∉ changes) (has : (outcome changes).Has o) :
    ∃ before c later fields, changes = before ++ c :: later ∧
      c.made? (outcome before) = some fields ∧ o = (outcome before).next := by
  induction changes using List.reverseRecOn with
  | nil => exact absurd has (Nat.not_lt_zero _)
  | append_singleton changes c ih =>
      by_cases old : (outcome changes).Has o
      · obtain ⟨before, d, later, fields, rfl, made, place⟩ :=
          ih (fun j hj => known j (List.mem_append_left _ hj)) old
        exact ⟨before, d, later ++ [c], fields, by simp, made, place⟩
      · rw [outcome_concat] at has
        cases made : c.made? (outcome changes) with
        | some fields =>
            have place := ((has_apply_of_made made).mp has).resolve_left old
            exact ⟨changes, c, [], fields, rfl, made, place⟩
        | none =>
            cases c with
            | append q f => exact absurd (has_append_iff.mp has) old
            | ofJson j =>
                exact absurd (List.mem_append_right _ (List.mem_singleton_self _)) (known j)
            | create _ | ofArguments _ | copy _ | extend _ _ => cases made

theorem equates_objects_iff : s.Equates (.value (.object o)) (.value (.object p)) ↔
    s.fields o = s.fields p := by
  simp [Equates, contents, Node.map, Value.map]

theorem Copied.equates_iff {t : Store} {copy : ObjectId} (h : s.Copied t source copy added later) :
    t.Equates (.value (.object copy)) (.value (.object source)) ↔
      added ++ appendedTo copy later = appendedTo source later := by
  rw [equates_objects_iff, h.ofCopy, h.ofSource, List.append_cancel_left_eq]

theorem copied_outcome (possible : Possible (before ++ c :: later))
    (h : c.copied? = some (source, added)) :
    (outcome before).Copied (outcome (before ++ c :: later)) source (outcome before).next added
      later := by
  obtain ⟨made, needed⟩ := made_of_copied (s := outcome before) h
  have has := possible before c later rfl source needed
  have closed := closed_outcome possible.of_append
  -- The change itself adds no field to an object that is there.
  have since (p : ObjectId) (has : (outcome before).Has p) :
      (outcome (before ++ c :: later)).fields p =
        (outcome before).fields p ++ appendedTo p later := by
    have none : appendedTo p [c] = [] := by
      cases c <;> first | rfl | cases h
    have grown := (fields_outcome_append (c :: later) has).2
    rwa [← List.singleton_append, appendedTo_append, none, List.nil_append] at grown
  have ofCopy := (fields_outcome_of_made later made).2
  rw [List.append_assoc] at ofCopy
  refine ⟨fun same => not_has_next (same ▸ has), not_has_next, ofCopy, since source has, ?_⟩
  intro p hp
  obtain ⟨f, hf, inside⟩ := List.mem_flatMap.mp hp
  refine ⟨mem_objectRefs ?_ inside, mem_objectRefs ?_ inside, since p (closed source p hp)⟩
  · rw [ofCopy]
    exact List.mem_append_left _ hf
  · rw [since source has]
    exact List.mem_append_left _ hf

/-- At any time of a history the fields of an object are those it was made with and then those added
to the object itself, and every object was made by one of the changes, unless it comes from JSON. A
copy starts with the fields of its source at that time; both refer to the same objects in these, and
see the fields that such an object gets. The copy is another object than its source, and equal to it
as long as both have got the same fields, hence until a field is added to one of them. -/
theorem fields_are_kept_in_order (changes : List Change) (possible : Possible changes) :
    (∀ before later, changes = before ++ later → ∀ o, (outcome before).Has o →
      (outcome changes).Has o ∧
      (outcome changes).fields o = (outcome before).fields o ++ appendedTo o later) ∧
    (∀ before c later, changes = before ++ c :: later →
      ∀ fields, c.made? (outcome before) = some fields →
        let o := (outcome before).next
        ¬ (outcome before).Has o ∧ (outcome changes).Has o ∧
        (outcome changes).fields o = fields ++ appendedTo o later) ∧
    ((∀ j, .ofJson j ∉ changes) → ∀ o, (outcome changes).Has o →
      ∃ before c later fields, changes = before ++ c :: later ∧
        c.made? (outcome before) = some fields ∧ o = (outcome before).next) ∧
    (∀ (s : Store) source f,
      s.apply (.extend source f) = (s.apply (.copy source)).apply (.append s.next f)) ∧
    ∀ before c later, changes = before ++ c :: later →
      ∀ source added, c.copied? = some (source, added) →
        let copy := (outcome before).next
        let equal := (outcome changes).Equates (.value (.object copy)) (.value (.object source))
        (outcome before).Copied (outcome changes) source copy added later ∧
        (equal ↔ added ++ appendedTo copy later = appendedTo source later) ∧
        (added = [] → (∀ f, .append copy f ∉ later) → (∀ f, .append source f ∉ later) → equal) := by
  refine ⟨?_, ?_, fun known o => exists_made known, apply_extend, ?_⟩
  · rintro before later rfl o has
    exact fields_outcome_append later has
  · rintro before c later rfl fields made
    exact ⟨not_has_next, fields_outcome_of_made later made⟩
  · rintro before c later rfl source added h
    have copied := copied_outcome possible h
    refine ⟨copied, copied.equates_iff, ?_⟩
    intro plain copyKept sourceKept
    rw [copied.equates_iff, plain, appendedTo_eq_nil_iff.mpr copyKept,
      appendedTo_eq_nil_iff.mpr sourceKept, List.append_nil]

/-- An object with another one inside, before it is copied. -/
def beforeCopy : List Change :=
  [.create [⟨"a", .null⟩], .ofArguments [⟨"inner", .object ⟨0⟩⟩]]

/-- The inner object, the copy and a copy of the copy get fields. -/
def afterCopy : List Change :=
  [.append ⟨0⟩ ⟨"b", .null⟩, .extend ⟨2⟩ ⟨"c", .null⟩, .append ⟨2⟩ ⟨"d", .null⟩,
    .append ⟨3⟩ ⟨"e", .null⟩]

theorem copy_gets_only_its_own_field :
    Possible (beforeCopy ++ .copy ⟨1⟩ :: afterCopy) ∧
    (outcome beforeCopy).Copied (outcome (beforeCopy ++ .copy ⟨1⟩ :: afterCopy)) ⟨1⟩ ⟨2⟩ []
      afterCopy ∧
    (outcome (beforeCopy ++ .copy ⟨1⟩ :: afterCopy)).fields ⟨2⟩ =
      [⟨"inner", .object ⟨0⟩⟩, ⟨"d", .null⟩] := by
  have possible : Possible (beforeCopy ++ .copy ⟨1⟩ :: afterCopy) :=
    ((((((possible_nil.concat (by decide +kernel)).concat (by decide +kernel)).concat
      (by decide +kernel)).concat (by decide +kernel)).concat (by decide +kernel)).concat
        (by decide +kernel)).concat (by decide +kernel)
  obtain ⟨-, -, -, -, copies⟩ := fields_are_kept_in_order _ possible
  have copied := (copies beforeCopy _ afterCopy rfl ⟨1⟩ [] rfl).1
  exact ⟨possible, copied, copied.ofCopy⟩

end Store

end QueryDoc
