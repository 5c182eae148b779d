import Mathlib.Data.List.Induction
import QueryDoc.Proofs.Agreement
import QueryDoc.Proofs.Creation

/-!
Histories of a store. Objects come up and change in six ways, of which one only adds references to
an object that others may refer to already. A history in which no object is given a field that
leads back to it has no cycles at any time, so everything can be written and converted. Where it is
given one, it contains itself from then on.
-/

namespace QueryDoc

inductive Change where
  | create (fields : List InputField)
  | copy (o : ObjectId)
  | extend (o : ObjectId) (f : InputField)
  /-- The object with the arguments as its fields. -/
  | ofArguments (arguments : List InputField)
  | ofJson (j : Json)
  | append (o : ObjectId) (f : InputField)

def Store.apply (s : Store) : Change → Store
  | .create fields => (s.create fields).1
  | .copy o => (s.copy o).1
  | .extend o f => (s.extend o f).1
  | .ofArguments arguments => (s.create arguments).1
  | .ofJson j => (s.ofJson j).1
  | .append o f => s.append o f

namespace Change

/-- The objects that have to be there for the change. -/
def refs : Change → List ObjectId
  | .create fields | .ofArguments fields => fieldRefs fields
  | .copy o => [o]
  | .extend o f | .append o f => o :: f.value.refs
  | .ofJson _ => []

/-- The change gives an object a field from which the object can be reached. -/
def Closes (s : Store) : Change → Prop
  | .append o f => ∃ p ∈ f.value.refs, s.Reaches p o
  | _ => False

def isAppend : Change → Bool
  | .append _ _ => true
  | _ => false

/-- The store after some changes, made one after the other and starting without objects. -/
def outcome (changes : List Change) : Store := changes.foldl Store.apply .empty

/-- Every change comes when the objects for it are there. -/
def Possible (changes : List Change) : Prop :=
  ∀ before c later, changes = before ++ c :: later → ∀ p ∈ c.refs, (outcome before).Has p

variable {changes before later : List Change} {c : Change}

theorem outcome_concat (changes : List Change) (c : Change) :
    outcome (changes ++ [c]) = (outcome changes).apply c := by
  rw [outcome, List.foldl_append]
  rfl

theorem possible_nil : Possible [] := by
  intro before c later split
  cases before <;> cases split

theorem Possible.concat (h : Possible changes) (known : ∀ p ∈ c.refs, (outcome changes).Has p) :
    Possible (changes ++ [c]) := by
  intro before d later split
  rcases List.eq_nil_or_concat later with rfl | ⟨later', e, rfl⟩
  · obtain ⟨rfl, rfl⟩ := List.append_singleton_inj.mp split
    exact known
  · apply h before d later'
    rw [List.concat_eq_append, ← List.cons_append, ← List.append_assoc] at split
    exact (List.append_singleton_inj.mp split).1

theorem Possible.of_append (h : Possible (before ++ later)) : Possible before := by
  intro earlier d rest split
  apply h earlier d (rest ++ later)
  rw [split, List.append_assoc, List.cons_append]

theorem Possible.last (h : Possible (changes ++ [c])) : ∀ p ∈ c.refs, (outcome changes).Has p :=
  h changes c [] rfl

end Change

namespace Store

open Change

variable {s : Store} {changes before later : List Change} {c : Change} {o p q : ObjectId}

theorem has_append_iff {f : InputField} : (s.append o f).Has p ↔ s.Has p := by
  rw [Has, Has, append, Array.size_modify]

theorem references_append_iff {f : InputField} (has : s.Has o) :
    (s.append o f).References q p ↔ s.References q p ∨ q = o ∧ p ∈ f.value.refs := by
  by_cases same : q = o
  · subst same
    simp only [References, objectRefs, fields_append_self f has, List.flatMap_append,
      List.mem_append, List.flatMap_singleton, true_and]
  · simp only [References, objectRefs, fields_append_of_ne f same, same, false_and, or_false]

theorem closed_append {f : InputField} (closed : s.Closed)
    (known : ∀ p ∈ o :: f.value.refs, s.Has p) : (s.append o f).Closed := by
  intro q p h
  rw [has_append_iff]
  rcases (references_append_iff (known o (List.mem_cons_self ..))).mp h with old | ⟨-, hp⟩
  · exact closed q p old
  · exact known p (List.mem_cons_of_mem o hp)

/-- Every change but the adding of a field to an object makes new objects only. -/
theorem creates_of_not_append (closed : s.Closed) (known : ∀ p ∈ c.refs, s.Has p)
    (h : c.isAppend = false) : s.Creates (s.apply c) := by
  cases c with
  | create fields | ofArguments fields => exact .create fields .refl known
  | copy o => exact .create _ .refl fun p hp => closed o p hp
  | extend o f =>
      refine .create _ .refl fun p hp => ?_
      rw [fieldRefs, List.flatMap_append, List.flatMap_singleton, List.mem_append] at hp
      rcases hp with hp | hp
      · exact closed o p hp
      · exact known p (List.mem_cons_of_mem o hp)
  | ofJson j => exact (createsAll_ofJson j s).1
  | append o f => cases h

theorem closed_apply (closed : s.Closed) (known : ∀ p ∈ c.refs, s.Has p) : (s.apply c).Closed := by
  cases h : c.isAppend with
  | false => exact (creates_of_not_append closed known h).closed closed
  | true =>
      cases c with
      | append o f => exact closed_append closed known
      | _ => cases h

/-- Every change but the adding of a field to an object leaves the objects as they are. -/
theorem extends_apply (h : c.isAppend = false) : s.Extends (s.apply c) := by
  cases c with
  | create fields | ofArguments fields => exact extends_create
  | copy o | extend o f => exact extends_create
  | ofJson j => exact (createsAll_ofJson j s).1.extends
  | append o f => cases h

/-- No change takes a reference away. -/
theorem references_apply (closed : s.Closed) (known : ∀ p ∈ c.refs, s.Has p)
    (h : s.References o p) : (s.apply c).References o p := by
  cases appends : c.isAppend with
  | false =>
      have same := ((creates_of_not_append closed known appends).extends o (has_of_references h)).2
      rwa [References, objectRefs, same]
  | true =>
      cases c with
      | append q f =>
          exact (references_append_iff (known q (List.mem_cons_self ..))).mpr (.inl h)
      | _ => cases appends

theorem onCycle_apply (closed : s.Closed) (known : ∀ p ∈ c.refs, s.Has p) (h : s.OnCycle o) :
    (s.apply c).OnCycle o :=
  Relation.TransGen.mono (fun _ _ => references_apply closed known) _ _ h

/-- A cycle that was not there before goes through the object that a field was added to. -/
theorem onCycle_of_onCycle_apply (closed : s.Closed) (known : ∀ p ∈ c.refs, s.Has p)
    (h : (s.apply c).OnCycle o) : s.OnCycle o ∨ c.Closes s := by
  cases appends : c.isAppend with
  | false => exact .inl ((creates_of_not_append closed known appends).onCycle closed h)
  | true =>
      cases c with
      | append q f =>
          have added (x y : ObjectId) : (s.append q f).References x y →
              s.References x y ∨ x = q ∧ y ∈ f.value.refs :=
            (references_append_iff (known q (List.mem_cons_self ..))).mp
          rcases transGen_of_added added h with old | ⟨toObject, p, hp, back⟩
          · exact .inl old
          · exact .inr ⟨p, hp, back.trans toObject⟩
      | _ => cases appends

theorem onCycle_of_closes {f : InputField} (has : s.Has o) (h : (Change.append o f).Closes s) :
    (s.append o f).OnCycle o := by
  obtain ⟨p, hp, back⟩ := h
  have first : (s.append o f).References o p := (references_append_iff has).mpr (.inr ⟨rfl, hp⟩)
  refine .head' first (Relation.ReflTransGen.mono (fun x y old => ?_) _ _ back)
  exact (references_append_iff has).mpr (.inl old)

theorem closed_outcome (possible : Possible changes) : (outcome changes).Closed := by
  induction changes using List.reverseRecOn with
  | nil => exact fun o p h => absurd (has_of_references h) (Nat.not_lt_zero _)
  | append_singleton changes c ih =>
      rw [outcome_concat]
      exact closed_apply (ih possible.of_append) possible.last

theorem onCycle_outcome_append (possible : Possible (before ++ later))
    (h : (outcome before).OnCycle o) : (outcome (before ++ later)).OnCycle o := by
  induction later using List.reverseRecOn with
  | nil => rwa [List.append_nil]
  | append_singleton later c ih =>
      rw [← List.append_assoc] at possible ⊢
      rw [outcome_concat]
      exact onCycle_apply (closed_outcome possible.of_append) possible.last (ih possible.of_append)

/-- Every cycle was closed by some change. -/
theorem exists_closes_of_onCycle (possible : Possible changes) (h : (outcome changes).OnCycle o) :
    ∃ before c later, changes = before ++ c :: later ∧ c.Closes (outcome before) := by
  induction changes using List.reverseRecOn with
  | nil =>
      obtain ⟨p, first, -⟩ := Relation.TransGen.head'_iff.mp h
      exact absurd (has_of_references first) (Nat.not_lt_zero _)
  | append_singleton changes c ih =>
      rw [outcome_concat] at h
      rcases onCycle_of_onCycle_apply (closed_outcome possible.of_append) possible.last h
        with old | closes
      · obtain ⟨before, d, later, rfl, closes⟩ := ih possible.of_append old
        exact ⟨before, d, later ++ [c], by simp, closes⟩
      · exact ⟨changes, c, [], rfl, closes⟩

theorem visitAll_eq_some_of_onCycle {n : Node (Value ObjectId)} (reached : s.NodeReaches n o)
    (cycle : s.OnCycle o) :
    ∃ f, s.visitAll [] n.refs = some f ∧ f.error.kind = .cyclicReference := by
  cases h : s.visitAll [] n.refs with
  | none => exact absurd cycle ((visitAll_refs_eq_none_iff s [] n).mp h o reached).2
  | some f => exact ⟨f, rfl, visitAll_error h⟩

/-- Whatever is built over a store without cycles is written and converted. -/
theorem written_and_converted (acyclic : ∀ o, ¬ s.OnCycle o) :
    (∀ n, ∃ text, s.print n = .ok text) ∧
      ∀ (i : Input (Value ObjectId)) bindings,
        ∃ j, s.nodeJson? bindings [] i.node = some (.ok j) := by
  have free (n : Node (Value ObjectId)) : s.visitAll [] n.refs = none :=
    (visitAll_refs_eq_none_iff s [] n).mpr fun o _ => ⟨List.not_mem_nil, acyclic o⟩
  constructor
  · intro n
    exact ⟨_, by rw [print_eq, free n]⟩
  · intro i bindings
    have converted := (errorOf_inputJson s bindings [] i).trans (free i.node)
    obtain ⟨j, hj⟩ := errorOf_eq_none_iff.mp converted
    exact ⟨j, by rw [nodeJson_node, hj]⟩

/-- Whatever leads to an object that contains itself can neither be written nor converted. -/
theorem neither_written_nor_converted (cycle : s.OnCycle o) :
    (∀ n, s.NodeReaches n o → ∃ e, s.print n = .error e ∧ e.kind = .cyclicReference) ∧
      ∀ (i : Input (Value ObjectId)), s.NodeReaches i.node o → ∀ bindings,
        ∃ f, s.nodeJson? bindings [] i.node = some (.error f) ∧
          f.error.kind = .cyclicReference := by
  constructor
  · intro n reached
    obtain ⟨f, failed, kind⟩ := visitAll_eq_some_of_onCycle reached cycle
    exact ⟨f.error, by rw [print_eq, failed], kind⟩
  · intro i reached bindings
    obtain ⟨f, failed, kind⟩ := visitAll_eq_some_of_onCycle reached cycle
    refine ⟨f, ?_, kind⟩
    have error := (errorOf_inputJson s bindings [] i).trans failed
    rw [nodeJson_node]
    cases h : s.inputJson bindings [] i with
    | ok j => rw [h] at error; cases error
    | error f' =>
        rw [h] at error
        rw [Option.some.inj error]

/-- Over any history, objects come to contain themselves by an added field only, and only by one
from which the object can be reached. Without such a change everything is written and converted.
After one, whatever leads to the object fails as a cyclic reference, whatever else happens. -/
theorem cycles_come_from_append_and_stay (changes : List Change) (possible : Possible changes) :
    ((∀ before c later, changes = before ++ c :: later → ¬ c.Closes (outcome before)) →
      (∀ o, ¬ (outcome changes).OnCycle o) ∧
      (∀ n, ∃ text, (outcome changes).print n = .ok text) ∧
      ∀ (i : Input (Value ObjectId)) bindings,
        ∃ j, (outcome changes).nodeJson? bindings [] i.node = some (.ok j)) ∧
    (∀ before c later, changes = before ++ c :: later → c.isAppend = false →
      ∀ o, (outcome (before ++ [c])).OnCycle o → (outcome before).OnCycle o) ∧
    ∀ before o f later, changes = before ++ .append o f :: later →
      (Change.append o f).Closes (outcome before) →
      (outcome changes).OnCycle o ∧
      (∀ n, (outcome changes).NodeReaches n o →
        ∃ e, (outcome changes).print n = .error e ∧ e.kind = .cyclicReference) ∧
      ∀ (i : Input (Value ObjectId)), (outcome changes).NodeReaches i.node o → ∀ bindings,
        ∃ f, (outcome changes).nodeJson? bindings [] i.node = some (.error f) ∧
          f.error.kind = .cyclicReference := by
  refine ⟨?_, ?_, ?_⟩
  · intro careful
    have acyclic (o : ObjectId) : ¬ (outcome changes).OnCycle o := by
      intro cycle
      obtain ⟨before, c, later, split, closes⟩ := exists_closes_of_onCycle possible cycle
      exact careful before c later split closes
    exact ⟨acyclic, written_and_converted acyclic⟩
  · rintro before c later rfl creates o cycle
    have known := possible before c later rfl
    rw [outcome_concat] at cycle
    have closed := closed_outcome possible.of_append
    exact (creates_of_not_append closed known creates).onCycle closed cycle
  · rintro before o f later rfl closes
    have has : (outcome before).Has o :=
      possible before _ later rfl o (List.mem_cons_self ..)
    have thereafter : (outcome (before ++ [.append o f])).OnCycle o := by
      rw [outcome_concat]
      exact onCycle_of_closes has closes
    rw [List.append_cons] at possible ⊢
    have cycle := onCycle_outcome_append possible thereafter
    exact ⟨cycle, neither_written_nor_converted cycle⟩

/-- An object, one with it in a list, and one from JSON. -/
def growingHistory : List Change :=
  [.create [⟨"a", .int "1"⟩], .extend ⟨0⟩ ⟨"self", .list [.object ⟨0⟩]⟩,
    .ofJson (.object [⟨"b", .null⟩])]

/-- The second object is put into the first one, and then copied. -/
def closingHistory : List Change :=
  growingHistory ++ .append ⟨0⟩ ⟨"next", .objects [⟨2⟩, ⟨1⟩]⟩ :: [.copy ⟨1⟩]

theorem copy_of_closed_loop_fails :
    Possible closingHistory ∧
    (Change.append ⟨0⟩ ⟨"next", .objects [⟨2⟩, ⟨1⟩]⟩).Closes (outcome growingHistory) ∧
    ∃ e, (outcome closingHistory).print (.value (.object ⟨3⟩)) = .error e ∧
      e.kind = .cyclicReference := by
  have possible : Possible closingHistory :=
    ((((possible_nil.concat (by decide +kernel)).concat (by decide +kernel)).concat
      (by decide +kernel)).concat (by decide +kernel)).concat (by decide +kernel)
  have closes : (Change.append ⟨0⟩ ⟨"next", .objects [⟨2⟩, ⟨1⟩]⟩).Closes
      (outcome growingHistory) := by
    have back : (outcome growingHistory).References ⟨1⟩ ⟨0⟩ := by
      rw [References]
      decide +kernel
    exact ⟨⟨1⟩, by decide, .single back⟩
  have reached : (outcome closingHistory).NodeReaches (.value (.object ⟨3⟩)) ⟨0⟩ := by
    have copied : (outcome closingHistory).References ⟨3⟩ ⟨0⟩ := by
      rw [References]
      decide +kernel
    exact ⟨⟨3⟩, by decide, .single copied⟩
  obtain ⟨-, -, stays⟩ := cycles_come_from_append_and_stay closingHistory possible
  exact ⟨possible, closes, (stays growingHistory _ _ [.copy ⟨1⟩] rfl closes).2.1 _ reached⟩

end Store

end QueryDoc
