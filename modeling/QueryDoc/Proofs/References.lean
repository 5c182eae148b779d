import Mathlib.Logic.Relation
import QueryDoc.Node
import QueryDoc.Trail

/-!
The objects that a part of a request holds, directly and through the fields of other objects. An
object references the objects in the values of its fields, lists included; following references
gives the objects that can be reached, and an object is on a cycle if it is reached from itself by
at least one reference.
-/

namespace QueryDoc

namespace Value

variable {Ref S T : Type}

/-- Induction over values, with a hypothesis for every item of a list. -/
@[elab_as_elim]
theorem induct {motive : Value Ref → Prop} (v : Value Ref)
    (null : motive .null) (bool : ∀ b, motive (.bool b)) (int : ∀ text, motive (.int text))
    (float : ∀ text, motive (.float text)) (string : ∀ text, motive (.string text))
    (enumerator : ∀ name, motive (.enumerator name)) (var : ∀ name, motive (.var name))
    (bytes : ∀ content, motive (.bytes content))
    (list : ∀ items, (∀ v ∈ items, motive v) → motive (.list items))
    (objects : ∀ refs, motive (.objects refs)) (object : ∀ ref, motive (.object ref)) :
    motive v :=
  @Value.rec Ref motive (fun items => ∀ v ∈ items, motive v) null bool int float string enumerator
    var bytes list objects object (fun _ h => nomatch h)
    (fun _ _ hv hitems _ h => (List.mem_cons.mp h).elim (fun e => e ▸ hv) (hitems _)) v

@[simp]
theorem refs_list (items : List (Value Ref)) :
    (Value.list items).refs = items.flatMap refs :=
  itemRefs_eq items

@[simp]
theorem map_list (f : Ref → S) (items : List (Value Ref)) :
    (Value.list items).map f = .list (items.map (map f)) :=
  congrArg Value.list (mapItems_eq f items)

theorem map_congr {f g : Ref → S} (v : Value Ref) (h : ∀ r ∈ v.refs, f r = g r) :
    v.map f = v.map g := by
  induction v using induct with
  | null | bool _ | int _ | float _ | string _ | enumerator _ | var _ | bytes _ => rfl
  | list items ih =>
      rw [map_list, map_list, List.map_congr_left]
      intro v hv
      apply ih v hv
      intro r hr
      exact h r (by rw [refs_list]; exact List.mem_flatMap_of_mem hv hr)
  | objects refs => exact congrArg Value.objects (List.map_congr_left h)
  | object ref => exact congrArg Value.object (h ref (List.mem_singleton_self ref))

theorem map_map (f : Ref → S) (g : S → T) (v : Value Ref) :
    (v.map f).map g = v.map (g ∘ f) := by
  induction v using induct with
  | null | bool _ | int _ | float _ | string _ | enumerator _ | var _ | bytes _ | object _ => rfl
  | list items ih => simpa using ih
  | objects refs => exact congrArg Value.objects List.map_map

end Value

namespace Field

variable {V : Type}

/-- Induction over fields, with a hypothesis for every field of the selections. -/
@[elab_as_elim]
theorem induct {motive : Field V → Prop} (f : Field V)
    (mk : ∀ aliasName name arguments selections, (∀ f ∈ selections, motive f) →
      motive ⟨aliasName, name, arguments, selections⟩) :
    motive f :=
  @Field.rec V motive (fun fields => ∀ f ∈ fields, motive f) mk (fun _ h => nomatch h)
    (fun _ _ hf hfields _ h => (List.mem_cons.mp h).elim (fun e => e ▸ hf) (hfields _)) f

mutual

/-- The values in a field, its arguments before those of its selections. -/
def values : Field V → List V
  | ⟨_, _, arguments, selections⟩ => arguments.map Entry.value ++ valuesAll selections
termination_by structural f => f

def valuesAll : List (Field V) → List V
  | [] => []
  | f :: fields => f.values ++ valuesAll fields
termination_by structural fields => fields

end

theorem valuesAll_eq (fields : List (Field V)) : valuesAll fields = fields.flatMap values := by
  induction fields with
  | nil => rfl
  | cons f fields ih => rw [valuesAll, ih, List.flatMap_cons]

end Field

def VariableDefinition.values {V : Type} (d : VariableDefinition V) : List V := d.default.toList

def Operation.values {V : Type} (op : Operation V) : List V :=
  op.definitions.flatMap VariableDefinition.values ++ op.selections.flatMap Field.values

namespace Node

variable {V : Type}

/-- The values in a node, in reading order. -/
def values : Node V → List V
  | .value v => [v]
  | .entry e => [e.value]
  | .arguments as => as.map Entry.value
  | .selectionSet fields => fields.flatMap Field.values
  | .field f => f.values
  | .typeRef _ => []
  | .variableDefinition d => d.values
  | .variableDefinitions ds => ds.flatMap VariableDefinition.values
  | .operation op => op.values
  | .document d => d.operations.flatMap Operation.values

def refs (n : Node (Value ObjectId)) : List ObjectId := n.values.flatMap Value.refs

end Node

namespace Store

variable {s : Store} {trail : Trail} {o p : ObjectId}

/-- The objects in the fields of an object, in reading order. -/
def objectRefs (s : Store) (o : ObjectId) : List ObjectId :=
  (s.fields o).flatMap fun f => f.value.refs

def References (s : Store) (o p : ObjectId) : Prop := p ∈ s.objectRefs o

/-- Every object is reached from itself. -/
def Reaches (s : Store) (o p : ObjectId) : Prop := Relation.ReflTransGen s.References o p

def OnCycle (s : Store) (o : ObjectId) : Prop := Relation.TransGen s.References o o

def NodeReaches (s : Store) (n : Node (Value ObjectId)) (o : ObjectId) : Prop :=
  ∃ r ∈ n.refs, s.Reaches r o

/-- Everything that can be reached from the object is off the trail and on no cycle. -/
def Clear (s : Store) (trail : Trail) (o : ObjectId) : Prop :=
  ∀ p, s.Reaches o p → p ∉ trail ∧ ¬ s.OnCycle p

theorem mem_objectRefs {f : InputField} (hf : f ∈ s.fields o) (hp : p ∈ f.value.refs) :
    p ∈ s.objectRefs o :=
  List.mem_flatMap_of_mem hf hp

theorem onCycle_of_returns (h : p ∈ s.objectRefs o) (back : s.Reaches p o) : s.OnCycle o :=
  Relation.TransGen.head' h back

/-- Being clear passes to the fields, with the object itself on the trail, and back. -/
theorem clear_iff :
    s.Clear trail o ↔ o ∉ trail ∧ ∀ p ∈ s.objectRefs o, s.Clear (o :: trail) p := by
  constructor
  · intro h
    refine ⟨(h o .refl).1, ?_⟩
    intro p hp q hq
    obtain ⟨off, acyclic⟩ := h q (.head hp hq)
    have ne : q ≠ o := by
      rintro rfl
      exact acyclic (onCycle_of_returns hp hq)
    exact ⟨by simp [ne, off], acyclic⟩
  · rintro ⟨off, below⟩ q hq
    rcases Relation.ReflTransGen.cases_head hq with rfl | ⟨p, hp, hq⟩
    · refine ⟨off, fun cycle => ?_⟩
      obtain ⟨p, hp, back⟩ := Relation.TransGen.head'_iff.mp cycle
      exact (below p hp o back).1 (List.mem_cons_self ..)
    · obtain ⟨off', acyclic⟩ := below p hp q hq
      exact ⟨fun h => off' (List.mem_cons_of_mem o h), acyclic⟩

theorem Clear.mono {trail' : Trail} (h : s.Clear trail o) (sub : trail' ⊆ trail) :
    s.Clear trail' o :=
  fun p hp => ⟨fun h' => (h p hp).1 (sub h'), (h p hp).2⟩

theorem clear_of_reaches {n : Node (Value ObjectId)}
    (h : ∀ o, s.NodeReaches n o → o ∉ trail ∧ ¬ s.OnCycle o) : ∀ o ∈ n.refs, s.Clear trail o :=
  fun o ho p hp => h p ⟨o, ho, hp⟩

end Store

end QueryDoc
