import QueryDoc.Proofs.Creation
import QueryDoc.Proofs.Tree
import QueryDoc.Proofs.Writing
import QueryDoc.Value.Json

/-!
What a part of a request depends on. Writing a part and converting it read the fields of the objects
that can be reached from it, and nothing else of the store. So they are not affected by a field that
is added to another object, nor by objects that are new. Of the fields themselves they see the names,
the layout and the JSON only, so that stores with other fields may look alike to them.
-/

namespace QueryDoc

namespace Value

variable {Ref ε : Type} {object object' : Ref → Except ε Json} (bindings : Option Bindings)

theorem refsJson_congr {refs : List Ref} (h : ∀ r ∈ refs, object' r = object r) :
    refsJson object' refs = refsJson object refs := by
  induction refs with
  | nil => rfl
  | cons r refs ih =>
      rw [refsJson, refsJson, h r (List.mem_cons_self ..),
        ih fun q hq => h q (List.mem_cons_of_mem r hq)]

theorem itemsJson_congr {items : List (Value Ref)}
    (h : ∀ v ∈ items, toJson object' bindings v = toJson object bindings v) :
    itemsJson object' bindings items = itemsJson object bindings items := by
  induction items with
  | nil => rfl
  | cons v items ih =>
      rw [itemsJson, itemsJson, h v (List.mem_cons_self ..),
        ih fun w hw => h w (List.mem_cons_of_mem v hw)]

theorem toJson_congr (v : Value Ref) (h : ∀ r ∈ v.refs, object' r = object r) :
    toJson object' bindings v = toJson object bindings v := by
  induction v using induct with
  | null | bool _ | int _ | float _ | string _ | enumerator _ | var _ | bytes _ => rfl
  | list items ih =>
      rw [refs_list] at h
      rw [toJson, toJson, itemsJson_congr bindings fun v hv => ih v hv fun r hr => ?_]
      exact h r (List.mem_flatMap_of_mem hv hr)
  | objects refs =>
      have same : refsJson object' refs = refsJson object refs := refsJson_congr h
      rw [toJson, toJson, same]
  | object ref => exact h ref (List.mem_singleton_self ref)

theorem entriesJson_congr {entries : List (Entry (Value Ref))}
    (h : ∀ e ∈ entries, ∀ r ∈ e.value.refs, object' r = object r) :
    entriesJson object' bindings entries = entriesJson object bindings entries := by
  induction entries with
  | nil => rfl
  | cons e entries ih =>
      rw [entriesJson, entriesJson, toJson_congr bindings e.value (h e (List.mem_cons_self ..)),
        ih fun e' he => h e' (List.mem_cons_of_mem e he)]

end Value

namespace Store

variable {s t : Store} {trail : Trail} {o p : ObjectId} {n : Node (Value ObjectId)}

/-- The objects that can be reached have the same fields in another store. -/
def AgreesBelow (s t : Store) (o : ObjectId) : Prop :=
  ∀ p, s.Reaches o p → t.fields p = s.fields p

theorem AgreesBelow.here (h : s.AgreesBelow t o) : t.fields o = s.fields o := h o .refl

theorem AgreesBelow.inside (h : s.AgreesBelow t o) (hp : p ∈ s.objectRefs o) :
    s.AgreesBelow t p :=
  fun q hq => h q (.head hp hq)

/-- Writing and conversion cannot tell the object in one store from that in the other one. -/
structure Alike (s t : Store) (o : ObjectId) : Prop where
  names : Entry.names (t.fields o) = Entry.names (s.fields o)
  layout : t.objectLayout o = s.objectLayout o
  json : ∀ (object : ObjectId → Except Failure Json) bindings,
    Value.entriesJson object bindings (t.fields o) = Value.entriesJson object bindings (s.fields o)

theorem Alike.of_fields (h : t.fields o = s.fields o) : s.Alike t o where
  names := by rw [h]
  layout := by rw [objectLayout, objectLayout, h]
  json object bindings := by rw [h]

theorem Alike.cycleAt (h : s.Alike t o) : t.cycleAt o = s.cycleAt o := by
  rw [Store.cycleAt, Store.cycleAt, h.names]

def AlikeBelow (s t : Store) (o : ObjectId) : Prop := ∀ p, s.Reaches o p → s.Alike t p

theorem AlikeBelow.here (h : s.AlikeBelow t o) : s.Alike t o := h o .refl

theorem AlikeBelow.inside (h : s.AlikeBelow t o) (hp : p ∈ s.objectRefs o) : s.AlikeBelow t p :=
  fun q hq => h q (.head hp hq)

theorem AgreesBelow.alike (h : s.AgreesBelow t o) : s.AlikeBelow t o :=
  fun p hp => .of_fields (h p hp)

theorem write_congr (trail : Trail) (layout : Layout ObjectId) (b : Buffer)
    (h : ∀ o ∈ layout.refs, s.AlikeBelow t o) :
    t.write trail layout b = s.write trail layout b := by
  induction trail, layout, b using write_induct (s := s) with
  | done trail b => rw [write]
  | text trail x rest b b' added ih =>
      rw [write, added]
      exact ih h
  | textRefused trail x rest b refused => rw [write, refused]
  | lineBreak trail level rest b b' added ih =>
      rw [write, added]
      exact ih h
  | lineBreakRefused trail level rest b refused => rw [write, refused]
  | met trail o rest b met =>
      rw [write, if_pos met, (h o (List.mem_cons_self ..)).here.cycleAt]
  | object trail o rest b b' fresh _ ih ihrest =>
      have below := h o (List.mem_cons_self ..)
      have inner := ih fun p hp => below.inside (by rwa [refs_objectLayout] at hp)
      rw [write, if_neg fresh, below.here.layout, inner]
      exact ihrest fun p hp => h p (List.mem_cons_of_mem o hp)
  | inside trail o rest b b' f fresh ih =>
      have below := h o (List.mem_cons_self ..)
      have inner := ih fun p hp => below.inside (by rwa [refs_objectLayout] at hp)
      rw [write, if_neg fresh, below.here.layout, inner]

theorem objectJson_congr (bindings : Option Bindings) (trail : Trail) (o : ObjectId)
    (h : s.AlikeBelow t o) : t.objectJson bindings trail o = s.objectJson bindings trail o := by
  induction trail, o using visit_induct (s := s) with
  | met trail o met =>
      rw [objectJson_eq, objectJson_eq, if_pos met, if_pos met, h.here.cycleAt]
  | enter trail o fresh ih =>
      rw [objectJson_eq, objectJson_eq, if_neg fresh, if_neg fresh, h.here.json,
        Value.entriesJson_congr bindings fun e he p hp => ?_]
      have hp := mem_objectRefs he hp
      exact ih p hp (h.inside hp)

theorem treeInside_congr (trail : Trail) (o : ObjectId) (h : s.AgreesBelow t o) :
    t.treeInside trail o = s.treeInside trail o := by
  induction trail, o using visit_induct (s := s) with
  | met trail o met => rw [treeInside, treeInside, if_pos met, if_pos met]
  | enter trail o fresh ih =>
      rw [treeInside_of_not_mem fresh, treeInside_of_not_mem fresh, h.here]
      exact congrArg ObjectTree.node (map_fields_congr fun p hp => ih p hp (h.inside hp))

/-- Writing and converting have the same outcome in both stores, wherever they start. -/
structure SameOutcomes (s t : Store) (n : Node (Value ObjectId)) : Prop where
  written : ∀ trail level b, t.writeNode trail level n b = s.writeNode trail level n b
  converted : ∀ bindings trail, t.nodeJson? bindings trail n = s.nodeJson? bindings trail n

/-- Only the objects that can be reached from a part have a part in its outcomes. -/
theorem sameOutcomes_of_alike (h : ∀ o, s.NodeReaches n o → s.Alike t o) :
    s.SameOutcomes t n := by
  have below : ∀ o ∈ n.refs, s.AlikeBelow t o := fun o ho p hp => h p ⟨o, ho, hp⟩
  constructor
  · intro trail level b
    exact write_congr trail _ b (by rwa [refs_ofNode_ofValue])
  · intro bindings trail
    have object : ∀ o ∈ n.refs,
        t.objectJson bindings trail o = s.objectJson bindings trail o :=
      fun o ho => objectJson_congr bindings trail o (below o ho)
    cases n with
    | value v =>
        have refs : (Node.value v).refs = v.refs := List.append_nil _
        rw [nodeJson?, nodeJson?, valueJson, valueJson,
          Value.toJson_congr bindings v (refs ▸ object)]
    | arguments es =>
        rw [nodeJson?, nodeJson?, Value.entriesJson_congr bindings fun e he o ho => object o ?_]
        exact List.mem_flatMap_of_mem (List.mem_map_of_mem he) ho
    | _ => rfl

theorem sameOutcomes (h : ∀ o, s.NodeReaches n o → t.fields o = s.fields o) :
    s.SameOutcomes t n :=
  sameOutcomes_of_alike fun o ho => .of_fields (h o ho)

theorem sameOutcomes_append {f : InputField} (apart : ¬ s.NodeReaches n o) :
    s.SameOutcomes (s.append o f) n := by
  refine sameOutcomes fun p hp => fields_append_of_ne f ?_
  rintro rfl
  exact apart hp

/-- The objects of a part that is there before do not lead to new ones. -/
theorem sameOutcomes_extends (closed : s.Closed) (known : ∀ o ∈ n.refs, s.Has o)
    (h : s.Extends t) : s.SameOutcomes t n := by
  refine sameOutcomes fun p hp => ?_
  obtain ⟨o, ho, reached⟩ := hp
  exact (h p (reached.has closed (known o ho))).2

end Store

end QueryDoc
