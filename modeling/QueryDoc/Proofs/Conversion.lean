import QueryDoc.Proofs.Writing
import QueryDoc.Value.Json

/-!
Conversion to JSON beside writing. Both take the objects of a value in reading order and in full, so
that both fail as the walk through these objects does; variables, levels and the names of fields
have no part in it.
-/

namespace QueryDoc

/-- What can be written and also be converted to JSON. -/
inductive Input (V : Type) where
  | value (v : V)
  | arguments (as : List (Entry V))

namespace Input

variable {V W : Type}

def node : Input V → Node V
  | .value v => .value v
  | .arguments as => .arguments as

def map (g : V → W) : Input V → Input W
  | .value v => .value (g v)
  | .arguments as => .arguments (as.map (·.map g))

def refs (i : Input (Value ObjectId)) : List ObjectId := i.node.refs

end Input

/-- The error of a result that is one. -/
def errorOf {ε α : Type} : Except ε α → Option ε
  | .ok _ => none
  | .error e => some e

section Results

variable {ε α β : Type}

@[simp] theorem errorOf_ok (a : α) : errorOf (.ok a : Except ε α) = none := rfl

@[simp] theorem errorOf_error (e : ε) : errorOf (.error e : Except ε α) = some e := rfl

@[simp]
theorem errorOf_map (f : α → β) (x : Except ε α) : errorOf (x.map f) = errorOf x := by
  cases x <;> rfl

theorem errorOf_eq_none_iff {x : Except ε α} : errorOf x = none ↔ ∃ a, x = .ok a := by
  cases x <;> simp

/-- Two results in a row fail as the first one that fails. -/
theorem errorOf_both {γ : Type} (x : Except ε α) (y : Except ε β) (f : α → β → γ) :
    errorOf (do let a ← x; let b ← y; return f a b) = (errorOf x).or (errorOf y) := by
  cases x <;> cases y <;> rfl

end Results

namespace Value

variable {Ref ε : Type} (object : Ref → Except ε Json) (bindings : Option Bindings)

theorem errorOf_refsJson (refs : List Ref) :
    errorOf (refsJson object refs) = refs.findSome? fun r => errorOf (object r) := by
  induction refs with
  | nil => rfl
  | cons r refs ih =>
      rw [refsJson, errorOf_both, ih, List.findSome?_cons]
      cases errorOf (object r) <;> rfl

theorem errorOf_itemsJson {items : List (Value Ref)}
    (h : ∀ v ∈ items, errorOf (toJson object bindings v) =
      v.refs.findSome? fun r => errorOf (object r)) :
    errorOf (itemsJson object bindings items) =
      (items.flatMap refs).findSome? fun r => errorOf (object r) := by
  induction items with
  | nil => rfl
  | cons v items ih =>
      rw [itemsJson, errorOf_both, h v (List.mem_cons_self ..),
        ih fun w hw => h w (List.mem_cons_of_mem v hw), List.flatMap_cons, List.findSome?_append]

theorem errorOf_toJson (v : Value Ref) :
    errorOf (toJson object bindings v) = v.refs.findSome? fun r => errorOf (object r) := by
  induction v using induct with
  | null | bool _ | int _ | float _ | string _ | enumerator _ | var _ | bytes _ => rfl
  | list items ih =>
      rw [toJson, errorOf_map, errorOf_itemsJson object bindings ih, refs_list]
  | objects refs => rw [toJson, errorOf_map, errorOf_refsJson, Value.refs]
  | object ref =>
      rw [toJson, Value.refs, List.findSome?_singleton]

theorem errorOf_entriesJson (entries : List (Entry (Value Ref))) :
    errorOf (entriesJson object bindings entries) =
      (entries.flatMap fun e => e.value.refs).findSome? fun r => errorOf (object r) := by
  induction entries with
  | nil => rfl
  | cons e entries ih =>
      rw [entriesJson, errorOf_both, errorOf_toJson, ih, List.flatMap_cons,
        List.findSome?_append]

end Value

namespace Store

variable {s : Store}

theorem errorOf_objectJson (s : Store) (bindings : Option Bindings) (trail : Trail)
    (o : ObjectId) : errorOf (s.objectJson bindings trail o) = s.visit trail o := by
  induction trail, o using visit_induct (s := s) with
  | met trail o h => rw [objectJson_eq, visit_eq, if_pos h, if_pos h, errorOf_error]
  | enter trail o h ih =>
      have fields := Value.errorOf_entriesJson (s.objectJson bindings (o :: trail)) bindings
        (s.fields o)
      have below : s.visitAll (o :: trail) (s.objectRefs o) =
          (s.objectRefs o).findSome? fun p => errorOf (s.objectJson bindings (o :: trail) p) :=
        (findSome?_congr ih).symm
      rw [objectJson_eq, visit_eq, if_neg h, if_neg h, below, objectRefs, ← fields]
      cases Value.entriesJson (s.objectJson bindings (o :: trail)) bindings (s.fields o) <;> rfl

/-- The JSON of an input. -/
def inputJson (s : Store) (bindings : Option Bindings) (trail : Trail) :
    Input (Value ObjectId) → Except Failure Json
  | .value v => s.valueJson bindings trail v
  | .arguments as =>
    (Value.entriesJson (s.objectJson bindings trail) bindings as).map .ofEntries

theorem nodeJson_node (s : Store) (bindings : Option Bindings) (trail : Trail)
    (i : Input (Value ObjectId)) :
    s.nodeJson? bindings trail i.node = some (s.inputJson bindings trail i) := by
  cases i <;> rfl

theorem errorOf_inputJson (s : Store) (bindings : Option Bindings) (trail : Trail)
    (i : Input (Value ObjectId)) :
    errorOf (s.inputJson bindings trail i) = s.visitAll trail i.refs := by
  have object : (fun o => errorOf (s.objectJson bindings trail o)) = s.visit trail := by
    funext o
    exact errorOf_objectJson s bindings trail o
  cases i with
  | value v =>
      rw [inputJson, valueJson, Value.errorOf_toJson, object]
      simp [visitAll, Input.refs, Input.node, Node.refs, Node.values]
  | arguments as =>
      rw [inputJson, errorOf_map, Value.errorOf_entriesJson, object]
      simp [visitAll, Input.refs, Input.node, Node.refs, Node.values, List.flatMap_map]

end Store

end QueryDoc
