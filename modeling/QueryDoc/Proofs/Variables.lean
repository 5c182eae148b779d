import QueryDoc.Proofs.Json.Same
import QueryDoc.Proofs.Unfolding

/-!
The variables that occur in an input, also in the objects that it leads to. The JSON of an input
depends on what these are bound to, and on no other variable. If that only changes in its numbers,
so does the JSON.
-/

namespace QueryDoc

namespace Value

variable {Ref : Type}

mutual

/-- The variables in a value, its objects being given by theirs. -/
def variableNames : Value (List String) → List String
  | .var name => [name]
  | .list items => itemVariableNames items
  | .objects names => names.flatten
  | .object names => names
  | _ => []
termination_by structural v => v

def itemVariableNames : List (Value (List String)) → List String
  | [] => []
  | v :: items => v.variableNames ++ itemVariableNames items
termination_by structural items => items

end

theorem itemVariableNames_eq (items : List (Value (List String))) :
    itemVariableNames items = items.flatMap variableNames := by
  induction items with
  | nil => rfl
  | cons v items ih => rw [itemVariableNames, ih, List.flatMap_cons]

end Value

namespace ObjectTree

def variableNames : ObjectTree → List String :=
  fold fun fields => fields.flatMap fun e => e.value.variableNames

/-- Induction over trees, with a hypothesis for every tree in the fields. -/
@[elab_as_elim]
theorem induct {motive : ObjectTree → Prop} (t : ObjectTree)
    (node : ∀ fields, (∀ e ∈ fields, ∀ t ∈ e.value.refs, motive t) → motive (.node fields)) :
    motive t :=
  @ObjectTree.rec motive (fun fields => ∀ e ∈ fields, ∀ t ∈ e.value.refs, motive t)
    (fun e => ∀ t ∈ e.value.refs, motive t) (fun v => ∀ t ∈ v.refs, motive t)
    (fun items => ∀ t ∈ Value.itemRefs items, motive t) (fun trees => ∀ t ∈ trees, motive t)
    node nofun (fun _ _ he hfields _ h => (List.mem_cons.mp h).elim (fun e => e ▸ he) (hfields _))
    (fun _ _ h => h) nofun (fun _ => nofun) (fun _ => nofun) (fun _ => nofun) (fun _ => nofun)
    (fun _ => nofun) (fun _ => nofun) (fun _ => nofun) (fun _ h => h) (fun _ h => h)
    (fun _ h _ ht => List.mem_singleton.mp ht ▸ h) nofun
    (fun _ _ hv hitems t ht => (List.mem_append.mp ht).elim (hv t) (hitems t)) nofun
    (fun _ _ ht htrees _ h => (List.mem_cons.mp h).elim (fun e => e ▸ ht) (htrees _)) t

end ObjectTree

namespace Input

/-- The variables in an input whose objects are given by theirs. -/
def occurring : Input (Value (List String)) → List String
  | .value v => v.variableNames
  | .arguments as => as.flatMap fun e => e.value.variableNames

/-- The variables in an unfolded input. -/
def variableNames (u : Input (Value ObjectTree)) : List String :=
  (u.map (Value.map ObjectTree.variableNames)).occurring

end Input

section Dependence

variable {g : Number → Number} {b b' : Option Bindings} {name : String}

/-- Both bind the variable to one JSON value, but for the numbers in it. -/
def BoundAlike (g : Number → Number) (b b' : Option Bindings) (name : String) : Prop :=
  (binding b name).mapNumbers g = (binding b' name).mapNumbers g

namespace Value

variable {Ref : Type} {names : Ref → List String} {G G' : Ref → Json}

theorem mapNumbers_json (v : Value Ref)
    (bound : ∀ x ∈ (v.map names).variableNames, BoundAlike g b b' x)
    (objects : ∀ r ∈ v.refs, (∀ x ∈ names r, BoundAlike g b b' x) →
      (G r).mapNumbers g = (G' r).mapNumbers g) :
    ((v.map G).json b).mapNumbers g = ((v.map G').json b').mapNumbers g := by
  induction v using induct with
  | null | bool _ | int _ | float _ | string _ | enumerator _ | bytes _ => rfl
  | var name => exact bound name (List.mem_singleton_self name)
  | list items ih =>
      rw [map_list, variableNames, itemVariableNames_eq] at bound
      rw [map_list, map_list, json, json, jsonItems_eq, jsonItems_eq, Json.mapNumbers_array,
        Json.mapNumbers_array, List.map_map, List.map_map, List.map_map, List.map_map]
      refine congrArg Json.array (List.map_congr_left fun v hv => ih v hv ?_ ?_)
      · intro x hx
        exact bound x (List.mem_flatMap_of_mem (List.mem_map_of_mem hv) hx)
      · intro r hr
        exact objects r (by rw [refs_list]; exact List.mem_flatMap_of_mem hv hr)
  | objects refs =>
      rw [map, map, json, json, Json.mapNumbers_array, Json.mapNumbers_array, List.map_map,
        List.map_map]
      refine congrArg Json.array (List.map_congr_left fun r hr => objects r hr ?_)
      intro x hx
      exact bound x (List.mem_flatten_of_mem (List.mem_map_of_mem hr) hx)
  | object ref => exact objects ref (List.mem_singleton_self ref) bound

theorem mapNumbers_ofEntries_json {entries : List (Entry (Value Ref))}
    (bound : ∀ x ∈ (entries.map (Entry.map (map names))).flatMap fun e => e.value.variableNames,
      BoundAlike g b b' x)
    (objects : ∀ e ∈ entries, ∀ r ∈ e.value.refs, (∀ x ∈ names r, BoundAlike g b b' x) →
      (G r).mapNumbers g = (G' r).mapNumbers g) :
    (Json.ofEntries ((entries.map (Entry.map (map G))).map (Entry.map (json b)))).mapNumbers g =
      (Json.ofEntries ((entries.map (Entry.map (map G'))).map (Entry.map (json b')))).mapNumbers
        g := by
  rw [Json.mapNumbers_ofEntries, Json.mapNumbers_ofEntries, List.map_map, List.map_map,
    List.map_map, List.map_map]
  refine congrArg Json.ofEntries (List.map_congr_left fun e he => congrArg (Entry.mk e.name) ?_)
  refine mapNumbers_json e.value (fun x hx => bound x ?_) (objects e he)
  exact List.mem_flatMap_of_mem (List.mem_map_of_mem he) hx

end Value

theorem ObjectTree.mapNumbers_json (t : ObjectTree)
    (bound : ∀ x ∈ t.variableNames, BoundAlike g b b' x) :
    (t.json b).mapNumbers g = (t.json b').mapNumbers g := by
  induction t using induct with
  | node fields ih =>
      rw [variableNames, fold_node] at bound
      rw [json, json, fold_node, fold_node]
      exact Value.mapNumbers_ofEntries_json bound fun e he t ht h => ih e he t ht h

/-- Variables that do not occur have no part in the JSON of an input. -/
theorem Input.mapNumbers_convert (u : Input (Value ObjectTree))
    (bound : ∀ x ∈ u.variableNames, BoundAlike g b b' x) :
    (u.convert b).mapNumbers g = (u.convert b').mapNumbers g := by
  cases u with
  | value v =>
      exact Value.mapNumbers_json v bound fun t _ h => t.mapNumbers_json h
  | arguments as =>
      exact Value.mapNumbers_ofEntries_json bound fun e _ t _ h => t.mapNumbers_json h

theorem ObjectTree.json_congr (t : ObjectTree)
    (bound : ∀ x ∈ t.variableNames, binding b x = binding b' x) : t.json b = t.json b' := by
  have same := t.mapNumbers_json (g := id) fun x hx => congrArg (Json.mapNumbers id) (bound x hx)
  rwa [Json.mapNumbers_id, Json.mapNumbers_id] at same

/-- Bindings that agree on the variables of an input give it the same JSON. -/
theorem Input.convert_congr (u : Input (Value ObjectTree))
    (bound : ∀ x ∈ u.variableNames, binding b x = binding b' x) : u.convert b = u.convert b' := by
  have same := u.mapNumbers_convert (g := id) fun x hx => congrArg (Json.mapNumbers id) (bound x hx)
  rwa [Json.mapNumbers_id, Json.mapNumbers_id] at same

end Dependence

end QueryDoc
