import QueryDoc.Proofs.Agreement
import QueryDoc.Proofs.Text

/-!
Sharing does not show. What a store's input unfolds to has trees in the place of objects, and so has
neither a store nor places that share anything. Text and JSON are those of the unfolding, wherever
no cycle can be reached, so that inputs with one unfolding are not told apart by either.
-/

namespace QueryDoc

namespace Value

variable (bindings : Option Bindings)

mutual

/-- The JSON of a value whose objects are JSON already. -/
def json : Value Json → Json
  | .null => .null
  | .bool b => .bool b
  | .int text => .ofIntText text
  | .float text => .ofFloatText text
  | .string text | .enumerator text => .string text
  | .var name => binding bindings name
  | .bytes content => .ofBytes content
  | .list items => .array (jsonItems items)
  | .objects js => .array js
  | .object j => j
termination_by structural v => v

def jsonItems : List (Value Json) → List Json
  | [] => []
  | v :: items => v.json :: jsonItems items
termination_by structural items => items

end

theorem jsonItems_eq (items : List (Value Json)) :
    jsonItems bindings items = items.map (json bindings) := by
  induction items with
  | nil => rfl
  | cons v items ih => rw [jsonItems, ih, List.map_cons]

variable {Ref ε : Type} {object : Ref → Except ε Json} {g : Ref → Json}

theorem refsJson_of_ok {refs : List Ref} (h : ∀ r ∈ refs, object r = .ok (g r)) :
    refsJson object refs = .ok (refs.map g) := by
  induction refs with
  | nil => rfl
  | cons r refs ih =>
      rw [refsJson, h r (List.mem_cons_self ..), ih fun q hq => h q (List.mem_cons_of_mem r hq)]
      rfl

theorem itemsJson_of_ok {items : List (Value Ref)}
    (h : ∀ v ∈ items, toJson object bindings v = .ok ((v.map g).json bindings)) :
    itemsJson object bindings items = .ok (jsonItems bindings (items.map (map g))) := by
  induction items with
  | nil => rfl
  | cons v items ih =>
      rw [itemsJson, h v (List.mem_cons_self ..), ih fun w hw => h w (List.mem_cons_of_mem v hw)]
      rfl

/-- Conversion goes through if it does for the objects. -/
theorem toJson_of_ok (v : Value Ref) (h : ∀ r ∈ v.refs, object r = .ok (g r)) :
    toJson object bindings v = .ok ((v.map g).json bindings) := by
  induction v using induct with
  | null | bool _ | int _ | float _ | string _ | enumerator _ | var _ | bytes _ => rfl
  | list items ih =>
      rw [toJson, itemsJson_of_ok bindings fun v hv => ih v hv fun r hr => h r ?_, map_list]
      · rfl
      · rw [refs_list]
        exact List.mem_flatMap_of_mem hv hr
  | objects refs =>
      have js : refsJson object refs = .ok (refs.map g) := refsJson_of_ok h
      rw [toJson, js]
      rfl
  | object ref => exact h ref (List.mem_singleton_self ref)

theorem entriesJson_of_ok {entries : List (Entry (Value Ref))}
    (h : ∀ e ∈ entries, ∀ r ∈ e.value.refs, object r = .ok (g r)) :
    entriesJson object bindings entries =
      .ok ((entries.map (Entry.map (map g))).map (Entry.map (json bindings))) := by
  induction entries with
  | nil => rfl
  | cons e entries ih =>
      rw [entriesJson, toJson_of_ok bindings e.value (h e (List.mem_cons_self ..)),
        ih fun e' he => h e' (List.mem_cons_of_mem e he)]
      rfl

end Value

def ObjectTree.json (bindings : Option Bindings) : ObjectTree → Json :=
  fold fun fields => .ofEntries (fields.map (Entry.map (Value.json bindings)))

namespace Input

/-- The text of an input whose objects are texts already. -/
def text : Input (Value String) → String
  | .value v => v.text
  | .arguments [] => ""
  | .arguments as => bracketed "(" ")" (as.map Entry.text)

/-- The JSON of an input whose objects are JSON already. -/
def json (bindings : Option Bindings) : Input (Value Json) → Json
  | .value v => v.json bindings
  | .arguments as => .ofEntries (as.map (Entry.map (Value.json bindings)))

/-- The text of an unfolded input, by recursion on its trees. -/
def print (u : Input (Value ObjectTree)) : String := (u.map (Value.map ObjectTree.text)).text

/-- The JSON of an unfolded input, by recursion on its trees. -/
def convert (bindings : Option Bindings) (u : Input (Value ObjectTree)) : Json :=
  (u.map (Value.map (ObjectTree.json bindings))).json bindings

theorem map_map_value {Ref S T : Type} (g : Ref → S) (f : S → T) (i : Input (Value Ref)) :
    (i.map (Value.map g)).map (Value.map f) = i.map (Value.map (f ∘ g)) := by
  cases i with
  | value v => exact congrArg Input.value (Value.map_map g f v)
  | arguments as =>
      rw [map, map, map, List.map_map]
      refine congrArg Input.arguments (List.map_congr_left fun e _ => ?_)
      exact congrArg (Entry.mk e.name) (Value.map_map g f e.value)

theorem text_ofNode {Ref : Type} (object : Ref → String) (level : Nat) (i : Input (Value Ref)) :
    (Layout.ofNode Layout.ofValue level i.node).text object = (i.map (Value.map object)).text := by
  cases i with
  | value v => exact Layout.text_ofValue object v
  | arguments as =>
      cases as with
      | nil => rfl
      | cons e es =>
          rw [node, Layout.ofNode, Layout.ofArguments, Layout.text_enclosed, map, List.map_map]
          · refine congrArg (bracketed "(" ")") ?_
            rw [List.map_map]
            exact List.map_congr_left fun e _ => Layout.text_ofEntry object e
          · exact List.cons_ne_nil e es

end Input

namespace Store

variable {s : Store} {trail : Trail} {o : ObjectId}

theorem objectJson_of_clear (bindings : Option Bindings) (h : s.Clear trail o) :
    s.objectJson bindings trail o = .ok ((s.tree o).json bindings) := by
  refine h.induct fun trail o clear ih => ?_
  obtain ⟨fresh, below⟩ := clear_iff.mp clear
  rw [objectJson_eq, if_neg fresh, Value.entriesJson_of_ok bindings fun e he p hp =>
    ih p (mem_objectRefs he hp) (below p (mem_objectRefs he hp)), ObjectTree.json,
    fold_tree _ clear]

/-- The input with trees in the place of objects. -/
def unfold (s : Store) (i : Input (Value ObjectId)) : Input (Value ObjectTree) :=
  i.map (Value.map s.tree)

theorem writeNode_unfold (level : Nat) {i : Input (Value ObjectId)} (before : String)
    (clear : ∀ o ∈ i.refs, s.Clear trail o) :
    s.writeNode trail level i.node { text := before } =
      { buffer := { text := before ++ (s.unfold i).print } } := by
  have written := write_text s trail (Layout.ofNode Layout.ofValue level i.node)
    { text := before } rfl (by rwa [refs_ofNode_ofValue])
  rw [Input.text_ofNode] at written
  rw [writeNode, written, unfold, Input.print, Input.map_map_value]
  rfl

theorem inputJson_unfold (bindings : Option Bindings) {i : Input (Value ObjectId)}
    (clear : ∀ o ∈ i.refs, s.Clear trail o) :
    s.inputJson bindings trail i = .ok ((s.unfold i).convert bindings) := by
  have object : ∀ o ∈ i.refs,
      s.objectJson bindings trail o = .ok ((ObjectTree.json bindings ∘ s.tree) o) :=
    fun o ho => objectJson_of_clear bindings (clear o ho)
  rw [unfold, Input.convert, Input.map_map_value]
  cases i with
  | value v =>
      refine Value.toJson_of_ok bindings v fun o ho => object o ?_
      simpa [Input.refs, Input.node, Node.refs, Node.values] using ho
  | arguments as =>
      rw [inputJson, Value.entriesJson_of_ok bindings fun e he o ho => object o ?_]
      · rfl
      · simpa [Input.refs, Input.node, Node.refs, Node.values, List.mem_flatMap] using
          ⟨e, he, ho⟩

/-- Where neither the trail nor a cycle can be reached, text and JSON are those of the unfolding,
and the trail is left as it was; inputs with one unfolding have one text and one JSON, in whatever
stores and inside whatever objects they are. -/
theorem sharing_is_invisible (s : Store) (i : Input (Value ObjectId)) (trail : Trail)
    (h : ∀ o, s.NodeReaches i.node o → o ∉ trail ∧ ¬ s.OnCycle o) (level : Nat)
    (bindings : Option Bindings) (before : String) :
    (∀ o, s.NodeReaches i.node o →
      s.tree o = .node ((s.fields o).map (Entry.map (Value.map s.tree)))) ∧
    s.writeNode trail level i.node { text := before } =
      { buffer := { text := before ++ (s.unfold i).print } } ∧
    s.nodeJson? bindings trail i.node = some (.ok ((s.unfold i).convert bindings)) ∧
    (∃ w, Writer.Ends s
        (.start (Layout.ofNode Layout.ofValue level i.node) trail { text := before }) w none ∧
      w.buffer.text = before ++ (s.unfold i).print ∧ w.entered = trail) ∧
    s.ConvertsInput bindings trail i trail (.ok ((s.unfold i).convert bindings)) ∧
    ∀ (s' : Store) (i' : Input (Value ObjectId)) (trail' : Trail) (level' : Nat),
      (∀ o, s'.NodeReaches i'.node o → o ∉ trail' ∧ ¬ s'.OnCycle o) →
        s'.unfold i' = s.unfold i →
          s'.writeNode trail' level' i'.node { text := before } =
            s.writeNode trail level i.node { text := before } ∧
          s'.nodeJson? bindings trail' i'.node = s.nodeJson? bindings trail i.node := by
  have clear : ∀ o ∈ i.refs, s.Clear trail o := clear_of_reaches h
  have written := writeNode_unfold level before clear
  have json := inputJson_unfold bindings clear
  refine ⟨?_, written, ?_, ?_, ?_, ?_⟩
  · rintro o ⟨r, hr, reached⟩
    exact tree_eq fun p hp => clear r hr p (reached.trans hp)
  · rw [nodeJson_node, json]
  · obtain ⟨w, ends, buffer, entered⟩ := Writer.ends_write s trail
      (Layout.ofNode Layout.ofValue level i.node) { text := before }
    rw [← writeNode, written] at ends buffer entered
    exact ⟨w, ends, congrArg Buffer.text buffer, entered⟩
  · have rules := convertsInput s bindings trail i
    rw [json] at rules
    exact rules
  · intro s' i' trail' level' h' same
    have clear' : ∀ o ∈ i'.refs, s'.Clear trail' o := clear_of_reaches h'
    refine ⟨?_, ?_⟩
    · rw [written, writeNode_unfold level' before clear', same]
    · rw [nodeJson_node, nodeJson_node, json, inputJson_unfold bindings clear', same]

/-- An object with one field, and an object that has the first one in two of its fields. -/
def sharingStore : Store :=
  ⟨#[[⟨"a", .int "1"⟩], [⟨"x", .object ⟨0⟩⟩, ⟨"y", .list [.objects [⟨0⟩, ⟨0⟩], .null]⟩]]⟩

/-- An argument that has the objects of that store, and the first one of them twice. -/
def sharedArgument : Input (Value ObjectId) := .arguments [⟨"p", .objects [⟨0⟩, ⟨1⟩, ⟨0⟩]⟩]

theorem shared_argument_is_written_in_full :
    (∀ o, sharingStore.NodeReaches sharedArgument.node o →
      o ∉ [⟨5⟩] ∧ ¬ sharingStore.OnCycle o) ∧
    sharingStore.writeNode [⟨5⟩] 1 sharedArgument.node { text := "f" } =
      { buffer :=
          { text := "f(p: [\x7ba: 1\x7d, \x7bx: \x7ba: 1\x7d, " ++
              "y: [[\x7ba: 1\x7d, \x7ba: 1\x7d], null]\x7d, \x7ba: 1\x7d])" } } := by
  have h : ∀ o, sharingStore.NodeReaches sharedArgument.node o →
      o ∉ [⟨5⟩] ∧ ¬ sharingStore.OnCycle o :=
    (visitAll_refs_eq_none_iff ..).mp (by decide +kernel)
  obtain ⟨_, written, _⟩ := sharing_is_invisible sharingStore sharedArgument [⟨5⟩] h 1 none "f"
  refine ⟨h, ?_⟩
  rw [written]
  decide +kernel

end Store

end QueryDoc
