import QueryDoc.Proofs.Text

/-!
Parts of a request with something else in the place of their objects. The form of a part does not
depend on its objects, so laying it out and replacing its objects can be done in either order. Where
no cycle can be reached, the text of a part is that of the part with trees as its objects.
-/

namespace QueryDoc

variable {V W X Ref S : Type}

theorem Entry.map_map (f : V → W) (g : W → X) (e : Entry V) : (e.map f).map g = e.map (g ∘ f) :=
  rfl

theorem Entry.map_congr {f g : V → W} {e : Entry V} (h : f e.value = g e.value) :
    e.map f = e.map g := by
  rw [map, map, h]

theorem Value.refs_map (f : Ref → S) (v : Value Ref) : (v.map f).refs = v.refs.map f := by
  induction v using Value.induct with
  | null | bool _ | int _ | float _ | string _ | enumerator _ | var _ | bytes _ => rfl
  | list items ih =>
      rw [map_list, refs_list, refs_list, List.flatMap_map, List.map_flatMap]
      exact List.flatMap_congr ih
  | objects _ | object _ => rfl

namespace Field

theorem map_mk (f : V → W) (aliasName : Option String) (name : String)
    (arguments : List (Entry V)) (selections : List (Field V)) :
    map f ⟨aliasName, name, arguments, selections⟩ =
      ⟨aliasName, name, arguments.map (Entry.map f), selections.map (map f)⟩ := by
  rw [map, mapAll_eq]

theorem map_map (f : V → W) (g : W → X) (x : Field V) : (x.map f).map g = x.map (g ∘ f) := by
  induction x using induct with
  | mk aliasName name arguments selections ih =>
      simpa [map_mk, Entry.map_map, Function.comp_def] using ih

theorem values_map (f : V → W) (x : Field V) : (x.map f).values = x.values.map f := by
  induction x using induct with
  | mk aliasName name arguments selections ih =>
      simp only [map_mk, values, valuesAll_eq, List.map_append, List.map_map, List.flatMap_map,
        List.map_flatMap]
      exact congrArg _ (List.flatMap_congr ih)

theorem map_congr {f g : V → W} (x : Field V) (h : ∀ v ∈ x.values, f v = g v) :
    x.map f = x.map g := by
  induction x using induct with
  | mk aliasName name arguments selections ih =>
      simp only [values, valuesAll_eq, List.mem_append, List.mem_map, List.mem_flatMap] at h
      have first : arguments.map (Entry.map f) = arguments.map (Entry.map g) :=
        List.map_congr_left fun e he => Entry.map_congr (h _ (.inl ⟨e, he, rfl⟩))
      have inner : selections.map (map f) = selections.map (map g) :=
        List.map_congr_left fun y hy => ih y hy fun v hv => h v (.inr ⟨y, hy, hv⟩)
      rw [map_mk, map_mk, first, inner]

end Field

namespace VariableDefinition

theorem map_map (f : V → W) (g : W → X) (d : VariableDefinition V) :
    (d.map f).map g = d.map (g ∘ f) := by
  simp [map]

theorem values_map (f : V → W) (d : VariableDefinition V) : (d.map f).values = d.values.map f := by
  obtain ⟨name, type, _ | v⟩ := d <;> rfl

theorem map_congr {f g : V → W} (d : VariableDefinition V) (h : ∀ v ∈ d.values, f v = g v) :
    d.map f = d.map g := by
  obtain ⟨name, type, _ | v⟩ := d
  · rfl
  · simp [map, h v (List.mem_singleton_self v)]

end VariableDefinition

namespace Operation

theorem map_map (f : V → W) (g : W → X) (op : Operation V) : (op.map f).map g = op.map (g ∘ f) := by
  simp [map, VariableDefinition.map_map, Field.map_map]

theorem values_map (f : V → W) (op : Operation V) : (op.map f).values = op.values.map f := by
  simp [values, map, List.flatMap_map, List.map_flatMap, VariableDefinition.values_map,
    Field.values_map]

theorem map_congr {f g : V → W} (op : Operation V) (h : ∀ v ∈ op.values, f v = g v) :
    op.map f = op.map g := by
  simp only [values, List.mem_append, List.mem_flatMap] at h
  have definitions : op.definitions.map (·.map f) = op.definitions.map (·.map g) :=
    List.map_congr_left fun d hd => d.map_congr fun v hv => h v (.inl ⟨d, hd, hv⟩)
  have selections : op.selections.map (·.map f) = op.selections.map (·.map g) :=
    List.map_congr_left fun x hx => x.map_congr fun v hv => h v (.inr ⟨x, hx, hv⟩)
  rw [map, map, definitions, selections]

end Operation

namespace Node

theorem map_map (f : V → W) (g : W → X) (n : Node V) : (n.map f).map g = n.map (g ∘ f) := by
  cases n <;> simp [map, Document.map, Entry.map_map, Field.map_map, VariableDefinition.map_map,
    Operation.map_map]

theorem values_map (f : V → W) (n : Node V) : (n.map f).values = n.values.map f := by
  cases n <;> simp [map, values, Document.map, Entry.map, Function.comp_def, List.flatMap_map,
    List.map_flatMap, Field.values_map, VariableDefinition.values_map, Operation.values_map]

theorem map_congr {f g : V → W} (n : Node V) (h : ∀ v ∈ n.values, f v = g v) :
    n.map f = n.map g := by
  cases n with
  | value v | entry e => simp_all [map, values, Entry.map]
  | typeRef t => rfl
  | field x => exact congrArg field (x.map_congr h)
  | variableDefinition d => exact congrArg variableDefinition (d.map_congr h)
  | operation op => exact congrArg operation (op.map_congr h)
  | arguments es =>
      refine congrArg arguments (List.map_congr_left fun e he => Entry.map_congr ?_)
      exact h _ (List.mem_map_of_mem he)
  | selectionSet fields =>
      refine congrArg selectionSet (List.map_congr_left fun x hx => x.map_congr fun v hv => ?_)
      exact h v (List.mem_flatMap_of_mem hx hv)
  | variableDefinitions ds =>
      refine congrArg variableDefinitions
        (List.map_congr_left fun d hd => d.map_congr fun v hv => ?_)
      exact h v (List.mem_flatMap_of_mem hd hv)
  | document d =>
      refine congrArg (document ⟨·⟩)
        (List.map_congr_left fun op hop => op.map_congr fun v hv => ?_)
      exact h v (List.mem_flatMap_of_mem hop hv)

/-- Objects are replaced alike by what agrees on them. -/
theorem map_value_congr {f g : ObjectId → S} {n : Node (Value ObjectId)}
    (h : ∀ o ∈ n.refs, f o = g o) : n.map (Value.map f) = n.map (Value.map g) := by
  refine n.map_congr fun v hv => v.map_congr fun o ho => h o ?_
  exact List.mem_flatMap_of_mem hv ho

theorem map_map_value {T : Type} (f : Ref → S) (g : S → T) (n : Node (Value Ref)) :
    (n.map (Value.map f)).map (Value.map g) = n.map (Value.map (g ∘ f)) := by
  rw [map_map]
  exact n.map_congr fun v _ => v.map_map f g

/-- The objects of a node in whose place something else is put. -/
theorem flatMap_refs_map (f : ObjectId → S) (n : Node (Value ObjectId)) :
    (n.map (Value.map f)).values.flatMap Value.refs = n.refs.map f := by
  rw [values_map, refs, List.flatMap_map, List.map_flatMap]
  exact List.flatMap_congr fun v _ => v.refs_map f

end Node

def Piece.replace (f : Ref → S) : Piece Ref → Piece S
  | .text t => .text t
  | .lineBreak level => .lineBreak level
  | .object r => .object (f r)

namespace Layout

/-- The layout with other objects. -/
def replace (f : Ref → S) (layout : Layout Ref) : Layout S := layout.map (Piece.replace f)

section Replace

variable (f : Ref → S)

@[simp] theorem replace_nil : replace f [] = [] := rfl

@[simp] theorem replace_text (t : String) (layout : Layout Ref) :
    replace f (.text t :: layout) = .text t :: replace f layout := rfl

@[simp] theorem replace_lineBreak (level : Nat) (layout : Layout Ref) :
    replace f (.lineBreak level :: layout) = .lineBreak level :: replace f layout := rfl

@[simp] theorem replace_object (r : Ref) (layout : Layout Ref) :
    replace f (.object r :: layout) = .object (f r) :: replace f layout := rfl

@[simp] theorem replace_append (a b : Layout Ref) :
    replace f (a ++ b) = replace f a ++ replace f b :=
  List.map_append

@[simp]
theorem replace_separated (separator : String) (parts : List (Layout Ref)) :
    replace f (separated separator parts) = separated separator (parts.map (replace f)) := by
  induction parts with
  | nil => rfl
  | cons part parts ih =>
      cases parts with
      | nil => rfl
      | cons next parts =>
          rw [separated, replace_append, replace_text, ih]
          rfl

@[simp]
theorem replace_enclosed (opening closing : String) (parts : List (Layout Ref)) :
    replace f (enclosed opening closing parts) =
      enclosed opening closing (parts.map (replace f)) := by
  simp [enclosed]

theorem ofValue_map (v : Value Ref) : ofValue (v.map f) = replace f (ofValue v) := by
  induction v using Value.induct with
  | null | bool _ | int _ | float _ | string _ | enumerator _ | var _ | object _ => rfl
  | bytes content => simp [Value.map, ofValue, Function.comp_def]
  | list items ih =>
      rw [Value.map_list, ofValue, ofValue, ofItems_eq, ofItems_eq, replace_enclosed, List.map_map,
        List.map_map]
      exact congrArg (enclosed "[" "]") (List.map_congr_left ih)
  | objects refs => simp [Value.map, ofValue, Function.comp_def]

@[simp]
theorem replace_ofTypeRef (t : TypeRef) : replace f (ofTypeRef t) = ofTypeRef t := by
  induction t with
  | named name => rfl
  | list item ih | nonNull item ih => simp [ofTypeRef, ih]

theorem text_replace (object : S → String) (layout : Layout Ref) :
    text object (replace f layout) = text (object ∘ f) layout := by
  induction layout with
  | nil => rfl
  | cons p layout ih => cases p <;> simp [text, ih]

end Replace

section Nodes

variable {value : V → Layout Ref} {value' : W → Layout S} {g : V → W} {f : Ref → S}

theorem ofLines_map {fields : List (Field V)} (level : Nat)
    (h : ∀ x ∈ fields, ∀ level,
      ofField value' level (x.map g) = replace f (ofField value level x)) :
    ofLines value' level (fields.map (Field.map g)) = replace f (ofLines value level fields) := by
  induction fields with
  | nil => rfl
  | cons x fields ih =>
      rw [List.map_cons, ofLines, ofLines, replace_append, replace_lineBreak,
        h x (List.mem_cons_self ..), ih fun y hy => h y (List.mem_cons_of_mem x hy)]

theorem ofSelections_map {fields : List (Field V)} (level : Nat)
    (h : ∀ x ∈ fields, ∀ level,
      ofField value' level (x.map g) = replace f (ofField value level x)) :
    ofSelections value' level (fields.map (Field.map g)) =
      replace f (ofSelections value level fields) := by
  cases fields with
  | nil => rfl
  | cons x fields =>
      have lines := ofLines_map (level + 1) h
      rw [List.map_cons] at lines ⊢
      simp [ofSelections, lines]

variable (values : ∀ v, value' (g v) = replace f (value v))

include values

theorem ofEntry_map (e : Entry V) : ofEntry value' (e.map g) = replace f (ofEntry value e) := by
  rw [ofEntry, ofEntry, replace_text, Entry.map, values]

theorem ofArguments_map (es : List (Entry V)) :
    ofArguments value' (es.map (Entry.map g)) = replace f (ofArguments value es) := by
  cases es with
  | nil => rfl
  | cons e es => simp [ofArguments, ofEntry_map values, Function.comp_def]

theorem ofField_map (x : Field V) (level : Nat) :
    ofField value' level (x.map g) = replace f (ofField value level x) := by
  induction x using Field.induct generalizing level with
  | mk aliasName name arguments selections ih =>
      have inner := ofSelections_map level ih
      rw [Field.map_mk, ofField_eq, ofField_eq, replace_text, replace_append,
        ofArguments_map values, inner]
      cases selections <;> rfl

theorem ofVariableDefinition_map (d : VariableDefinition V) :
    ofVariableDefinition value' (d.map g) = replace f (ofVariableDefinition value d) := by
  obtain ⟨name, type, _ | v⟩ := d <;>
    simp [ofVariableDefinition, VariableDefinition.map, values]

theorem ofVariableDefinitions_map (ds : List (VariableDefinition V)) :
    ofVariableDefinitions value' (ds.map (·.map g)) =
      replace f (ofVariableDefinitions value ds) := by
  cases ds with
  | nil => rfl
  | cons d ds => simp [ofVariableDefinitions, ofVariableDefinition_map values, Function.comp_def]

theorem ofOperation_map (op : Operation V) (level : Nat) :
    ofOperation value' level (op.map g) = replace f (ofOperation value level op) := by
  have name : ofOperationName (op.map g) = replace f (ofOperationName op : Layout Ref) := by
    obtain ⟨kind, _ | name, _ | ⟨d, ds⟩, selections⟩ := op <;> rfl
  have body : ofOperationBody value' level (op.map g) =
      replace f (ofOperationBody value level op) := by
    have selections : ofSelections value' level (op.selections.map (Field.map g)) =
        replace f (ofSelections value level op.selections) :=
      ofSelections_map level fun x _ => ofField_map values x
    by_cases h : op.selections = []
    · simp [ofOperationBody, Operation.map, h]
    · simp [ofOperationBody, Operation.map, h, selections]
  have definitions := ofVariableDefinitions_map values op.definitions
  rw [ofOperation_eq, ofOperation_eq, name, body]
  simp [Operation.map, definitions]

/-- Replacing objects in a node replaces them in its layout. -/
theorem ofNode_map (n : Node V) (level : Nat) :
    ofNode value' level (n.map g) = replace f (ofNode value level n) := by
  cases n with
  | value v => exact values v
  | entry e => exact ofEntry_map values e
  | arguments es => exact ofArguments_map values es
  | selectionSet fields => exact ofSelections_map level fun x _ => ofField_map values x
  | field x => exact ofField_map values x level
  | typeRef t => exact (replace_ofTypeRef f t).symm
  | variableDefinition d => exact ofVariableDefinition_map values d
  | variableDefinitions ds => exact ofVariableDefinitions_map values ds
  | operation op => exact ofOperation_map values op level
  | document d =>
      rw [Node.map, Document.map, ofNode, ofNode, ofDocument, ofDocument, replace_separated,
        List.map_map, List.map_map]
      exact congrArg (separated "\n\n")
        (List.map_congr_left fun op _ => ofOperation_map values op level)

end Nodes

end Layout

namespace Store

/-- The node with trees in the place of objects. -/
def unfoldNode (s : Store) (n : Node (Value ObjectId)) : Node (Value ObjectTree) :=
  n.map (Value.map s.tree)

theorem print_unfoldNode {s : Store} {n : Node (Value ObjectId)}
    (clear : ∀ o ∈ n.refs, s.Clear [] o) :
    s.print n = .ok ((Layout.ofNode Layout.ofValue 0 (s.unfoldNode n)).text ObjectTree.text) := by
  rw [print_text clear, unfoldNode, Layout.ofNode_map (Layout.ofValue_map s.tree),
    Layout.text_replace]
  rfl

end Store

end QueryDoc
