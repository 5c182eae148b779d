import QueryDoc.Proofs.Visit
import QueryDoc.Writing

/-!
The objects in a layout are those of the node that it lays out, in the same order. A buffer without
limit takes every piece, so that writing into it fails at objects only, and there as the walk does
that takes them in full.
-/

namespace QueryDoc

variable {Ref V : Type}

def Piece.ref? : Piece Ref → Option Ref
  | .object r => some r
  | .text _ | .lineBreak _ => none

namespace Layout

def refs (layout : Layout Ref) : List Ref := layout.filterMap Piece.ref?

@[simp] theorem refs_nil : refs ([] : Layout Ref) = [] := rfl

@[simp] theorem refs_text (t : String) (layout : Layout Ref) :
    refs (.text t :: layout) = refs layout := rfl

@[simp] theorem refs_lineBreak (level : Nat) (layout : Layout Ref) :
    refs (.lineBreak level :: layout) = refs layout := rfl

@[simp] theorem refs_object (r : Ref) (layout : Layout Ref) :
    refs (.object r :: layout) = r :: refs layout := rfl

@[simp] theorem refs_append (a b : Layout Ref) : refs (a ++ b) = refs a ++ refs b :=
  List.filterMap_append ..

@[simp]
theorem refs_separated (separator : String) (parts : List (Layout Ref)) :
    refs (separated separator parts) = parts.flatMap refs := by
  induction parts with
  | nil => rfl
  | cons part parts ih =>
      cases parts with
      | nil => simp [separated]
      | cons next parts =>
          rw [separated, refs_append, refs_text, ih, ← List.flatMap_cons]

@[simp]
theorem refs_enclosed (opening closing : String) (parts : List (Layout Ref)) :
    refs (enclosed opening closing parts) = parts.flatMap refs := by
  simp [enclosed]

theorem refs_ofValue (v : Value Ref) : refs (ofValue v) = v.refs := by
  induction v using Value.induct with
  | null | bool _ | int _ | float _ | string _ | enumerator _ | var _ | object _ => rfl
  | bytes content => simp [ofValue, Value.refs]
  | list items ih =>
      rw [ofValue, ofItems_eq, refs_enclosed, List.flatMap_map, Value.refs_list]
      exact List.flatMap_congr ih
  | objects refs =>
      rw [ofValue, refs_enclosed, List.flatMap_map]
      exact List.flatMap_singleton' refs

section Nodes

/-- What is written of a field before its arguments. -/
def fieldHead (f : Field V) : String :=
  match f.aliasName with
  | some aliasName => aliasName ++ ": " ++ f.name
  | none => f.name

def ofOperationName (op : Operation V) : Layout Ref :=
  match op.name with
  | some name => [.text (" " ++ name)]
  | none => if op.definitions = [] then [] else [.text " "]

variable (value : V → Layout Ref)

def ofOperationBody (level : Nat) (op : Operation V) : Layout Ref :=
  if op.selections = [] then [.text "\x7b\x7d"] else ofSelections value level op.selections

/-- A field has its selections after a blank, if it has any. -/
theorem ofField_eq (level : Nat) (f : Field V) :
    ofField value level f =
      .text (fieldHead f) :: (ofArguments value f.arguments ++
        if f.selections = [] then [] else .text " " :: ofSelections value level f.selections) := by
  obtain ⟨aliasName, name, arguments, selections⟩ := f
  cases selections <;> cases aliasName <;> simp [ofField, ofSelections, fieldHead]

theorem ofOperation_eq (level : Nat) (op : Operation V) :
    ofOperation value level op =
      .text op.kind.keyword :: (ofOperationName op ++
        (ofVariableDefinitions value op.definitions ++
          .text " " :: ofOperationBody value level op)) := by
  obtain ⟨kind, name, definitions, selections⟩ := op
  cases name <;> simp [ofOperation, ofOperationName, ofOperationBody]

theorem refs_ofEntry (e : Entry V) : refs (ofEntry value e) = refs (value e.value) := rfl

theorem refs_ofFields (fields : List (Entry V)) :
    refs (ofFields value fields) = fields.flatMap fun e => refs (value e.value) := by
  rw [ofFields, refs_enclosed, List.flatMap_map]
  rfl

theorem refs_ofArguments (arguments : List (Entry V)) :
    refs (ofArguments value arguments) = arguments.flatMap fun e => refs (value e.value) := by
  cases arguments with
  | nil => rfl
  | cons e es =>
      rw [ofArguments, refs_enclosed, List.flatMap_map]
      · rfl
      · exact nofun

theorem refs_ofLines {fields : List (Field V)} (level : Nat)
    (h : ∀ f ∈ fields, ∀ level, refs (ofField value level f) =
      f.values.flatMap fun v => refs (value v)) :
    refs (ofLines value level fields) =
      (fields.flatMap Field.values).flatMap fun v => refs (value v) := by
  induction fields with
  | nil => rfl
  | cons f fields ih =>
      rw [ofLines, refs_append, refs_lineBreak, h f (List.mem_cons_self ..),
        ih fun g hg => h g (List.mem_cons_of_mem f hg), List.flatMap_cons, List.flatMap_append]

theorem refs_ofSelections {fields : List (Field V)} (level : Nat)
    (h : ∀ f ∈ fields, ∀ level, refs (ofField value level f) =
      f.values.flatMap fun v => refs (value v)) :
    refs (ofSelections value level fields) =
      (fields.flatMap Field.values).flatMap fun v => refs (value v) := by
  cases fields with
  | nil => rfl
  | cons f fields => simp [ofSelections, refs_ofLines value (level + 1) h]

theorem refs_ofField (f : Field V) (level : Nat) :
    refs (ofField value level f) = f.values.flatMap fun v => refs (value v) := by
  induction f using Field.induct generalizing level with
  | mk aliasName name arguments selections ih =>
      rw [ofField_eq, refs_text, refs_append, refs_ofArguments, Field.values,
        Field.valuesAll_eq, List.flatMap_append, List.flatMap_map]
      congr 1
      cases selections with
      | nil => rfl
      | cons f fields => exact refs_ofSelections value level ih

theorem refs_ofSelections_all (fields : List (Field V)) (level : Nat) :
    refs (ofSelections value level fields) =
      (fields.flatMap Field.values).flatMap fun v => refs (value v) :=
  refs_ofSelections value level fun f _ level => refs_ofField value f level

theorem refs_ofTypeRef (t : TypeRef) : refs (ofTypeRef t : Layout Ref) = [] := by
  induction t with
  | named name => rfl
  | list item ih | nonNull item ih => simp [ofTypeRef, ih]

theorem refs_ofVariableDefinition (d : VariableDefinition V) :
    refs (ofVariableDefinition value d) = d.values.flatMap fun v => refs (value v) := by
  obtain ⟨name, type, default⟩ := d
  cases default <;>
    simp [ofVariableDefinition, refs_ofTypeRef, VariableDefinition.values]

theorem refs_ofVariableDefinitions (ds : List (VariableDefinition V)) :
    refs (ofVariableDefinitions value ds) =
      (ds.flatMap VariableDefinition.values).flatMap fun v => refs (value v) := by
  cases ds with
  | nil => rfl
  | cons d ds =>
      rw [ofVariableDefinitions, refs_enclosed, List.flatMap_map, List.flatMap_assoc]
      · exact List.flatMap_congr fun d _ => refs_ofVariableDefinition value d
      · exact nofun

theorem refs_ofOperation (op : Operation V) (level : Nat) :
    refs (ofOperation value level op) = op.values.flatMap fun v => refs (value v) := by
  have name : refs (ofOperationName op : Layout Ref) = [] := by
    rw [ofOperationName]
    split
    · rfl
    · split <;> rfl
  have body : refs (ofOperationBody value level op) =
      (op.selections.flatMap Field.values).flatMap fun v => refs (value v) := by
    rw [ofOperationBody]
    split
    · simp [*]
    · exact refs_ofSelections_all value op.selections level
  rw [ofOperation_eq, Operation.values, List.flatMap_append]
  simp [refs_ofVariableDefinitions, name, body]

theorem refs_ofDocument (d : Document V) (level : Nat) :
    refs (ofDocument value level d) =
      (d.operations.flatMap Operation.values).flatMap fun v => refs (value v) := by
  rw [ofDocument, refs_separated, List.flatMap_map, List.flatMap_assoc]
  exact List.flatMap_congr fun op _ => refs_ofOperation value op level

/-- The objects in the layout of a node are those of its values, in reading order. -/
theorem refs_ofNode (n : Node V) (level : Nat) :
    refs (ofNode value level n) = n.values.flatMap fun v => refs (value v) := by
  cases n with
  | value v | entry e => simp [ofNode, Node.values, refs_ofEntry]
  | arguments es => simp [ofNode, Node.values, refs_ofArguments, List.flatMap_map]
  | selectionSet fields => exact refs_ofSelections_all value fields level
  | field f => exact refs_ofField value f level
  | typeRef t => simp [ofNode, Node.values, refs_ofTypeRef]
  | variableDefinition d => exact refs_ofVariableDefinition value d
  | variableDefinitions ds => exact refs_ofVariableDefinitions value ds
  | operation op => exact refs_ofOperation value op level
  | document d => exact refs_ofDocument value d level

end Nodes

end Layout

theorem Buffer.limit_of_add {b b' : Buffer} {t : String} (h : b.add? t = some b') :
    b'.limit = b.limit := by
  rw [add?, Option.ite_none_right_eq_some, Option.some.injEq] at h
  rw [← h.2]

theorem Buffer.limit_of_addLineBreak {b b' : Buffer} {level : Nat}
    (h : b.addLineBreak? level = some b') : b'.limit = b.limit := by
  rw [addLineBreak?, Option.ite_none_right_eq_some, Option.some.injEq] at h
  rw [← h.2]

namespace Store

variable {s : Store}

theorem refs_objectLayout (s : Store) (o : ObjectId) :
    (s.objectLayout o).refs = s.objectRefs o := by
  rw [objectLayout, Layout.refs_ofFields, objectRefs]
  exact List.flatMap_congr fun f _ => Layout.refs_ofValue f.value

theorem refs_ofNode_ofValue (n : Node (Value ObjectId)) (level : Nat) :
    (Layout.ofNode Layout.ofValue level n).refs = n.refs := by
  rw [Layout.refs_ofNode, Node.refs]
  exact List.flatMap_congr fun v _ => Layout.refs_ofValue v

/-- Induction along a run, where the run of an object's fields comes before that of the rest. -/
@[elab_as_elim]
theorem write_induct {motive : Trail → Layout ObjectId → Buffer → Run → Prop}
    (trail : Trail) (layout : Layout ObjectId) (b : Buffer)
    (done : ∀ trail b, motive trail [] b { buffer := b })
    (text : ∀ trail t rest b b', b.add? t = some b' →
      motive trail rest b' (s.write trail rest b') →
      motive trail (.text t :: rest) b (s.write trail rest b'))
    (textRefused : ∀ trail t rest b, b.add? t = none →
      motive trail (.text t :: rest) b { buffer := b, failure := some { error := .bufferFull } })
    (lineBreak : ∀ trail level rest b b', b.addLineBreak? level = some b' →
      motive trail rest b' (s.write trail rest b') →
      motive trail (.lineBreak level :: rest) b (s.write trail rest b'))
    (lineBreakRefused : ∀ trail level rest b, b.addLineBreak? level = none →
      motive trail (.lineBreak level :: rest) b
        { buffer := b, failure := some { error := .bufferFull } })
    (met : ∀ trail o rest b, o ∈ trail →
      motive trail (.object o :: rest) b { buffer := b, failure := some (s.cycleAt o) })
    (object : ∀ trail o rest b b', o ∉ trail →
      s.write (o :: trail) (s.objectLayout o) b = { buffer := b' } →
      motive (o :: trail) (s.objectLayout o) b { buffer := b' } →
      motive trail rest b' (s.write trail rest b') →
      motive trail (.object o :: rest) b (s.write trail rest b'))
    (inside : ∀ trail o rest b b' f, o ∉ trail →
      motive (o :: trail) (s.objectLayout o) b { buffer := b', failure := some f } →
      motive trail (.object o :: rest) b { buffer := b', failure := some (f.inside o) }) :
    motive trail layout b (s.write trail layout b) := by
  fun_induction s.write trail layout b with
  | case1 trail b => exact done trail b
  | case2 trail t rest b b' h ih => exact text trail t rest b b' h ih
  | case3 trail t rest b h => exact textRefused trail t rest b h
  | case4 trail level rest b b' h ih => exact lineBreak trail level rest b b' h ih
  | case5 trail level rest b h => exact lineBreakRefused trail level rest b h
  | case6 trail o rest b h => exact met trail o rest b h
  | case7 trail o rest b h b' written ih ihrest =>
      exact object trail o rest b b' h written (written ▸ ih) ihrest
  | case8 trail o rest b h b' f failed ih =>
      exact inside trail o rest b b' f h (failed ▸ ih)

theorem write_limit (s : Store) (trail : Trail) (layout : Layout ObjectId) (b : Buffer) :
    (s.write trail layout b).buffer.limit = b.limit := by
  induction trail, layout, b using write_induct (s := s) with
  | done _ _ | textRefused _ _ _ _ _ | lineBreakRefused _ _ _ _ _ | met _ _ _ _ _ => rfl
  | text _ _ _ _ _ added ih => rw [ih, Buffer.limit_of_add added]
  | lineBreak _ _ _ _ _ added ih => rw [ih, Buffer.limit_of_addLineBreak added]
  | object _ _ _ _ _ _ _ ih ihrest => exact ihrest.trans ih
  | inside _ _ _ _ _ _ _ ih => exact ih

/-- A buffer without limit never ends a run: it fails as the walk through its objects does. -/
theorem write_failure (s : Store) (trail : Trail) (layout : Layout ObjectId) (b : Buffer)
    (unlimited : b.limit = none) :
    (s.write trail layout b).failure = s.visitAll trail layout.refs := by
  revert unlimited
  induction trail, layout, b using write_induct (s := s) with
  | done trail b => exact fun _ => rfl
  | text trail t rest b b' added ih =>
      exact fun h => ih ((Buffer.limit_of_add added).trans h)
  | lineBreak trail level rest b b' added ih =>
      exact fun h => ih ((Buffer.limit_of_addLineBreak added).trans h)
  | textRefused trail t rest b refused =>
      intro h
      simp [Buffer.add?, Buffer.hasRoom, h] at refused
  | lineBreakRefused trail level rest b refused =>
      intro h
      simp [Buffer.addLineBreak?, Buffer.hasRoom, h] at refused
  | met trail o rest b h =>
      intro _
      simp [visitAll, visit_eq, h]
  | object trail o rest b b' h written ih ihrest =>
      intro unlimited
      have free := ih unlimited
      rw [refs_objectLayout] at free
      have limit := write_limit s (o :: trail) (s.objectLayout o) b
      rw [written] at limit
      rw [ihrest (limit.trans unlimited), Layout.refs_object, visitAll, visitAll,
        List.findSome?_cons, visit_eq, if_neg h, ← free]
      rfl
  | inside trail o rest b b' f h ih =>
      intro unlimited
      have failed := ih unlimited
      rw [refs_objectLayout] at failed
      rw [Layout.refs_object, visitAll, List.findSome?_cons, visit_eq, if_neg h, ← failed]
      rfl

theorem writeNode_failure (s : Store) (trail : Trail) (level : Nat) (n : Node (Value ObjectId))
    (before : String) :
    (s.writeNode trail level n { text := before }).failure = s.visitAll trail n.refs := by
  rw [writeNode, write_failure _ _ _ _ rfl, refs_ofNode_ofValue]

end Store

end QueryDoc
