import QueryDoc.Proofs.Grammar.Token
import QueryDoc.Proofs.Tree

/-!
The tokens of the parts of a document, and what makes these parts ones of the grammar: names, types
and numbers have their forms, no constant of an enumeration is a word of another meaning, and lists
that the grammar wants to have parts are not empty. Both are given for any type of values, once they
are given for these.
-/

namespace QueryDoc.Grammar

variable {Ref V : Type}

section Tokens

def between (opening closing : Char) (ts : List Token) : List Token :=
  .punctuator opening :: (ts ++ [.punctuator closing])

mutual

/-- The tokens of a value whose objects are tokens already. -/
def valueTokens : Value (List Token) → List Token
  | .null => [.name "null"]
  | .bool b => [.name (if b then "true" else "false")]
  | .int text => [.int text]
  | .float text => [.float text]
  | .string text => [.string text]
  | .enumerator name => [.name name]
  | .var name => [.punctuator '$', .name name]
  | .bytes content => between '[' ']' (content.map fun b => .int (Nat.repr b.toNat))
  | .list items => between '[' ']' (itemTokens items)
  | .objects objects => between '[' ']' objects.flatten
  | .object ts => ts
termination_by structural v => v

def itemTokens : List (Value (List Token)) → List Token
  | [] => []
  | v :: items => valueTokens v ++ itemTokens items
termination_by structural items => items

end

theorem itemTokens_eq (items : List (Value (List Token))) :
    itemTokens items = items.flatMap valueTokens := by
  induction items with
  | nil => rfl
  | cons v items ih => rw [itemTokens, ih, List.flatMap_cons]

/-- Parts in parentheses, or nothing if there are none. -/
def parenthesized {α : Type} (tokens : α → List Token) (parts : List α) : List Token :=
  if parts = [] then [] else between '(' ')' (parts.flatMap tokens)

section Nodes

variable (tokens : V → List Token)

def entryTokens (e : Entry V) : List Token :=
  .name e.name :: .punctuator ':' :: tokens e.value

def headTokens (f : Field V) : List Token :=
  match f.aliasName with
  | some aliasName => [.name aliasName, .punctuator ':', .name f.name]
  | none => [.name f.name]

mutual

def fieldTokens : Field V → List Token
  | ⟨aliasName, name, arguments, selections⟩ =>
    headTokens ⟨aliasName, name, arguments, selections⟩ ++
      (parenthesized (entryTokens tokens) arguments ++
        if selections.isEmpty then [] else between '\x7b' '\x7d' (selectionTokens selections))
termination_by structural f => f

def selectionTokens : List (Field V) → List Token
  | [] => []
  | f :: fields => fieldTokens f ++ selectionTokens fields
termination_by structural fields => fields

end

theorem selectionTokens_eq (fields : List (Field V)) :
    selectionTokens tokens fields = fields.flatMap (fieldTokens tokens) := by
  induction fields with
  | nil => rfl
  | cons f fields ih => rw [selectionTokens, ih, List.flatMap_cons]

theorem fieldTokens_eq (f : Field V) :
    fieldTokens tokens f =
      headTokens f ++ (parenthesized (entryTokens tokens) f.arguments ++
        if f.selections = [] then []
        else between '\x7b' '\x7d' (f.selections.flatMap (fieldTokens tokens))) := by
  obtain ⟨aliasName, name, arguments, selections⟩ := f
  rw [fieldTokens, selectionTokens_eq]
  cases selections <;> rfl

def typeTokens : TypeRef → List Token
  | .named name => [.name name]
  | .list item => between '[' ']' (typeTokens item)
  | .nonNull inner => typeTokens inner ++ [.punctuator '!']

def defaultTokens : Option V → List Token
  | some v => .punctuator '=' :: tokens v
  | none => []

def definitionTokens (d : VariableDefinition V) : List Token :=
  .punctuator '$' :: .name d.name :: .punctuator ':' ::
    (typeTokens d.type ++ defaultTokens tokens d.default)

def operationTokens (op : Operation V) : List Token :=
  .name op.kind.keyword :: (op.name.toList.map .name ++
    (parenthesized (definitionTokens tokens) op.definitions ++
      between '\x7b' '\x7d' (op.selections.flatMap (fieldTokens tokens))))

def documentTokens (d : Document V) : List Token := d.operations.flatMap (operationTokens tokens)

end Nodes

def objectTokens (fields : List (Entry (Value (List Token)))) : List Token :=
  between '\x7b' '\x7d' (fields.flatMap (entryTokens valueTokens))

def treeTokens : ObjectTree → List Token := ObjectTree.fold objectTokens

end Tokens

section Forms

mutual

/-- Whether a value has the form of one, its objects apart. A constant has no variables. -/
def IsValue (constant : Bool) : Value Ref → Prop
  | .int text => IsInt text
  | .float text => IsFloat text
  | .enumerator name => IsName name ∧ name ≠ "null" ∧ name ≠ "true" ∧ name ≠ "false"
  | .var name => constant = false ∧ IsName name
  | .list items => AreValues constant items
  | _ => True
termination_by structural v => v

def AreValues (constant : Bool) : List (Value Ref) → Prop
  | [] => True
  | v :: items => IsValue constant v ∧ AreValues constant items
termination_by structural items => items

end

theorem isValue_list {constant : Bool} {items : List (Value Ref)} :
    IsValue constant (.list items) ↔ ∀ v ∈ items, IsValue constant v := by
  rw [IsValue]
  induction items with
  | nil => simp [AreValues]
  | cons v items ih => rw [AreValues, ih, List.forall_mem_cons]

structure IsEntry (value : V → Prop) (e : Entry V) : Prop where
  name : IsName e.name
  value : value e.value

inductive IsField (value : V → Prop) : Field V → Prop
  | mk {f : Field V} : (∀ n ∈ f.aliasName, IsName n) → IsName f.name →
      (∀ e ∈ f.arguments, IsEntry value e) → (∀ g ∈ f.selections, IsField value g) →
      IsField value f

def IsType : TypeRef → Prop
  | .named name => IsName name
  | .list item => IsType item
  | .nonNull inner => IsType inner ∧ ∀ t, inner ≠ .nonNull t

structure IsVariableDefinition (value : V → Prop) (d : VariableDefinition V) : Prop where
  name : IsName d.name
  type : IsType d.type
  default : ∀ v ∈ d.default, value v

variable (value : Bool → V → Prop)

/-- The values in default values of variables are constant. -/
structure IsOperation (op : Operation V) : Prop where
  name : ∀ n ∈ op.name, IsName n
  definitions : ∀ d ∈ op.definitions, IsVariableDefinition (value true) d
  nonempty : op.selections ≠ []
  selections : ∀ f ∈ op.selections, IsField (value false) f

structure IsDocument (d : Document V) : Prop where
  nonempty : d.operations ≠ []
  operations : ∀ op ∈ d.operations, IsOperation value op

end Forms

section Weakening

theorem IsField.imp {good good' : V → Prop} {f : Field V} (h : IsField good f)
    (imp : ∀ v ∈ f.values, good v → good' v) : IsField good' f := by
  induction f using Field.induct with
  | mk aliasName name arguments selections ih =>
      obtain ⟨isAlias, isName, isArguments, isSelections⟩ := h
      rw [Field.values, Field.valuesAll_eq] at imp
      refine ⟨isAlias, isName, fun e he => ?_, fun g hg => ?_⟩
      · have member : e.value ∈ arguments.map Entry.value ++ selections.flatMap Field.values :=
          List.mem_append_left _ (List.mem_map_of_mem he)
        exact ⟨(isArguments e he).name, imp _ member (isArguments e he).value⟩
      · refine ih g hg (isSelections g hg) fun v hv => imp v ?_
        exact List.mem_append_right _ (List.mem_flatMap_of_mem hg hv)

variable {good good' : Bool → V → Prop}

theorem IsOperation.imp {op : Operation V} (h : IsOperation good op)
    (imp : ∀ v ∈ op.values, ∀ constant, good constant v → good' constant v) :
    IsOperation good' op := by
  refine ⟨h.name, fun d hd => ?_, h.nonempty, fun f hf => ?_⟩
  · have form := h.definitions d hd
    refine ⟨form.name, form.type, fun v hv => imp v ?_ true (form.default v hv)⟩
    have member : v ∈ d.values := Option.mem_toList.mpr hv
    exact List.mem_append_left _ (List.mem_flatMap_of_mem hd member)
  · refine (h.selections f hf).imp fun v hv => imp v ?_ false
    exact List.mem_append_right _ (List.mem_flatMap_of_mem hf hv)

/-- Values need to be good only as far as they are part of the document. -/
theorem IsDocument.imp {d : Document V} (h : IsDocument good d)
    (imp : ∀ v ∈ (Node.document d).values, ∀ constant, good constant v → good' constant v) :
    IsDocument good' d := by
  refine ⟨h.nonempty, fun op hop => (h.operations op hop).imp fun v hv => imp v ?_⟩
  exact List.mem_flatMap_of_mem hop hv

end Weakening

end QueryDoc.Grammar
