import QueryDoc.Node
import QueryDoc.Text.StringLiteral

/-!
The written form of nodes. A layout is a row of pieces: text, line breaks with their indentation,
and places where an input object is to be written. Objects stay unwritten here, as their fields are
found in a store only; all else about the form of a document is decided in this module. Nodes are
laid out over any type of values, given a layout for those.
-/

namespace QueryDoc

inductive Piece (Ref : Type) where
  | text (t : String)
  /-- A line feed, and two blanks for each level of the line that follows. -/
  | lineBreak (level : Nat)
  | object (ref : Ref)
deriving DecidableEq

abbrev Layout (Ref : Type) := List (Piece Ref)

namespace Layout

variable {Ref V : Type}

/-- The parts with the separator between each two of them. -/
def separated (separator : String) : List (Layout Ref) → Layout Ref
  | [] => []
  | [part] => part
  | part :: next :: parts => part ++ .text separator :: separated separator (next :: parts)

def enclosed (opening closing : String) (parts : List (Layout Ref)) : Layout Ref :=
  .text opening :: separated ", " parts ++ [.text closing]

def boolText (b : Bool) : String := if b then "true" else "false"

mutual

def ofValue : Value Ref → Layout Ref
  | .null => [.text "null"]
  | .bool b => [.text (boolText b)]
  | .int text | .float text => [.text text]
  | .string text => [.text (StringLiteral.encode text)]
  | .enumerator name => [.text name]
  | .var name => [.text ("$" ++ name)]
  | .bytes content => enclosed "[" "]" (content.map fun b => [.text (Nat.repr b.toNat)])
  | .list items => enclosed "[" "]" (ofItems items)
  | .objects refs => enclosed "[" "]" (refs.map fun ref => [.object ref])
  | .object ref => [.object ref]
termination_by structural v => v

def ofItems : List (Value Ref) → List (Layout Ref)
  | [] => []
  | v :: items => ofValue v :: ofItems items
termination_by structural items => items

end

theorem ofItems_eq (items : List (Value Ref)) : ofItems items = items.map ofValue := by
  induction items with
  | nil => rfl
  | cons v items ih => rw [ofItems, ih, List.map_cons]

section Nodes

variable (value : V → Layout Ref)

def ofEntry (e : Entry V) : Layout Ref := .text (e.name ++ ": ") :: value e.value

/-- The fields of an input object. -/
def ofFields (fields : List (Entry V)) : Layout Ref :=
  enclosed "\x7b" "\x7d" (fields.map (ofEntry value))

def ofArguments : List (Entry V) → Layout Ref
  | [] => []
  | arguments => enclosed "(" ")" (arguments.map (ofEntry value))

mutual

/-- A field; `level` is the level of its own line. -/
def ofField (level : Nat) : Field V → Layout Ref
  | ⟨aliasName, name, arguments, selections⟩ =>
    let head := match aliasName with
      | some aliasName => aliasName ++ ": " ++ name
      | none => name
    .text head :: ofArguments value arguments ++
      match selections with
      | [] => []
      | f :: fields =>
        .text " " :: .text "\x7b" :: ofLines (level + 1) (f :: fields) ++
          [.lineBreak level, .text "\x7d"]
termination_by structural f => f

def ofLines (level : Nat) : List (Field V) → Layout Ref
  | [] => []
  | f :: fields => .lineBreak level :: ofField level f ++ ofLines level fields
termination_by structural fields => fields

end

def ofSelections (level : Nat) : List (Field V) → Layout Ref
  | [] => []
  | fields => .text "\x7b" :: ofLines value (level + 1) fields ++ [.lineBreak level, .text "\x7d"]

def ofTypeRef : TypeRef → Layout Ref
  | .named name => [.text name]
  | .list item => .text "[" :: ofTypeRef item ++ [.text "]"]
  | .nonNull inner => ofTypeRef inner ++ [.text "!"]

def ofVariableDefinition (d : VariableDefinition V) : Layout Ref :=
  .text ("$" ++ d.name ++ ": ") :: ofTypeRef d.type ++
    match d.default with
    | some v => .text " = " :: value v
    | none => []

def ofVariableDefinitions : List (VariableDefinition V) → Layout Ref
  | [] => []
  | ds => enclosed "(" ")" (ds.map (ofVariableDefinition value))

/-- An operation. Without a name, a blank stands between the keyword and the variables. -/
def ofOperation (level : Nat) (op : Operation V) : Layout Ref :=
  let name : Layout Ref := match op.name with
    | some name => [.text (" " ++ name)]
    | none => if op.definitions.isEmpty then [] else [.text " "]
  .text op.kind.keyword :: name ++ ofVariableDefinitions value op.definitions ++ .text " " ::
    if op.selections.isEmpty then [.text "\x7b\x7d"] else ofSelections value level op.selections

def ofDocument (level : Nat) (d : Document V) : Layout Ref :=
  separated "\n\n" (d.operations.map (ofOperation value level))

/-- A node that starts on a line of the given level. A line in it is deeper by one level for each
pair of braces around its selections. Levels are numbers of any size here: where they are words of
64 bits, the level and the depth of the nesting in the node have to stay below `2 ^ 64` together,
and what becomes of a greater level is not described. -/
def ofNode (level : Nat) : Node V → Layout Ref
  | .value v => value v
  | .entry e => ofEntry value e
  | .arguments arguments => ofArguments value arguments
  | .selectionSet fields => ofSelections value level fields
  | .field f => ofField value level f
  | .typeRef t => ofTypeRef t
  | .variableDefinition d => ofVariableDefinition value d
  | .variableDefinitions ds => ofVariableDefinitions value ds
  | .operation op => ofOperation value level op
  | .document d => ofDocument value level d

end Nodes

end Layout

end QueryDoc
