import QueryDoc.Proofs.LineFree

/-!
Documents as lines. A field has a line of its own and, if it has selections, their lines one level
deeper and a closing brace on its own level. Writing puts these lines one after the other, indented
by their level.
-/

namespace QueryDoc

variable {V Ref : Type}

/-- A line, and how deep it is inside the part of a request that it belongs to. -/
structure Line where
  depth : Nat
  text : String

namespace Line

def blanks (level : Nat) : String := String.ofList (List.replicate (2 * level) ' ')

/-- The line of a part on the given level, indented. -/
def indented (level : Nat) (l : Line) : String := blanks (level + l.depth) ++ l.text

/-- The lines as they are written: what stands before the first one is not part of it. -/
def shown (level : Nat) : List Line → List String
  | [] => []
  | l :: lines => l.text :: lines.map (indented level)

/-- The lines with line feeds between them. -/
def joined (level : Nat) (lines : List Line) : String := "\n".intercalate (shown level lines)

/-- The lines behind other ones. -/
def continued (level : Nat) (lines : List Line) : String :=
  String.join (lines.map fun l => Buffer.lineBreak (level + l.depth) ++ l.text)

/-- The text with so many more levels of blanks after every line feed. -/
def deeper (level : Nat) (text : String) : String :=
  String.ofList (text.toList.flatMap fun c =>
    if c = '\n' then '\n' :: (blanks level).toList else [c])

section

variable {level : Nat} {l : Line} {lines lines' : List Line}

theorem lineBreak_eq (level : Nat) : Buffer.lineBreak level = "\n" ++ blanks level := rfl

@[simp] theorem continued_nil : continued level [] = "" := rfl

@[simp]
theorem continued_cons :
    continued level (l :: lines) =
      Buffer.lineBreak (level + l.depth) ++ l.text ++ continued level lines := by
  rw [continued, List.map_cons, String.join_cons]
  rfl

@[simp]
theorem continued_append :
    continued level (lines ++ lines') = continued level lines ++ continued level lines' := by
  rw [continued, List.map_append, String.join_append]
  rfl

theorem joined_cons : joined level (l :: lines) = l.text ++ continued level lines := by
  have behind (t : String) : "\n".intercalate (t :: lines.map (indented level)) =
      t ++ continued level lines := by
    induction lines generalizing t with
    | nil => simp [continued]
    | cons l lines ih =>
        rw [List.map_cons, String.intercalate_cons_cons, ih, continued_cons, indented,
          lineBreak_eq]
        simp only [String.append_assoc]
  exact behind l.text

theorem lineFree_blanks (level : Nat) : LineFree (blanks level) := by
  intro h
  rw [blanks, String.toList_ofList] at h
  exact absurd (List.eq_of_mem_replicate h) (by decide)

theorem blanks_add (level level' : Nat) :
    blanks (level + level') = blanks level ++ blanks level' := by
  rw [blanks, Nat.mul_add, List.replicate_add, String.ofList_append]
  rfl

theorem deeper_append (a b : String) :
    deeper level (a ++ b) = deeper level a ++ deeper level b := by
  rw [deeper, String.toList_append, List.flatMap_append, String.ofList_append]
  rfl

theorem deeper_of_lineFree {text : String} (h : LineFree text) : deeper level text = text := by
  have same : text.toList.flatMap (fun c =>
      if c = '\n' then '\n' :: (blanks level).toList else [c]) =
        text.toList.flatMap fun c => [c] := by
    refine List.flatMap_congr fun c hc => if_neg ?_
    rintro rfl
    exact h hc
  rw [deeper, same, List.flatMap_singleton', String.ofList_toList]

theorem deeper_lineBreak (level' : Nat) :
    deeper level (Buffer.lineBreak level') = Buffer.lineBreak (level + level') := by
  have feed : deeper level "\n" = "\n" ++ blanks level := by
    rw [← String.toList_inj, deeper, String.toList_ofList]
    simp
  rw [lineBreak_eq, deeper_append, feed, deeper_of_lineFree (lineFree_blanks level'),
    String.append_assoc, ← blanks_add, lineBreak_eq]

theorem continued_eq_deeper (h : ∀ l ∈ lines, LineFree l.text) :
    continued level lines = deeper level (continued 0 lines) := by
  induction lines with
  | nil => rfl
  | cons l lines ih =>
      rw [continued_cons, continued_cons, ih fun l' hl => h l' (List.mem_cons_of_mem l hl),
        deeper_append, deeper_append, deeper_lineBreak, Nat.zero_add,
        deeper_of_lineFree (h l (List.mem_cons_self ..))]

/-- On a deeper level all lines but the first one, which stands where writing starts, have more
blanks in front of them. -/
theorem joined_eq_deeper (h : ∀ l ∈ lines, LineFree l.text) :
    joined level lines = deeper level (joined 0 lines) := by
  cases lines with
  | nil => rfl
  | cons l lines =>
      rw [joined_cons, joined_cons, deeper_append, deeper_of_lineFree (h l (List.mem_cons_self ..)),
        continued_eq_deeper fun l' hl => h l' (List.mem_cons_of_mem l hl)]

theorem lineFree_of_mem_shown {text : String} (h : ∀ l ∈ lines, LineFree l.text)
    (shown : text ∈ shown level lines) : LineFree text := by
  cases lines with
  | nil => cases shown
  | cons l lines =>
      rcases List.mem_cons.mp shown with rfl | member
      · exact h l (List.mem_cons_self ..)
      · obtain ⟨l', hl, rfl⟩ := List.mem_map.mp member
        exact lineFree_append.mpr ⟨lineFree_blanks _, h l' (List.mem_cons_of_mem l hl)⟩

/-- The lines come back when the text is split at its line feeds. -/
theorem splitOn_joined (h : ∀ l ∈ lines, LineFree l.text) (nonempty : lines ≠ []) :
    (joined level lines).toList.splitOn '\n' = (shown level lines).map String.toList := by
  rw [joined, String.toList_intercalate]
  refine List.splitOn_intercalate '\n' ?_ ?_
  · intro cs hcs
    obtain ⟨text, member, rfl⟩ := List.mem_map.mp hcs
    exact lineFree_of_mem_shown h member
  · cases lines with
    | nil => exact absurd rfl nonempty
    | cons l lines => exact List.cons_ne_nil _ _

end

end Line

/-- Parts in parentheses, or nothing if there are none. -/
def inParentheses (parts : List String) : String :=
  if parts = [] then "" else bracketed "(" ")" parts

def TypeRef.text : TypeRef → String
  | .named name => name
  | .list item => "[" ++ item.text ++ "]"
  | .nonNull inner => inner.text ++ "!"

section Lines

variable (text : V → String)

/-- An argument, or the field of an input object. -/
def Entry.phrase (e : Entry V) : String := e.name ++ ": " ++ text e.value

/-- A field up to its selections. -/
def Field.head (f : Field V) : String :=
  Layout.fieldHead f ++ inParentheses (f.arguments.map (Entry.phrase text))

def VariableDefinition.phrase (d : VariableDefinition V) : String :=
  "$" ++ d.name ++ ": " ++ d.type.text ++
    match d.default with
    | some v => " = " ++ text v
    | none => ""

/-- An operation up to its selections. Without a name, variables stand behind a blank. -/
def Operation.head (op : Operation V) : String :=
  op.kind.keyword ++
    (match op.name with
    | some name => " " ++ name
    | none => if op.definitions = [] then "" else " ") ++
    inParentheses (op.definitions.map (VariableDefinition.phrase text))

/-- Lines between an opening line and a closing brace. -/
def Line.enclosed (depth : Nat) (opening : String) (inner : List Line) : List Line :=
  ⟨depth, opening⟩ :: (inner ++ [⟨depth, "\x7d"⟩])

namespace Field

mutual

/-- The lines of a field and of all fields inside it, each before those inside it. -/
def lines (depth : Nat) : Field V → List Line
  | ⟨aliasName, name, arguments, selections⟩ =>
    let head := head text ⟨aliasName, name, arguments, selections⟩
    if selections.isEmpty then [⟨depth, head⟩]
    else Line.enclosed depth (head ++ " \x7b") (linesAll (depth + 1) selections)
termination_by structural f => f

def linesAll (depth : Nat) : List (Field V) → List Line
  | [] => []
  | f :: fields => lines depth f ++ linesAll depth fields
termination_by structural fields => fields

end

theorem linesAll_eq (depth : Nat) (fields : List (Field V)) :
    linesAll text depth fields = fields.flatMap (lines text depth) := by
  induction fields with
  | nil => rfl
  | cons f fields ih => rw [linesAll, ih, List.flatMap_cons]

theorem lines_eq (depth : Nat) (f : Field V) :
    f.lines text depth =
      if f.selections = [] then [⟨depth, f.head text⟩]
      else Line.enclosed depth (f.head text ++ " \x7b")
        (f.selections.flatMap (lines text (depth + 1))) := by
  obtain ⟨aliasName, name, arguments, selections⟩ := f
  rw [lines, linesAll_eq]
  cases selections <;> rfl

end Field

end Lines

/-- The parts of a request that consist of lines. -/
inductive Block (V : Type) where
  | selectionSet (fields : List (Field V))
  | field (f : Field V)
  | operation (op : Operation V)

namespace Block

def node : Block V → Node V
  | .selectionSet fields => .selectionSet fields
  | .field f => .field f
  | .operation op => .operation op

def lines (text : V → String) : Block V → List Line
  | .selectionSet fields =>
    if fields = [] then []
    else Line.enclosed 0 "\x7b" (fields.flatMap (Field.lines text 1))
  | .field f => f.lines text 0
  | .operation op =>
    if op.selections = [] then [⟨0, op.head text ++ " \x7b\x7d"⟩]
    else Line.enclosed 0 (op.head text ++ " \x7b") (op.selections.flatMap (Field.lines text 1))

end Block

section Written

variable {value : V → Layout Ref} {object : Ref → String} {text : V → String} {level depth : Nat}

open Line

theorem joined_enclosed (opening : String) (inner : List Line) :
    joined level (enclosed depth opening inner) =
      opening ++ (continued level inner ++ (Buffer.lineBreak (level + depth) ++ "\x7d")) := by
  rw [enclosed, joined_cons, continued_append, continued_cons, continued_nil, String.append_empty]

theorem continued_lines (f : Field V) :
    continued level (f.lines text depth) =
      Buffer.lineBreak (level + depth) ++ joined level (f.lines text depth) := by
  rw [Field.lines_eq]
  split
  · rw [continued_cons, joined_cons, String.append_assoc]
  · rw [enclosed, continued_cons, joined_cons, String.append_assoc]

theorem text_ofLines {fields : List (Field V)}
    (h : ∀ f ∈ fields, (Layout.ofField value (level + depth) f).text object =
      joined level (f.lines text depth)) :
    (Layout.ofLines value (level + depth) fields).text object =
      continued level (fields.flatMap (Field.lines text depth)) := by
  induction fields with
  | nil => rfl
  | cons f fields ih =>
      rw [Layout.ofLines, Layout.text_append, Layout.text, h f (List.mem_cons_self ..),
        ih fun g hg => h g (List.mem_cons_of_mem f hg), List.flatMap_cons, continued_append,
        continued_lines]

/-- Selections behind a text that ends before their opening brace. -/
theorem text_ofSelections {fields : List (Field V)} (nonempty : fields ≠ []) (front : String)
    (h : ∀ f ∈ fields, (Layout.ofField value (level + (depth + 1)) f).text object =
      joined level (f.lines text (depth + 1))) :
    front ++ (Layout.ofSelections value (level + depth) fields).text object =
      joined level
        (enclosed depth (front ++ "\x7b") (fields.flatMap (Field.lines text (depth + 1)))) := by
  have lines := text_ofLines h
  rw [joined_enclosed, ← lines]
  cases fields with
  | nil => exact absurd rfl nonempty
  | cons f fields =>
      have after : (Layout.ofSelections value (level + depth) (f :: fields)).text object =
          "\x7b" ++ ((Layout.ofLines value (level + (depth + 1)) (f :: fields)).text object ++
            (Buffer.lineBreak (level + depth) ++ "\x7d")) := by
        rw [Layout.ofSelections, List.cons_append, Layout.text, Layout.text_append, Layout.text,
          Layout.text, Layout.text, String.append_empty]
        · rfl
        · exact List.cons_ne_nil f fields
      rw [after, String.append_assoc]

theorem opened_eq (head : String) : head ++ " \x7b" = head ++ " " ++ "\x7b" := by
  rw [String.append_assoc]
  rfl

theorem text_ofTypeRef (t : TypeRef) : (Layout.ofTypeRef t).text object = t.text := by
  induction t with
  | named name => exact String.append_empty
  | list item ih =>
      rw [Layout.ofTypeRef, List.cons_append, Layout.text, Layout.text_append, ih, TypeRef.text,
        String.append_assoc]
      rfl
  | nonNull inner ih =>
      rw [Layout.ofTypeRef, Layout.text_append, ih, TypeRef.text]
      rfl

theorem text_parenthesized {α : Type} {layout : α → Layout Ref} {phrase : α → String}
    {parts : List α} (nonempty : parts ≠ []) (h : ∀ a, (layout a).text object = phrase a) :
    (Layout.enclosed "(" ")" (parts.map layout)).text object =
      inParentheses (parts.map phrase) := by
  have shown : parts.map phrase ≠ [] := by simpa using nonempty
  rw [Layout.text_enclosed, List.map_map, inParentheses, if_neg shown]
  exact congrArg (bracketed "(" ")") (List.map_congr_left fun a _ => h a)

variable (values : ∀ v, (value v).text object = text v)

include values

theorem text_ofEntry_phrase (e : Entry V) :
    (Layout.ofEntry value e).text object = e.phrase text := by
  rw [Layout.ofEntry, Layout.text, values, Entry.phrase]

theorem text_ofArguments (arguments : List (Entry V)) :
    (Layout.ofArguments value arguments).text object =
      inParentheses (arguments.map (Entry.phrase text)) := by
  cases arguments with
  | nil => rfl
  | cons e es => exact text_parenthesized (List.cons_ne_nil e es) (text_ofEntry_phrase values)

theorem text_ofField (f : Field V) (depth : Nat) :
    (Layout.ofField value (level + depth) f).text object = joined level (f.lines text depth) := by
  induction f using Field.induct generalizing depth with
  | mk aliasName name arguments selections ih =>
      rw [Layout.ofField_eq, Layout.text, Layout.text_append, text_ofArguments values,
        Field.lines_eq, ← String.append_assoc]
      by_cases leaf : selections = []
      · rw [if_pos leaf, if_pos leaf, joined_cons, continued_nil]
        rfl
      · rw [if_neg leaf, if_neg leaf, Layout.text, ← String.append_assoc, opened_eq]
        exact text_ofSelections leaf _ fun g hg => ih g hg (depth + 1)

theorem text_ofVariableDefinition (d : VariableDefinition V) :
    (Layout.ofVariableDefinition value d).text object = d.phrase text := by
  obtain ⟨name, type, default⟩ := d
  cases default with
  | none =>
      rw [Layout.ofVariableDefinition, VariableDefinition.phrase]
      simp [Layout.text, text_ofTypeRef]
  | some v =>
      rw [Layout.ofVariableDefinition, VariableDefinition.phrase]
      simp [Layout.text, text_ofTypeRef, values, String.append_assoc]

theorem text_ofVariableDefinitions (ds : List (VariableDefinition V)) :
    (Layout.ofVariableDefinitions value ds).text object =
      inParentheses (ds.map (VariableDefinition.phrase text)) := by
  cases ds with
  | nil => rfl
  | cons d ds =>
      exact text_parenthesized (List.cons_ne_nil d ds) (text_ofVariableDefinition values)

theorem text_ofOperation (op : Operation V) :
    (Layout.ofOperation value level op).text object =
      joined level (Block.lines text (.operation op)) := by
  have head : (Layout.ofOperation value level op).text object =
      op.head text ++ " " ++ (Layout.ofOperationBody value level op).text object := by
    have name : (Layout.ofOperationName op : Layout Ref).text object = match op.name with
        | some name => " " ++ name
        | none => if op.definitions = [] then "" else " " := by
      obtain ⟨kind, _ | name, _ | ⟨d, ds⟩, selections⟩ := op <;>
        simp [Layout.ofOperationName, Layout.text]
    rw [Layout.ofOperation_eq, Layout.text, Layout.text_append, Layout.text_append, name,
      text_ofVariableDefinitions values, Layout.text, Operation.head]
    simp only [String.append_assoc]
  rw [head, Layout.ofOperationBody, Block.lines]
  split
  · rw [joined_cons, continued_nil, Layout.text, Layout.text, String.append_empty,
      String.append_empty, String.append_assoc]
    rfl
  · rename_i inner
    rw [opened_eq]
    exact text_ofSelections inner _ fun g _ => text_ofField values g 1

/-- The text of a block is that of its lines. -/
theorem text_ofNode_block (b : Block V) :
    (Layout.ofNode value level b.node).text object = joined level (b.lines text) := by
  cases b with
  | selectionSet fields =>
      by_cases none : fields = []
      · subst none
        rfl
      · have inner : "" ++ (Layout.ofSelections value (level + 0) fields).text object =
            joined level (enclosed 0 ("" ++ "\x7b") (fields.flatMap (Field.lines text 1))) :=
          text_ofSelections none "" fun g _ => text_ofField values g 1
        rw [String.empty_append] at inner
        rw [Block.lines, if_neg none]
        exact inner
  | field f => exact text_ofField values f 0
  | operation op => exact text_ofOperation values op

end Written

end QueryDoc
