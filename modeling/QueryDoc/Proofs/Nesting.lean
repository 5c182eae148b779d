import QueryDoc.Proofs.Limit
import QueryDoc.Proofs.Lines
import QueryDoc.Proofs.Numeric.Word

/-!
The layout of a document. Nothing that is written inside of a line ends it, if the names and words
in a document have no line breaks. So the lines of a text are those of the fields and braces in it,
and a text on a deeper level differs in its indentation only. Levels are numbers of any size, but as
they are written out in blanks, no line of a text is on a level greater than the size of the text.
-/

namespace QueryDoc

variable {V : Type}

section Names

namespace Field

mutual

/-- The names and aliases in a field, those of its arguments included. -/
def names : Field V → List String
  | ⟨aliasName, name, arguments, selections⟩ =>
    aliasName.toList ++ name :: (Entry.names arguments ++ namesAll selections)
termination_by structural f => f

def namesAll : List (Field V) → List String
  | [] => []
  | f :: fields => f.names ++ namesAll fields
termination_by structural fields => fields

end

theorem namesAll_eq (fields : List (Field V)) : namesAll fields = fields.flatMap names := by
  induction fields with
  | nil => rfl
  | cons f fields ih => rw [namesAll, ih, List.flatMap_cons]

end Field

def VariableDefinition.names (d : VariableDefinition V) : List String := [d.name, d.type.innermost]

/-- The names in a block, the names of types included. -/
def Block.names : Block V → List String
  | .selectionSet fields => fields.flatMap Field.names
  | .field f => f.names
  | .operation op =>
    op.name.toList ++ op.definitions.flatMap VariableDefinition.names ++
      op.selections.flatMap Field.names

variable {text : V → String} {depth : Nat} {l : Line}

theorem lineFree_inParentheses {parts : List String} (h : ∀ t ∈ parts, LineFree t) :
    LineFree (inParentheses parts) := by
  rw [inParentheses]
  split
  · decide
  · exact lineFree_bracketed (by decide) (by decide) h

theorem lineFree_typeRef (t : TypeRef) (h : LineFree t.innermost) : LineFree t.text := by
  induction t with
  | named name => exact h
  | list item ih =>
      exact lineFree_append.mpr ⟨lineFree_append.mpr ⟨by decide, ih h⟩, by decide⟩
  | nonNull inner ih => exact lineFree_append.mpr ⟨ih h, by decide⟩

theorem lineFree_phrase {e : Entry V} (name : LineFree e.name) (value : LineFree (text e.value)) :
    LineFree (e.phrase text) :=
  lineFree_append.mpr ⟨lineFree_append.mpr ⟨name, by decide⟩, value⟩

theorem lineFree_enclosed {opening : String} {inner : List Line} (ho : LineFree opening)
    (h : ∀ l ∈ inner, LineFree l.text) :
    ∀ l ∈ Line.enclosed depth opening inner, LineFree l.text := by
  rw [Line.enclosed, List.forall_mem_cons, List.forall_mem_append, List.forall_mem_singleton]
  exact ⟨ho, h, (by decide : LineFree "\x7d")⟩

theorem lineFree_head {f : Field V} (aliasName : ∀ w ∈ f.aliasName, LineFree w)
    (name : LineFree f.name)
    (arguments : ∀ e ∈ f.arguments, LineFree e.name ∧ LineFree (text e.value)) :
    LineFree (f.head text) := by
  refine lineFree_append.mpr ⟨?_, lineFree_inParentheses fun t ht => ?_⟩
  · rw [Layout.fieldHead]
    split
    · rename_i aliasText same
      exact lineFree_append.mpr ⟨lineFree_append.mpr ⟨aliasName _ same, by decide⟩, name⟩
    · exact name
  · obtain ⟨e, he, rfl⟩ := List.mem_map.mp ht
    exact lineFree_phrase (arguments e he).1 (arguments e he).2

theorem lineFree_lines (f : Field V) (names : ∀ w ∈ f.names, LineFree w)
    (values : ∀ v ∈ f.values, LineFree (text v)) : ∀ l ∈ f.lines text depth, LineFree l.text := by
  induction f using Field.induct generalizing depth with
  | mk aliasName name arguments selections ih =>
      simp only [Field.names, Field.namesAll_eq, Entry.names, List.mem_append, List.mem_cons,
        List.mem_map, List.mem_flatMap, Option.mem_toList] at names
      simp only [Field.values, Field.valuesAll_eq, List.mem_append, List.mem_map,
        List.mem_flatMap] at values
      have head : LineFree (Field.head text ⟨aliasName, name, arguments, selections⟩) :=
        lineFree_head (fun w hw => names w (.inl hw)) (names name (.inr (.inl rfl)))
          fun e he => ⟨names _ (.inr (.inr (.inl ⟨e, he, rfl⟩))), values _ (.inl ⟨e, he, rfl⟩)⟩
      have inner : ∀ l ∈ selections.flatMap (Field.lines text (depth + 1)), LineFree l.text := by
        intro l hl
        obtain ⟨g, hg, hl⟩ := List.mem_flatMap.mp hl
        exact ih g hg (fun w hw => names w (.inr (.inr (.inr ⟨g, hg, hw⟩))))
          (fun v hv => values v (.inr ⟨g, hg, hv⟩)) l hl
      rw [Field.lines_eq]
      split
      · exact List.forall_mem_singleton.mpr head
      · exact lineFree_enclosed (lineFree_append.mpr ⟨head, by decide⟩) inner

theorem lineFree_phrase_definition {d : VariableDefinition V} (names : ∀ w ∈ d.names, LineFree w)
    (default : ∀ v ∈ d.default, LineFree (text v)) : LineFree (d.phrase text) := by
  simp only [VariableDefinition.names, List.forall_mem_cons] at names
  refine lineFree_append.mpr ⟨lineFree_append.mpr ⟨lineFree_append.mpr ⟨lineFree_append.mpr
    ⟨by decide, names.1⟩, by decide⟩, lineFree_typeRef d.type names.2.1⟩, ?_⟩
  split
  · rename_i v same
    exact lineFree_append.mpr ⟨by decide, default v same⟩
  · decide

theorem lineFree_operationHead {op : Operation V} (name : ∀ w ∈ op.name, LineFree w)
    (definitions : ∀ d ∈ op.definitions, LineFree (d.phrase text)) : LineFree (op.head text) := by
  refine lineFree_append.mpr ⟨lineFree_append.mpr ⟨?_, ?_⟩, lineFree_inParentheses fun t ht => ?_⟩
  · cases op.kind <;> decide
  · split
    · rename_i w same
      exact lineFree_append.mpr ⟨by decide, name w same⟩
    · split <;> decide
  · obtain ⟨d, hd, rfl⟩ := List.mem_map.mp ht
    exact definitions d hd

/-- A block of such names and values has its lines apart. -/
theorem lineFree_block (b : Block V) (names : ∀ w ∈ b.names, LineFree w)
    (values : ∀ v ∈ b.node.values, LineFree (text v)) : ∀ l ∈ b.lines text, LineFree l.text := by
  have inner {fields : List (Field V)} (names : ∀ w ∈ fields.flatMap Field.names, LineFree w)
      (values : ∀ v ∈ fields.flatMap Field.values, LineFree (text v)) :
      ∀ l ∈ fields.flatMap (Field.lines text 1), LineFree l.text := by
    intro l hl
    obtain ⟨g, hg, hl⟩ := List.mem_flatMap.mp hl
    exact lineFree_lines g (fun w hw => names w (List.mem_flatMap_of_mem hg hw))
      (fun v hv => values v (List.mem_flatMap_of_mem hg hv)) l hl
  cases b with
  | selectionSet fields =>
      rw [Block.lines]
      split
      · exact fun l hl => absurd hl List.not_mem_nil
      · exact lineFree_enclosed (by decide) (inner names values)
  | field f => exact lineFree_lines f names values
  | operation op =>
      rw [Block.names, List.forall_mem_append, List.forall_mem_append] at names
      have values' : (∀ v ∈ op.definitions.flatMap VariableDefinition.values, LineFree (text v)) ∧
          ∀ v ∈ op.selections.flatMap Field.values, LineFree (text v) :=
        List.forall_mem_append.mp values
      have head : LineFree (op.head text) := by
        refine lineFree_operationHead (fun w hw => names.1.1 w (Option.mem_toList.mpr hw))
          fun d hd => lineFree_phrase_definition ?_ ?_
        · exact fun w hw => names.1.2 w (List.mem_flatMap_of_mem hd hw)
        · exact fun v hv => values'.1 v (List.mem_flatMap_of_mem hd (Option.mem_toList.mpr hv))
      rw [Block.lines]
      split
      · exact List.forall_mem_singleton.mpr (lineFree_append.mpr ⟨head, by decide⟩)
      · exact lineFree_enclosed (lineFree_append.mpr ⟨head, by decide⟩) (inner names.2 values'.2)

end Names

namespace Store

section Levels

variable {s : Store} {trail : Trail} {level l : Nat} {n : Node (Value ObjectId)} {b b' : Buffer}

/-- A run that goes through only adds to the text, and all line breaks of its layout are in the text
at the end, each with its blanks. -/
theorem lt_size_of_write (s : Store) (trail : Trail) (layout : Layout ObjectId) (b : Buffer) :
    (s.write trail layout b).failure = none →
      b.text.utf8ByteSize ≤ (s.write trail layout b).buffer.text.utf8ByteSize ∧
      ∀ l, .lineBreak l ∈ layout →
        2 * l < (s.write trail layout b).buffer.text.utf8ByteSize := by
  induction trail, layout, b using write_induct (s := s) with
  | done trail b => exact fun _ => ⟨Nat.le_refl _, fun l hl => absurd hl List.not_mem_nil⟩
  | textRefused _ _ _ _ _ | lineBreakRefused _ _ _ _ _ | met _ _ _ _ _ | inside _ _ _ _ _ _ _ _ =>
      exact nofun
  | text trail t rest b b' added ih =>
      intro through
      obtain ⟨grows, lines⟩ := ih through
      have size := Buffer.size_of_add added
      refine ⟨by omega, fun l hl => lines l ?_⟩
      simpa using hl
  | lineBreak trail level rest b b' added ih =>
      intro through
      obtain ⟨grows, lines⟩ := ih through
      rw [Buffer.addLineBreak_eq_add] at added
      have size := Buffer.size_of_add added
      rw [Buffer.utf8ByteSize_lineBreak] at size
      refine ⟨by omega, fun l hl => ?_⟩
      rcases List.mem_cons.mp hl with same | later
      · cases same
        omega
      · exact lines l later
  | object trail o rest b b' fresh written ih ihrest =>
      intro through
      obtain ⟨grows, -⟩ := ih rfl
      obtain ⟨grows', lines⟩ := ihrest through
      refine ⟨Nat.le_trans grows grows', fun l hl => lines l ?_⟩
      simpa using hl

/-- Words of 64 bits hold the levels of all lines of a node if they hold the size of its text. So it
makes no difference to a text that can be held whether levels are counted in such words. -/
theorem holds_level_of_written (written : s.writeNode trail level n b = { buffer := b' })
    (size : IntegerType.unsigned64.Holds b'.text.utf8ByteSize)
    (line : .lineBreak l ∈ Layout.ofNode Layout.ofValue level n) :
    IntegerType.unsigned64.Holds l := by
  have run := lt_size_of_write s trail (Layout.ofNode Layout.ofValue level n) b
  rw [← writeNode, written] at run
  have below : 2 * l < b'.text.utf8ByteSize := (run rfl).2 l line
  exact size.of_between (.inl (by omega))

end Levels

/-- A block is written as its lines, each on the level of its depth: the head of every field with
those of the fields inside it below, and the closing brace after the last of these. No line has a
line break in it, so these are the lines of the text. On a deeper level only the indentation of the
lines is greater. -/
theorem layout_follows_nesting (s : Store) (b : Block (Value ObjectId)) (trail : Trail)
    (h : ∀ o, s.NodeReaches b.node o → o ∉ trail ∧ ¬ s.OnCycle o)
    (names : ∀ w ∈ b.names, LineFree w) (values : ∀ v ∈ b.node.values, ∀ w ∈ v.words, LineFree w)
    (fields : ∀ o, s.NodeReaches b.node o → s.LineFreeFields o) (level : Nat) (before : String) :
    let lines := b.lines s.valueText
    s.writeNode trail level b.node { text := before } =
      { buffer := { text := before ++ Line.joined level lines } } ∧
    (∀ l ∈ lines, LineFree l.text) ∧
    (lines = [] ∨ (Line.joined level lines).toList.splitOn '\n' =
      (Line.shown level lines).map String.toList) ∧
    ∃ flat, s.writeNode trail 0 b.node {} = { buffer := { text := flat } } ∧
      Line.joined level lines = Line.deeper level flat := by
  intro lines
  have clear : ∀ o ∈ b.node.refs, s.Clear trail o := clear_of_reaches h
  have written (level : Nat) (before : String) : s.writeNode trail level b.node { text := before } =
      { buffer := { text := before ++ Line.joined level lines } } := by
    have text := write_text s trail (Layout.ofNode Layout.ofValue level b.node) { text := before }
      rfl (by rwa [refs_ofNode_ofValue])
    rw [text_ofNode_block (Layout.text_ofValue s.objectText)] at text
    exact text
  have apart : ∀ l ∈ lines, LineFree l.text := by
    refine lineFree_block b names fun v hv => v.lineFree_text (values v hv) fun o ho => ?_
    have member : o ∈ b.node.refs := List.mem_flatMap_of_mem hv ho
    exact lineFree_objectText (clear o member) fun p hp => fields p ⟨o, member, hp⟩
  refine ⟨written level before, apart, ?_, ?_⟩
  · exact or_iff_not_imp_left.mpr (Line.splitOn_joined apart)
  · refine ⟨Line.joined 0 lines, ?_, Line.joined_eq_deeper apart⟩
    rw [written 0 "", String.empty_append]

def letterStore : Store := ⟨#[[⟨"body", .string "first\nsecond"⟩]]⟩

/-- A query with fields on three levels, and a line break in a string. -/
def sendQuery : Block (Value ObjectId) := .operation
  { kind := .query
    name := some "Send"
    definitions := [⟨"n", .list (.nonNull (.named "Int")), some (.int "1")⟩]
    selections :=
      [{ aliasName := some "sent"
         name := "send"
         arguments := [⟨"letter", .object ⟨0⟩⟩]
         selections := [{ name := "id" }, { name := "reply", selections := [{ name := "id" }] }] },
       { name := "count" }] }

theorem sendQuery_on_level_one :
    (∀ o, letterStore.NodeReaches sendQuery.node o → o ∉ [] ∧ ¬ letterStore.OnCycle o) ∧
    (∀ w ∈ sendQuery.names, LineFree w) ∧
    (∀ v ∈ sendQuery.node.values, ∀ w ∈ v.words, LineFree w) ∧
    (∀ o, letterStore.NodeReaches sendQuery.node o → letterStore.LineFreeFields o) ∧
    letterStore.writeNode [] 1 sendQuery.node {} =
      { buffer :=
          { text := "query Send($n: [Int!] = 1) \x7b\n" ++
              "    sent: send(letter: \x7bbody: \"first\\nsecond\"\x7d) \x7b\n" ++
              "      id\n      reply \x7b\n        id\n      \x7d\n    \x7d\n" ++
              "    count\n  \x7d" } } := by
  have h : ∀ o, letterStore.NodeReaches sendQuery.node o →
      o ∉ [] ∧ ¬ letterStore.OnCycle o :=
    (visitAll_refs_eq_none_iff ..).mp (by decide +kernel)
  have names : ∀ w ∈ sendQuery.names, LineFree w := by decide
  have values : ∀ v ∈ sendQuery.node.values, ∀ w ∈ v.words, LineFree w := by decide
  have fields : ∀ o, letterStore.NodeReaches sendQuery.node o → letterStore.LineFreeFields o := by
    rintro ⟨_ | i⟩ - f hf
    · have only : f = ⟨"body", .string "first\nsecond"⟩ := List.mem_singleton.mp hf
      subst only
      exact ⟨by decide, nofun⟩
    · cases hf
  obtain ⟨written, -⟩ := layout_follows_nesting letterStore sendQuery [] h names values fields 1 ""
  refine ⟨h, names, values, fields, ?_⟩
  rw [written]
  decide +kernel

end Store

end QueryDoc
