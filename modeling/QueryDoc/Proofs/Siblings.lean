import QueryDoc.Proofs.Text
import QueryDoc.Proofs.Steps

/-!
Parts in a row. Whatever stands in a buffer before, and whatever was written to the end before, a
layout is written as it is into an empty buffer: what an object was entered for is left again when
it is written. So the items of a list, of arguments, of variable definitions or of a document are
written one after the other as each is written alone, up to the first one that fails, and this one
fails as it does alone.
-/

namespace QueryDoc

/-- A buffer with the same limit and another text in front of its own. -/
def Buffer.behind (t : String) (b : Buffer) : Buffer := { b with text := t ++ b.text }

def Run.behind (t : String) (r : Run) : Run := { r with buffer := r.buffer.behind t }

/-- The run that goes on from where a run ends, unless that one failed. -/
def Run.andThen (r : Run) (next : Buffer → Run) : Run :=
  match r.failure with
  | none => next r.buffer
  | some _ => r

namespace Layout

variable {Ref : Type}

/-- A text as a layout. The empty text is no piece at all. -/
def ofText (t : String) : Layout Ref := if t = "" then [] else [.text t]

theorem separated_cons (separator : String) (part : Layout Ref) {parts : List (Layout Ref)}
    (more : parts ≠ []) :
    separated separator (part :: parts) = part ++ .text separator :: separated separator parts := by
  cases parts with
  | nil => contradiction
  | cons next parts => rfl

end Layout

/-- What is written before, between and after parts in a row. -/
structure Delimiters where
  opening : String
  separator : String
  closing : String

def Delimiters.around (d : Delimiters) (texts : List String) : String :=
  d.opening ++ d.separator.intercalate texts ++ d.closing

/-- The nodes whose parts are written in a row. -/
inductive Row where
  | list (items : List (Value ObjectId))
  | objects (os : List ObjectId)
  | arguments (es : List (Entry (Value ObjectId)))
  | variableDefinitions (ds : List (VariableDefinition (Value ObjectId)))
  | document (d : Document (Value ObjectId))

namespace Row

def node : Row → Node (Value ObjectId)
  | .list items => .value (.list items)
  | .objects os => .value (.objects os)
  | .arguments es => .arguments es
  | .variableDefinitions ds => .variableDefinitions ds
  | .document d => .document d

def items : Row → List (Node (Value ObjectId))
  | .list items => items.map .value
  | .objects os => os.map fun o => .value (.object o)
  | .arguments es => es.map .entry
  | .variableDefinitions ds => ds.map .variableDefinition
  | .document d => d.operations.map .operation

/-- Arguments and variable definitions have no brackets when there are none. -/
def delimiters : Row → Delimiters
  | .list _ | .objects _ => ⟨"[", ", ", "]"⟩
  | .arguments [] | .variableDefinitions [] => ⟨"", ", ", ""⟩
  | .arguments _ | .variableDefinitions _ => ⟨"(", ", ", ")"⟩
  | .document _ => ⟨"", "\n\n", ""⟩

theorem items?_node (r : Row) : r.node.items? = some r.items := by
  cases r <;> rfl

theorem ofNode_node (r : Row) (level : Nat) :
    Layout.ofNode Layout.ofValue level r.node =
      Layout.ofText r.delimiters.opening ++
        (Layout.separated r.delimiters.separator
            (r.items.map (Layout.ofNode Layout.ofValue level)) ++
          Layout.ofText r.delimiters.closing) := by
  cases r with
  | list vs =>
      rw [node, Layout.ofNode, Layout.ofValue, Layout.ofItems_eq, items, List.map_map]
      rfl
  | objects os =>
      rw [node, Layout.ofNode, Layout.ofValue, items, List.map_map]
      rfl
  | arguments es =>
      rw [items, List.map_map]
      cases es <;> rfl
  | variableDefinitions ds =>
      rw [items, List.map_map]
      cases ds <;> rfl
  | document d =>
      rw [items, List.map_map]
      exact (List.append_nil _).symm

end Row

namespace Store

variable {s : Store} {trail : Trail}

theorem write_append (s : Store) (trail : Trail) (a : Layout ObjectId) (b : Buffer) :
    ∀ layout, s.write trail (a ++ layout) b = (s.write trail a b).andThen (s.write trail layout) := by
  induction trail, a, b using write_induct (s := s) with
  | done trail b => exact fun layout => rfl
  | text trail t rest b b' added ih =>
      intro layout
      rw [List.cons_append, write, added]
      exact ih layout
  | textRefused trail t rest b refused =>
      intro layout
      rw [List.cons_append, write, refused]
      rfl
  | lineBreak trail level rest b b' added ih =>
      intro layout
      rw [List.cons_append, write, added]
      exact ih layout
  | lineBreakRefused trail level rest b refused =>
      intro layout
      rw [List.cons_append, write, refused]
      rfl
  | met trail o rest b met =>
      intro layout
      rw [List.cons_append, write, if_pos met]
      rfl
  | object trail o rest b b' fresh written _ ihrest =>
      intro layout
      rw [List.cons_append, write, if_neg fresh, written]
      exact ihrest layout
  | inside trail o rest b b' f fresh ih =>
      intro layout
      have inner := ih []
      rw [List.append_nil] at inner
      rw [List.cons_append, write, if_neg fresh, inner]
      rfl

/-- What stands in a buffer without limit is kept, and has no part in what is written behind it. -/
theorem write_behind (s : Store) (trail : Trail) (layout : Layout ObjectId) (b : Buffer)
    (unlimited : b.limit = none) (t : String) :
    s.write trail layout (b.behind t) = (s.write trail layout b).behind t := by
  revert unlimited
  induction trail, layout, b using write_induct (s := s) with
  | done trail b =>
      intro _
      rw [write]
      rfl
  | text trail x rest b b' added ih =>
      intro unlimited
      rw [Buffer.add_eq unlimited, Option.some.injEq] at added
      subst added
      rw [write, Buffer.add_eq (b := b.behind t) unlimited, ← ih unlimited, Buffer.behind,
        Buffer.behind, String.append_assoc]
  | lineBreak trail level rest b b' added ih =>
      intro unlimited
      rw [Buffer.addLineBreak_eq unlimited, Option.some.injEq] at added
      subst added
      rw [write, Buffer.addLineBreak_eq (b := b.behind t) unlimited, ← ih unlimited,
        Buffer.behind, Buffer.behind, String.append_assoc]
  | textRefused trail x rest b refused =>
      intro unlimited
      cases refused.symm.trans (Buffer.add_eq unlimited x)
  | lineBreakRefused trail level rest b refused =>
      intro unlimited
      cases refused.symm.trans (Buffer.addLineBreak_eq unlimited level)
  | met trail o rest b met =>
      intro _
      rw [write, if_pos met]
      rfl
  | object trail o rest b b' fresh written ih ihrest =>
      intro unlimited
      have limit := write_limit s (o :: trail) (s.objectLayout o) b
      rw [written] at limit
      rw [write, if_neg fresh, ih unlimited]
      exact ihrest (limit.trans unlimited)
  | inside trail o rest b b' f fresh ih =>
      intro unlimited
      rw [write, if_neg fresh, ih unlimited]
      rfl

/-- The run that writes a layout into an empty buffer. -/
def writeAlone (s : Store) (trail : Trail) (layout : Layout ObjectId) : Run :=
  s.write trail layout {}

theorem write_eq_behind (s : Store) (trail : Trail) (layout : Layout ObjectId) (t : String) :
    s.write trail layout { text := t } = (s.writeAlone trail layout).behind t := by
  have written := write_behind s trail layout {} rfl t
  rwa [Buffer.behind, String.append_empty] at written

theorem write_append_of_succeeded {part : Layout ObjectId}
    (succeeds : (s.writeAlone trail part).failure = none) (rest : Layout ObjectId) (t : String) :
    s.write trail (part ++ rest) { text := t } =
      s.write trail rest { text := t ++ (s.writeAlone trail part).buffer.text } := by
  have limit : (s.writeAlone trail part).buffer.limit = none := write_limit s trail part {}
  rw [write_append, write_eq_behind, Run.andThen, Run.behind, succeeds, Buffer.behind, limit]

theorem write_append_of_failed {part : Layout ObjectId} {f : Failure}
    (fails : (s.writeAlone trail part).failure = some f) (rest : Layout ObjectId) (t : String) :
    s.write trail (part ++ rest) { text := t } =
      { buffer := { text := t ++ (s.writeAlone trail part).buffer.text }, failure := some f } := by
  have limit : (s.writeAlone trail part).buffer.limit = none := write_limit s trail part {}
  rw [write_append, write_eq_behind, Run.andThen, Run.behind, fails, Buffer.behind, limit]

theorem write_cons_text (s : Store) (trail : Trail) (x : String) (rest : Layout ObjectId)
    (t : String) :
    s.write trail (.text x :: rest) { text := t } = s.write trail rest { text := t ++ x } := by
  rw [write, Buffer.add_eq rfl]

theorem write_ofText (s : Store) (trail : Trail) (x : String) (rest : Layout ObjectId) (t : String) :
    s.write trail (Layout.ofText x ++ rest) { text := t } =
      s.write trail rest { text := t ++ x } := by
  rw [Layout.ofText]
  split
  next empty => rw [empty, String.append_empty, List.nil_append]
  next => rw [List.singleton_append, write_cons_text]

theorem write_separated_of_succeeded (separator : String) {parts : List (Layout ObjectId)}
    (succeed : ∀ p ∈ parts, (s.writeAlone trail p).failure = none) (rest : Layout ObjectId)
    (t : String) :
    s.write trail (Layout.separated separator parts ++ rest) { text := t } =
      s.write trail rest
        { text := t ++
            separator.intercalate (parts.map fun p => (s.writeAlone trail p).buffer.text) } := by
  induction parts generalizing t with
  | nil => simp [Layout.separated]
  | cons part parts ih =>
      have first := write_append_of_succeeded (succeed part (List.mem_cons_self ..))
      cases parts with
      | nil => simp [Layout.separated, first]
      | cons next parts =>
          rw [Layout.separated, List.append_assoc, first, List.cons_append, write_cons_text,
            ih fun p hp => succeed p (List.mem_cons_of_mem part hp)]
          simp only [List.map_cons, String.intercalate_cons_cons, String.append_assoc]

/-- The first part that fails ends the run. -/
theorem write_separated_of_failed (separator : String) {done : List (Layout ObjectId)}
    (succeed : ∀ p ∈ done, (s.writeAlone trail p).failure = none) {part : Layout ObjectId}
    {f : Failure} (fails : (s.writeAlone trail part).failure = some f)
    (later : List (Layout ObjectId)) (rest : Layout ObjectId) (t : String) :
    s.write trail (Layout.separated separator (done ++ part :: later) ++ rest) { text := t } =
      { buffer :=
          { text := t ++
              String.join (done.map fun p => (s.writeAlone trail p).buffer.text ++ separator) ++
              (s.writeAlone trail part).buffer.text },
        failure := some f } := by
  induction done generalizing t with
  | nil =>
      obtain ⟨others, split⟩ : ∃ others,
          Layout.separated separator (part :: later) = part ++ others := by
        cases later with
        | nil => exact ⟨[], (List.append_nil part).symm⟩
        | cons next later => exact ⟨_, rfl⟩
      rw [List.nil_append, split, List.append_assoc, write_append_of_failed fails]
      simp
  | cons first done ih =>
      rw [List.cons_append, Layout.separated_cons separator first (by simp), List.append_assoc,
        write_append_of_succeeded (succeed first (List.mem_cons_self ..)), List.cons_append,
        write_cons_text, ih fun p hp => succeed p (List.mem_cons_of_mem first hp)]
      simp only [List.map_cons, String.join_cons, String.append_assoc]

section Rows

variable {r : Row} {level : Nat} {done rest : List (Node (Value ObjectId))}
  {n : Node (Value ObjectId)} {f : Failure}

theorem writeNode_row_of_succeeded
    (succeed : ∀ n ∈ r.items, (s.writeNode trail level n {}).failure = none) (before : String) :
    s.writeNode trail level r.node { text := before } =
      { buffer :=
          { text := before ++
              r.delimiters.around
                (r.items.map fun n => (s.writeNode trail level n {}).buffer.text) } } := by
  have parts : ∀ p ∈ r.items.map (Layout.ofNode Layout.ofValue level),
      (s.writeAlone trail p).failure = none := List.forall_mem_map.mpr succeed
  rw [writeNode, Row.ofNode_node, write_ofText, write_separated_of_succeeded _ parts,
    ← List.append_nil (Layout.ofText _), write_ofText, write, List.map_map]
  simp only [Delimiters.around, String.append_assoc]
  rfl

theorem writeNode_row_of_failed (split : r.items = done ++ n :: rest)
    (succeed : ∀ m ∈ done, (s.writeNode trail level m {}).failure = none)
    (fails : (s.writeNode trail level n {}).failure = some f) (before : String) :
    s.writeNode trail level r.node { text := before } =
      { buffer :=
          { text := before ++ r.delimiters.opening ++
              String.join (done.map fun m =>
                (s.writeNode trail level m {}).buffer.text ++ r.delimiters.separator) ++
              (s.writeNode trail level n {}).buffer.text },
        failure := some f } := by
  have parts : ∀ p ∈ done.map (Layout.ofNode Layout.ofValue level),
      (s.writeAlone trail p).failure = none := List.forall_mem_map.mpr succeed
  rw [writeNode, Row.ofNode_node, write_ofText, split, List.map_append, List.map_cons,
    write_separated_of_failed _ parts fails, List.map_map]
  rfl

/-- Unless all parts succeed, there is a first one that fails. -/
theorem all_succeed_or_first_fails (s : Store) (trail : Trail) (level : Nat)
    (items : List (Node (Value ObjectId))) :
    (∀ n ∈ items, (s.writeNode trail level n {}).failure = none) ∨
      ∃ done n rest f, items = done ++ n :: rest ∧
        (∀ m ∈ done, (s.writeNode trail level m {}).failure = none) ∧
        (s.writeNode trail level n {}).failure = some f := by
  induction items with
  | nil => exact .inl (List.forall_mem_nil _)
  | cons m items ih =>
      cases first : (s.writeNode trail level m {}).failure with
      | some f => exact .inr ⟨[], m, items, f, rfl, List.forall_mem_nil _, first⟩
      | none =>
          rcases ih with succeed | ⟨done, n, rest, f, split, succeed, fails⟩
          · exact .inl (List.forall_mem_cons.mpr ⟨first, succeed⟩)
          · exact .inr ⟨m :: done, n, rest, f, congrArg (m :: ·) split,
              List.forall_mem_cons.mpr ⟨first, succeed⟩, fails⟩

theorem print_of_succeeded (succeeds : (s.writeNode [] 0 n {}).failure = none) :
    s.print n = .ok (s.writeNode [] 0 n {}).buffer.text := by
  rw [print]
  split
  next written => rw [written]
  next f written => cases succeeds.symm.trans (congrArg Run.failure written)

theorem print_of_failed (fails : (s.writeNode [] 0 n {}).failure = some f) :
    s.print n = .error f.error := by
  rw [print]
  split
  next written => cases fails.symm.trans (congrArg Run.failure written)
  next g written =>
      have same := fails.symm.trans (congrArg Run.failure written)
      rw [Option.some.inj same]

theorem mapM_print_of_succeeded
    (succeed : ∀ m ∈ done, (s.writeNode [] 0 m {}).failure = none) :
    done.mapM s.print = .ok (done.map fun m => (s.writeNode [] 0 m {}).buffer.text) := by
  induction done with
  | nil => rfl
  | cons m done ih =>
      obtain ⟨first, others⟩ := List.forall_mem_cons.mp succeed
      rw [List.mapM_cons, print_of_succeeded first, ih others]
      rfl

theorem mapM_print_of_failed (succeed : ∀ m ∈ done, (s.writeNode [] 0 m {}).failure = none)
    (fails : (s.writeNode [] 0 n {}).failure = some f) :
    (done ++ n :: rest).mapM s.print = .error f.error := by
  rw [List.mapM_append, mapM_print_of_succeeded succeed, List.mapM_cons, print_of_failed fails]
  rfl

theorem print_row (s : Store) (r : Row) :
    s.print r.node = (r.items.mapM s.print).map r.delimiters.around := by
  rcases s.all_succeed_or_first_fails [] 0 r.items with
    succeed | ⟨done, n, rest, f, split, succeed, fails⟩
  · have whole := writeNode_row_of_succeeded succeed ""
    rw [print_of_succeeded (congrArg Run.failure whole), whole, mapM_print_of_succeeded succeed,
      String.empty_append]
    rfl
  · have whole := writeNode_row_of_failed split succeed fails ""
    rw [print_of_failed (congrArg Run.failure whole), split, mapM_print_of_failed succeed fails]
    rfl

/-- The items of a row are written as each of them is written alone, whatever objects they share:
with the delimiters of the row between and around them if all of them succeed, and up to the first
one that fails otherwise, which fails the row with its own failure. The same holds of printing. -/
theorem rows_are_written_item_by_item (s : Store) (r : Row) (level : Nat) (trail : Trail)
    (before : String) :
    let whole := s.writeNode trail level r.node { text := before }
    let alone := fun n => s.writeNode trail level n {}
    let d := r.delimiters
    r.node.items? = some r.items ∧
      (whole.failure = none ↔ ∀ n ∈ r.items, (alone n).failure = none) ∧
      (whole.failure = none →
        whole.buffer.text = before ++ d.around (r.items.map fun n => (alone n).buffer.text)) ∧
      (∀ f, whole.failure = some f → ∃ done n rest, r.items = done ++ n :: rest ∧
        (∀ m ∈ done, (alone m).failure = none) ∧ (alone n).failure = some f ∧
        whole.buffer.text = before ++ d.opening ++
          String.join (done.map fun m => (alone m).buffer.text ++ d.separator) ++
          (alone n).buffer.text) ∧
      (∃ w, Writer.Ends s
          (.start (Layout.ofNode Layout.ofValue level r.node) trail { text := before }) w
          (whole.failure.map Failure.error) ∧
        w.buffer = whole.buffer ∧ w.entered = whole.trail trail) ∧
      s.print r.node = (r.items.mapM s.print).map d.around := by
  intro whole alone d
  rcases s.all_succeed_or_first_fails trail level r.items with
    succeed | ⟨done, n, rest, f, split, succeed, fails⟩
  · have written : whole = _ := writeNode_row_of_succeeded succeed before
    have success : whole.failure = none := congrArg Run.failure written
    refine ⟨r.items?_node, iff_of_true success succeed, fun _ => ?_, fun g failed => ?_,
      Writer.ends_write .., print_row s r⟩
    · exact congrArg (fun r => r.buffer.text) written
    · cases success.symm.trans failed
  · have written : whole = _ := writeNode_row_of_failed split succeed fails before
    have failure : whole.failure = some f := congrArg Run.failure written
    have member : n ∈ r.items := split ▸ List.mem_append_right done (List.mem_cons_self ..)
    refine ⟨r.items?_node, iff_of_false (fun success => ?_) fun free => ?_, fun success => ?_,
      fun g failed => ?_, Writer.ends_write .., print_row s r⟩
    · cases success.symm.trans failure
    · cases (free n member).symm.trans fails
    · cases success.symm.trans failure
    · obtain rfl : f = g := Option.some.inj (failure.symm.trans failed)
      exact ⟨done, n, rest, split, succeed, fails, congrArg (fun r => r.buffer.text) written⟩

end Rows

end Store

end QueryDoc
