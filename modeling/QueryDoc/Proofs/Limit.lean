import Mathlib.Data.String.Basic
import QueryDoc.Proofs.Steps
import QueryDoc.Proofs.Text

/-!
Buffers with a limit. A limit is looked at only when there is text to add, so a run with a limit
takes the steps of the run without one, up to the first text that does not fit. This does not depend
on the sizes in which the text comes: a writer may hand over a piece of text in parts, and whatever
the parts are, the run is the same if all of its text fits and ends early if not.
-/

namespace QueryDoc

/-- What is to be seen of a run at its end. -/
structure Outcome where
  text : String
  error : Option Error
  entered : Trail

/-- How a run with a limit ends, seen from the run without one. -/
structure Outcome.Limited (limit : Nat) (free cut : Outcome) : Prop where
  within : cut.text.utf8ByteSize ≤ limit
  same : free.text.utf8ByteSize ≤ limit → cut = free
  full : limit < free.text.utf8ByteSize →
    cut.error = some .bufferFull ∧ ∃ rest, free.text = cut.text ++ rest

namespace Outcome.Limited

variable {limit : Nat} {free cut : Outcome} {e : Error}

theorem full_iff (h : Limited limit free cut) (notFull : free.error ≠ some .bufferFull) :
    cut.error = some .bufferFull ↔ limit < free.text.utf8ByteSize := by
  by_cases longer : limit < free.text.utf8ByteSize
  · simp [longer, (h.full longer).1]
  · simp [longer, h.same (Nat.not_lt.mp longer), notFull]

/-- An error of the run without the limit comes up if its text fits. -/
theorem error_iff (h : Limited limit free cut) (failed : free.error = some e)
    (ne : e ≠ .bufferFull) : cut.error = some e ↔ free.text.utf8ByteSize ≤ limit := by
  by_cases longer : limit < free.text.utf8ByteSize
  · simp [(h.full longer).1, Nat.not_le.mpr longer, ne.symm]
  · have le := Nat.not_lt.mp longer
    simp [le, h.same le, failed]

end Outcome.Limited

def Run.outcome (r : Run) (trail : Trail) : Outcome :=
  ⟨r.buffer.text, r.failure.map Failure.error, r.trail trail⟩

/-- The text of a piece that is no object. -/
def Piece.plain? {Ref : Type} : Piece Ref → Option String
  | .text t => some t
  | .lineBreak level => some (Buffer.lineBreak level)
  | .object _ => none

namespace Buffer

variable {b b' : Buffer} {t u : String}

def unlimited (b : Buffer) : Buffer := { b with limit := none }

/-- Whether the text is within the limit. -/
def Fits (b : Buffer) : Prop := b.hasRoom 0 = true

theorem utf8ByteSize_blanks (n : Nat) :
    (String.ofList (List.replicate n ' ')).utf8ByteSize = n := by
  rw [String.utf8ByteSize_ofList]
  induction n with
  | zero => rfl
  | succ n ih => simpa [List.replicate_succ, ih] using (by decide : Char.utf8Size ' ' = 1)

theorem utf8ByteSize_lineBreak (level : Nat) :
    (lineBreak level).utf8ByteSize = 1 + 2 * level := by
  rw [lineBreak, String.utf8ByteSize_append, utf8ByteSize_blanks]
  rfl

theorem addLineBreak_eq_add (b : Buffer) (level : Nat) :
    b.addLineBreak? level = b.add? (lineBreak level) := by
  rw [addLineBreak?, add?, utf8ByteSize_lineBreak]

theorem hasRoom_iff {limit size : Nat} (limited : b.limit = some limit) :
    b.hasRoom size = true ↔ b.text.utf8ByteSize + size ≤ limit := by
  simp [hasRoom, limited]

theorem add_eq_some_iff :
    b.add? t = some b' ↔
      b.hasRoom t.utf8ByteSize = true ∧ { b with text := b.text ++ t } = b' := by
  simp [add?]

theorem size_of_add (h : b.add? t = some b') :
    b'.text.utf8ByteSize = b.text.utf8ByteSize + t.utf8ByteSize := by
  obtain ⟨-, rfl⟩ := add_eq_some_iff.mp h
  exact String.utf8ByteSize_append

theorem add_eq_none_iff : b.add? t = none ↔ b.hasRoom t.utf8ByteSize = false := by
  simp [add?]

/-- Text is taken in one go exactly if it is taken in two. -/
theorem add_append (b : Buffer) (t u : String) :
    b.add? (t ++ u) = (b.add? t).bind (·.add? u) := by
  obtain ⟨text, _ | limit⟩ := b
  · simp [add?, hasRoom, String.append_assoc]
  · by_cases room : text.utf8ByteSize + t.utf8ByteSize ≤ limit
    · simp [add?, hasRoom, room, String.utf8ByteSize_append, String.append_assoc, Nat.add_assoc]
    · have none : ¬ text.utf8ByteSize + (t.utf8ByteSize + u.utf8ByteSize) ≤ limit := by omega
      simp [add?, hasRoom, room, none, String.utf8ByteSize_append]

theorem add_empty (fits : b.Fits) : b.add? "" = some b := by
  simpa [add_eq_some_iff, Fits] using fits

theorem Fits.add (h : b.add? t = some b') : b'.Fits := by
  obtain ⟨room, rfl⟩ := add_eq_some_iff.mp h
  simpa [Fits, hasRoom, String.utf8ByteSize_append] using room

end Buffer

namespace Writer

def unlimited (w : Writer) : Writer := { w with buffer := w.buffer.unlimited }

def outcome (w : Writer) (e : Option Error) : Outcome := ⟨w.buffer.text, e, w.entered⟩

def textTasks (parts : List String) : List Task := parts.map fun t => .piece (.text t)

/-- A step of a run in which a piece may be replaced by parts of its text. -/
inductive PartStep (s : Store) : Writer → Writer → Prop
  | turn {w w'} : w.step s = .go w' → PartStep s w w'
  | divide {p parts tasks entered b} : p.plain? = some (String.join parts) →
      PartStep s ⟨.piece p :: tasks, entered, b⟩ ⟨textTasks parts ++ tasks, entered, b⟩

def PartSteps (s : Store) : Writer → Writer → Prop := Relation.ReflTransGen (PartStep s)

def EndsInParts (s : Store) (w w' : Writer) (e : Option Error) : Prop :=
  PartSteps s w w' ∧ w'.step s = .stop e

variable {s : Store} {w w' v : Writer} {p : Piece ObjectId} {t : String} {parts : List String}
  {tasks : List Task} {entered : Trail} {b b' : Buffer} {e e' : Option Error}

theorem step_plain (h : p.plain? = some t) :
    step s ⟨.piece p :: tasks, entered, b⟩ =
      match b.add? t with
      | some b' => .go ⟨tasks, entered, b'⟩
      | none => .stop (some .bufferFull) := by
  cases p with
  | text t' =>
      cases h
      rfl
  | lineBreak level =>
      cases h
      cases added : b.add? (Buffer.lineBreak level) <;>
        simp [step, Buffer.addLineBreak_eq_add, added]
  | object o => cases h

/-- What is to be done next: the text of a piece, or something that leaves the buffer as it is, on
which the limit has no influence. -/
inductive StepCase (s : Store) (w : Writer) : Prop
  | plain (p : Piece ObjectId) (t : String) (tasks : List Task) (entered : Trail) (b : Buffer) :
      p.plain? = some t → w = ⟨.piece p :: tasks, entered, b⟩ → StepCase s w
  | goes (w' : Writer) : w.step s = .go w' → w'.buffer = w.buffer →
      w.unlimited.step s = .go w'.unlimited → StepCase s w
  | stops (e : Option Error) : w.step s = .stop e → w.unlimited.step s = .stop e → StepCase s w

theorem stepCase (s : Store) (w : Writer) : StepCase s w := by
  obtain ⟨_ | ⟨task, tasks⟩, entered, b⟩ := w
  · exact .stops none rfl rfl
  · cases task with
    | leave o => exact .goes _ rfl rfl rfl
    | piece p =>
        cases p with
        | text _ | lineBreak _ => exact .plain _ _ tasks entered b rfl rfl
        | object o =>
            by_cases met : o ∈ entered
            · exact .stops (some (s.cycleAt o).error) (by simp [step, met])
                (by simp [unlimited, step, met])
            · exact .goes ⟨(s.objectLayout o).map .piece ++ .leave o :: tasks, o :: entered, b⟩
                (by simp [step, met]) rfl (by simp [unlimited, step, met])

theorem step_plain_unlimited (h : p.plain? = some t) :
    step s (unlimited ⟨.piece p :: tasks, entered, b⟩) =
      .go ⟨tasks, entered, { b.unlimited with text := b.text ++ t }⟩ := by
  rw [unlimited, step_plain h, Buffer.add_eq rfl]
  rfl

/-- A step leaves the buffer alone or adds some text, and it is taken without the limit too. -/
structure Mirrored (s : Store) (w w' : Writer) : Prop where
  unlimited : w.unlimited.step s = .go w'.unlimited
  added : w'.buffer = w.buffer ∨ ∃ t, w.buffer.add? t = some w'.buffer

theorem mirrored_of_go (h : w.step s = .go w') : Mirrored s w w' := by
  cases stepCase s w with
  | plain p t tasks entered b plain same =>
      subst same
      rw [step_plain plain] at h
      cases added : b.add? t with
      | none => simp [added] at h
      | some b' =>
          simp only [added, Turn.go.injEq] at h
          subst h
          obtain ⟨-, rfl⟩ := Buffer.add_eq_some_iff.mp added
          exact ⟨step_plain_unlimited plain, .inr ⟨t, added⟩⟩
  | goes next first same free =>
      cases Turn.go.inj (h.symm.trans first)
      exact ⟨free, .inl same⟩
  | stops e last _ => cases h.symm.trans last

/-- A run stops where it does without the limit, or at a text for which there is no room. -/
theorem stop_cases (h : w.step s = .stop e) :
    w.unlimited.step s = .stop e ∨
      e = some .bufferFull ∧ ∃ t next, w.buffer.add? t = none ∧
        w.unlimited.step s = .go next ∧ next.buffer.text = w.buffer.text ++ t := by
  cases stepCase s w with
  | plain p t tasks entered b plain same =>
      subst same
      rw [step_plain plain] at h
      cases refused : b.add? t with
      | none =>
          simp only [refused, Turn.stop.injEq] at h
          exact .inr ⟨h.symm, t, _, refused, step_plain_unlimited plain, rfl⟩
      | some b' => simp [refused] at h
  | goes next first _ _ => cases h.symm.trans first
  | stops e' last free =>
      cases Turn.stop.inj (h.symm.trans last)
      exact .inl free

theorem Ends.of_step (h : Ends s w v e) (first : w.step s = .go w') : Ends s w' v e := by
  obtain ⟨steps, last⟩ := h
  rcases Relation.ReflTransGen.cases_head steps with rfl | ⟨u, first', rest⟩
  · cases first.symm.trans last
  · cases Turn.go.inj (first.symm.trans first')
    exact ⟨rest, last⟩

/-- Parts that fit together are taken one after the other. -/
theorem steps_textTasks (fits : b.Fits) (h : b.add? (String.join parts) = some b') :
    Steps s ⟨textTasks parts ++ tasks, entered, b⟩ ⟨tasks, entered, b'⟩ := by
  induction parts generalizing b with
  | nil =>
      rw [String.join_nil, Buffer.add_empty fits, Option.some.injEq] at h
      subst h
      exact .refl
  | cons t parts ih =>
      rw [String.join_cons, Buffer.add_append, Option.bind_eq_some_iff] at h
      obtain ⟨b₁, added, rest⟩ := h
      refine .head ?_ (ih (.add added) rest)
      simp [textTasks, Writer.step, added]

/-- Of parts that do not fit together, one is refused. -/
theorem ends_textTasks (fits : b.Fits) (h : b.add? (String.join parts) = none) :
    ∃ v, Ends s ⟨textTasks parts ++ tasks, entered, b⟩ v (some .bufferFull) := by
  induction parts generalizing b with
  | nil => simp [String.join_nil, Buffer.add_empty fits] at h
  | cons t parts ih =>
      rw [String.join_cons, Buffer.add_append] at h
      cases added : b.add? t with
      | none =>
          refine ⟨_, .refl, ?_⟩
          simp [textTasks, step, added]
      | some b₁ =>
          rw [added] at h
          obtain ⟨v, ends⟩ := ih (.add added) h
          have first : step s ⟨textTasks (t :: parts) ++ tasks, entered, b⟩ =
              .go ⟨textTasks parts ++ tasks, entered, b₁⟩ := by
            simp [textTasks, step, added]
          exact ⟨v, .head first ends.1, ends.2⟩

/-- The limit stays, and text is never taken beyond it. -/
theorem PartStep.fits (h : PartStep s w w') (fits : w.buffer.Fits) :
    w'.buffer.Fits ∧ w'.buffer.limit = w.buffer.limit := by
  cases h with
  | divide _ => exact ⟨fits, rfl⟩
  | turn first =>
      rcases (mirrored_of_go first).added with same | ⟨t, added⟩
      · rw [same]
        exact ⟨fits, rfl⟩
      · exact ⟨.add added, Buffer.limit_of_add added⟩

theorem PartSteps.fits (h : PartSteps s w w') (fits : w.buffer.Fits) :
    w'.buffer.Fits ∧ w'.buffer.limit = w.buffer.limit := by
  induction h with
  | refl => exact ⟨fits, rfl⟩
  | tail _ last ih =>
      obtain ⟨fits', same⟩ := last.fits ih.1
      exact ⟨fits', same.trans ih.2⟩

/-- Without the limit, a run has one end however its pieces are divided. -/
theorem PartStep.ends_unlimited (h : PartStep s w w') (free : Ends s w.unlimited v e) :
    Ends s w'.unlimited v e := by
  cases h with
  | turn first => exact free.of_step (mirrored_of_go first).unlimited
  | @divide p parts tasks entered b plain =>
      have added : b.unlimited.add? (String.join parts) =
          some { b.unlimited with text := b.text ++ String.join parts } := Buffer.add_eq rfl _
      have fits : b.unlimited.Fits := rfl
      exact (steps_textTasks fits added).ends (free.of_step (step_plain_unlimited plain))

theorem PartSteps.ends_unlimited (h : PartSteps s w w') (free : Ends s w.unlimited v e) :
    Ends s w'.unlimited v e := by
  induction h with
  | refl => exact free
  | tail _ last ih => exact last.ends_unlimited ih

/-- A run that comes to an end still does so when a piece is divided. -/
theorem PartStep.ends (h : PartStep s w w') (fits : w.buffer.Fits)
    (ends : ∃ v e, Ends s w v e) : ∃ v e, Ends s w' v e := by
  obtain ⟨v, e, ends⟩ := ends
  cases h with
  | turn first => exact ⟨v, e, ends.of_step first⟩
  | @divide p parts tasks entered b plain =>
      cases added : b.add? (String.join parts) with
      | none =>
          obtain ⟨v, refused⟩ := ends_textTasks (s := s) fits added
          exact ⟨v, _, refused⟩
      | some b' =>
          have whole : step s ⟨.piece p :: tasks, entered, b⟩ = .go ⟨tasks, entered, b'⟩ := by
            rw [step_plain plain, added]
          exact ⟨v, e, (steps_textTasks fits added).ends (ends.of_step whole)⟩

theorem PartSteps.ends (h : PartSteps s w w') (fits : w.buffer.Fits)
    (ends : ∃ v e, Ends s w v e) : ∃ v e, Ends s w' v e := by
  induction h with
  | refl => exact ends
  | tail before last ih => exact last.ends (PartSteps.fits before fits).1 ih

/-- Text is never taken back. -/
theorem Steps.text_grows (h : Steps s w w') :
    ∃ rest, w'.buffer.text = w.buffer.text ++ rest := by
  induction h with
  | refl => exact ⟨"", String.append_empty.symm⟩
  | tail _ last ih =>
      obtain ⟨rest, grown⟩ := ih
      rcases (mirrored_of_go last).added with same | ⟨t, added⟩
      · exact ⟨rest, by rw [same, grown]⟩
      · obtain ⟨-, text⟩ := Buffer.add_eq_some_iff.mp added
        exact ⟨rest ++ t, by rw [← text, grown, String.append_assoc]⟩

theorem Ends.inParts (h : Ends s w w' e) : EndsInParts s w w' e :=
  ⟨Relation.ReflTransGen.mono (fun _ _ => .turn) _ _ h.1, h.2⟩

/-- The recursive run and the writer that takes the same steps show the same at their end. -/
theorem ends_outcome (s : Store) (trail : Trail) (layout : Layout ObjectId) (b : Buffer) :
    ∃ w, Ends s (start layout trail b) w ((s.write trail layout b).failure.map Failure.error) ∧
      w.outcome ((s.write trail layout b).failure.map Failure.error) =
        (s.write trail layout b).outcome trail := by
  obtain ⟨w, ends, buffer, entered⟩ := ends_write s trail layout b
  refine ⟨w, ends, ?_⟩
  rw [outcome, Run.outcome, buffer, entered]

/-- A run with a limit, whose pieces may be divided, beside the run without the limit. -/
theorem EndsInParts.limited {limit : Nat} (h : EndsInParts s w w' e')
    (free : Ends s w.unlimited v e) (fits : w.buffer.Fits) (limited : w.buffer.limit = some limit) :
    Outcome.Limited limit (v.outcome e) (w'.outcome e') := by
  obtain ⟨steps, last⟩ := h
  obtain ⟨fits', same⟩ := PartSteps.fits steps fits
  have limited' : w'.buffer.limit = some limit := same.trans limited
  have within : w'.buffer.text.utf8ByteSize ≤ limit := (Buffer.hasRoom_iff limited').mp fits'
  have free' := PartSteps.ends_unlimited steps free
  rcases stop_cases last with stops | ⟨rfl, t, next, refused, first, text⟩
  · obtain ⟨rfl, rfl⟩ := free'.unique ⟨.refl, stops⟩
    exact ⟨within, fun _ => rfl, fun longer => absurd within (Nat.not_le.mpr longer)⟩
  · -- Without the limit the refused text is taken, and is then part of all that follows.
    obtain ⟨rest, grown⟩ := Steps.text_grows (free'.of_step first).1
    have all : v.buffer.text = w'.buffer.text ++ (t ++ rest) := by
      rw [grown, text, String.append_assoc]
    have longer : limit < v.buffer.text.utf8ByteSize := by
      have noRoom : ¬ w'.buffer.text.utf8ByteSize + t.utf8ByteSize ≤ limit := by
        rw [← Buffer.hasRoom_iff limited', Buffer.add_eq_none_iff.mp refused]
        exact Bool.false_ne_true
      rw [all, String.utf8ByteSize_append, String.utf8ByteSize_append]
      omega
    exact ⟨within, fun le => absurd longer (Nat.not_lt.mpr le), fun _ => ⟨rfl, t ++ rest, all⟩⟩

end Writer

namespace Store

theorem writeNode_error_kind {s : Store} {n : Node (Value ObjectId)} {level : Nat} {trail : Trail}
    {e : Error} (failed : ((s.writeNode trail level n {}).outcome trail).error = some e) :
    e.kind = .cyclicReference := by
  obtain ⟨f, hf, rfl⟩ := Option.map_eq_some_iff.mp failed
  exact visitAll_error ((writeNode_failure s trail level n "").symm.trans hf)

/-- A limit of so many bytes makes no difference to writing a node if the text without it is not
longer, be this all of the node's text or what is written before a cyclic reference is met.
Otherwise the run fails as the buffer is full, with a part from the beginning of that text written.
The same holds, however the pieces of text are divided, of a run that hands them over in parts; and
any such run comes to an end. -/
theorem limit_only_cuts_runs_short (s : Store) (n : Node (Value ObjectId)) (level : Nat)
    (trail : Trail) (limit : Nat) :
    let start (b : Buffer) := Writer.start (Layout.ofNode Layout.ofValue level n) trail b
    let free := (s.writeNode trail level n {}).outcome trail
    let cut := (s.writeNode trail level n { limit := some limit }).outcome trail
    Outcome.Limited limit free cut ∧
    (cut.error = some .bufferFull ↔ limit < free.text.utf8ByteSize) ∧
    (∀ e, free.error = some e →
      (cut.error = some e ↔ free.text.utf8ByteSize ≤ limit) ∧ e.kind = .cyclicReference) ∧
    Error.bufferFull.kind = .format ∧ Error.bufferFull.context = none ∧
    (∀ w, Writer.PartSteps s (start { limit := some limit }) w → ∃ w' e, Writer.Ends s w w' e) ∧
    ∀ w e, Writer.EndsInParts s (start { limit := some limit }) w e →
      Outcome.Limited limit free (w.outcome e) := by
  intro start free cut
  obtain ⟨v, freeEnds, freeOutcome⟩ :=
    Writer.ends_outcome s trail (Layout.ofNode Layout.ofValue level n) {}
  obtain ⟨w, cutEnds, cutOutcome⟩ :=
    Writer.ends_outcome s trail (Layout.ofNode Layout.ofValue level n) { limit := some limit }
  have fits : Buffer.Fits { limit := some limit } := by simp [Buffer.Fits, Buffer.hasRoom]
  have limited (w : Writer) (e : Option Error)
      (ends : Writer.EndsInParts s (start { limit := some limit }) w e) :
      Outcome.Limited limit free (w.outcome e) := by
    have h := ends.limited freeEnds fits rfl
    rwa [freeOutcome] at h
  have whole : Outcome.Limited limit free cut := by
    have h := limited w _ cutEnds.inParts
    rwa [cutOutcome] at h
  have notFull : free.error ≠ some .bufferFull := by
    intro h
    cases writeNode_error_kind h
  refine ⟨whole, whole.full_iff notFull, ?_, rfl, rfl, ?_, limited⟩
  · intro e failed
    exact ⟨whole.error_iff failed fun same => notFull (same ▸ failed), writeNode_error_kind failed⟩
  · intro w steps
    exact steps.ends fits ⟨_, _, cutEnds⟩

/-- A list of ten bytes, as `é` takes two of them. -/
example :
    empty.writeNode [] 0 (.value (.list [.int "10", .string "é"])) { limit := some 9 } =
      { buffer := { text := "[10, \"é\"", limit := some 9 },
        failure := some { error := .bufferFull } } := by
  cbv

end Store

end QueryDoc
