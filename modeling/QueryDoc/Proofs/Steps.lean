import QueryDoc.Proofs.Writing

/-!
Writing step by step. A writer has one set of entered objects for the whole run: an object is
entered when it is met and left when its fields are written, and a run that fails leaves the set as
it is then. Every run comes to an end, and its end is that of the recursive definition, which has a
trail of its own for every place. The main statement adds when the run succeeds.
-/

namespace QueryDoc

inductive Task where
  | piece (p : Piece ObjectId)
  | leave (o : ObjectId)

structure Writer where
  /-- What is left to be done. -/
  tasks : List Task
  /-- The objects that are entered and not left. -/
  entered : Trail
  buffer : Buffer

inductive Turn where
  | go (w : Writer)
  | stop (error : Option Error)

namespace Writer

variable {s : Store} {w w' : Writer}

def start (layout : Layout ObjectId) (entered : Trail) (buffer : Buffer) : Writer :=
  ⟨layout.map .piece, entered, buffer⟩

def step (s : Store) : Writer → Turn
  | ⟨[], _, _⟩ => .stop none
  | ⟨.piece (.text t) :: tasks, entered, b⟩ =>
    match b.add? t with
    | some b => .go ⟨tasks, entered, b⟩
    | none => .stop (some .bufferFull)
  | ⟨.piece (.lineBreak level) :: tasks, entered, b⟩ =>
    match b.addLineBreak? level with
    | some b => .go ⟨tasks, entered, b⟩
    | none => .stop (some .bufferFull)
  | ⟨.piece (.object o) :: tasks, entered, b⟩ =>
    if o ∈ entered then .stop (some (s.cycleAt o).error)
    else .go ⟨(s.objectLayout o).map .piece ++ .leave o :: tasks, o :: entered, b⟩
  | ⟨.leave o :: tasks, entered, b⟩ => .go ⟨tasks, entered.erase o, b⟩

def Steps (s : Store) : Writer → Writer → Prop :=
  Relation.ReflTransGen fun w w' => w.step s = .go w'

/-- The run from one writer comes to an end at another one, with or without an error. -/
def Ends (s : Store) (w w' : Writer) (error : Option Error) : Prop :=
  Steps s w w' ∧ w'.step s = .stop error

/-- A run has one end only. -/
theorem Ends.unique {v v' : Writer} {e e' : Option Error} (h : Ends s w v e) (h' : Ends s w v' e') :
    v = v' ∧ e = e' := by
  obtain ⟨steps, last⟩ := h
  obtain ⟨steps', last'⟩ := h'
  induction steps using Relation.ReflTransGen.head_induction_on with
  | refl =>
      rcases Relation.ReflTransGen.cases_head steps' with rfl | ⟨u, first, -⟩
      · exact ⟨rfl, Turn.stop.inj (last.symm.trans last')⟩
      · cases last.symm.trans first
  | head first _ ih =>
      rcases Relation.ReflTransGen.cases_head steps' with rfl | ⟨u, first', rest⟩
      · cases first.symm.trans last'
      · cases Turn.go.inj (first.symm.trans first')
        exact ih rest

theorem Steps.ends {e : Option Error} (first : Steps s w w') {v : Writer} (h : Ends s w' v e) :
    Ends s w v e :=
  ⟨first.trans h.1, h.2⟩

/-- What a recursive run says about the writer that has the same layout in front of other tasks. -/
def Follows (s : Store) (trail : Trail) (layout : Layout ObjectId) (b : Buffer) (r : Run) : Prop :=
  ∀ tasks : List Task,
    match r.failure with
    | none => Steps s ⟨layout.map .piece ++ tasks, trail, b⟩ ⟨tasks, trail, r.buffer⟩
    | some f => ∃ w, Ends s ⟨layout.map .piece ++ tasks, trail, b⟩ w (some f.error) ∧
        w.buffer = r.buffer ∧ w.entered = f.entered ++ trail

theorem Follows.head {trail : Trail} {layout layout' : Layout ObjectId} {b b' : Buffer}
    {r : Run} (first : ∀ tasks, Steps s ⟨layout.map .piece ++ tasks, trail, b⟩
      ⟨layout'.map .piece ++ tasks, trail, b'⟩)
    (h : Follows s trail layout' b' r) : Follows s trail layout b r := by
  intro tasks
  have rest := h tasks
  cases e : r.failure with
  | none =>
      simp only [e] at rest ⊢
      exact (first tasks).trans rest
  | some f =>
      simp only [e] at rest ⊢
      obtain ⟨w, ends, same⟩ := rest
      exact ⟨w, (first tasks).ends ends, same⟩

theorem follows_write (s : Store) (trail : Trail) (layout : Layout ObjectId) (b : Buffer) :
    Follows s trail layout b (s.write trail layout b) := by
  induction trail, layout, b using Store.write_induct (s := s) with
  | done trail b => exact fun tasks => .refl
  | text trail t rest b b' added ih =>
      refine ih.head fun tasks => .single ?_
      simp [step, added]
  | lineBreak trail level rest b b' added ih =>
      refine ih.head fun tasks => .single ?_
      simp [step, added]
  | textRefused trail t rest b refused =>
      intro tasks
      exact ⟨_, ⟨.refl, by simp [step, refused]⟩, rfl, rfl⟩
  | lineBreakRefused trail level rest b refused =>
      intro tasks
      exact ⟨_, ⟨.refl, by simp [step, refused]⟩, rfl, rfl⟩
  | met trail o rest b h =>
      intro tasks
      exact ⟨_, ⟨.refl, by simp [step, h]⟩, rfl, rfl⟩
  | object trail o rest b b' h written ih ihrest =>
      refine ihrest.head fun tasks => ?_
      have enter : Steps s ⟨(.object o :: rest).map .piece ++ tasks, trail, b⟩
          ⟨(s.objectLayout o).map .piece ++ .leave o :: (rest.map .piece ++ tasks),
            o :: trail, b⟩ :=
        .single (by simp [step, h])
      have leave : Steps s ⟨.leave o :: (rest.map .piece ++ tasks), o :: trail, b'⟩
          ⟨rest.map .piece ++ tasks, trail, b'⟩ :=
        .single (by simp [step])
      exact (enter.trans (ih _)).trans leave
  | inside trail o rest b b' f h ih =>
      intro tasks
      have enter : Steps s ⟨(.object o :: rest).map .piece ++ tasks, trail, b⟩
          ⟨(s.objectLayout o).map .piece ++ .leave o :: (rest.map .piece ++ tasks),
            o :: trail, b⟩ :=
        .single (by simp [step, h])
      obtain ⟨w, ends, buffer, entered⟩ := ih (.leave o :: (rest.map .piece ++ tasks))
      refine ⟨w, enter.ends ends, buffer, ?_⟩
      rw [entered, Failure.inside, List.append_assoc]
      rfl

/-- The run of a writer ends as the recursive run does: with its error, its buffer and its trail. -/
theorem ends_write (s : Store) (trail : Trail) (layout : Layout ObjectId) (b : Buffer) :
    ∃ w, Ends s (start layout trail b) w ((s.write trail layout b).failure.map Failure.error) ∧
      w.buffer = (s.write trail layout b).buffer ∧
      w.entered = (s.write trail layout b).trail trail := by
  have h := follows_write s trail layout b []
  rw [List.append_nil] at h
  cases e : (s.write trail layout b).failure with
  | none =>
      simp only [e] at h
      exact ⟨_, ⟨h, rfl⟩, rfl, by simp [Run.trail, e]⟩
  | some f =>
      simp only [e] at h
      obtain ⟨w, ends, buffer, entered⟩ := h
      exact ⟨w, ends, buffer, by simpa [Run.trail, e] using entered⟩

end Writer

namespace Store

theorem print_eq (s : Store) (n : Node (Value ObjectId)) :
    s.print n =
      match s.visitAll [] n.refs with
      | none => .ok (s.writeNode [] 0 n {}).buffer.text
      | some f => .error f.error := by
  have failure := writeNode_failure s [] 0 n ""
  rw [print, ← failure]
  generalize s.writeNode [] 0 n {} = r
  obtain ⟨b, _ | f⟩ := r <;> rfl

/-- Writing any node into a buffer without limit comes to an end. It fails exactly if an object on
the trail or an object inside itself can be reached, and then because of a cyclic reference. -/
theorem writing_ends_and_fails_at_cycles_only (s : Store) (n : Node (Value ObjectId)) (level : Nat)
    (trail : Trail) (before : String) :
    let r := s.writeNode trail level n { text := before }
    (∃ w, Writer.Ends s
        (.start (Layout.ofNode Layout.ofValue level n) trail { text := before }) w
        (r.failure.map Failure.error) ∧ w.buffer = r.buffer ∧ w.entered = r.trail trail) ∧
      (r.failure = none ↔ ∀ o, s.NodeReaches n o → o ∉ trail ∧ ¬ s.OnCycle o) ∧
      (∀ f, r.failure = some f → f.error.kind = .cyclicReference) ∧
      ((∃ text, s.print n = .ok text) ↔ ∀ o, s.NodeReaches n o → ¬ s.OnCycle o) ∧
      (∀ e, s.print n = .error e → e.kind = .cyclicReference) := by
  intro r
  have failure : r.failure = s.visitAll trail n.refs := writeNode_failure s trail level n before
  refine ⟨Writer.ends_write .., ?_, ?_, ?_, ?_⟩
  · rw [failure, visitAll_refs_eq_none_iff]
  · intro f hf
    exact visitAll_error (failure.symm.trans hf)
  · have free := visitAll_refs_eq_none_iff s [] n
    simp only [List.not_mem_nil, not_false_eq_true, true_and] at free
    rw [print_eq, ← free]
    cases s.visitAll [] n.refs <;> simp
  · intro e
    rw [print_eq]
    cases h : s.visitAll [] n.refs with
    | none => simp
    | some f =>
        rintro ⟨⟩
        exact visitAll_error h

end Store

end QueryDoc
