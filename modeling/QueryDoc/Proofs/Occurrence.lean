import QueryDoc.Proofs.Steps
import QueryDoc.Proofs.Text

/-!
Where a failing run stops. The places at which objects stand inside a node, also inside other
objects, have positions: the number of an object among those of the node, then the number of an
object among those of that one, and so on. Reading order is the order of these lists, in which an
object comes before what is inside it. An object that contains itself has infinitely many places,
yet if anything is met inside itself or on the trail, there is a first such place. The run has then
written all that stands in front of this place, and has entered the objects around it.
-/

namespace QueryDoc

namespace Layout

variable {Ref : Type}

/-- What stands in front of the object with the given number. -/
def front : Nat → Layout Ref → Layout Ref
  | _, [] => []
  | 0, .object _ :: _ => []
  | i + 1, .object r :: rest => .object r :: front i rest
  | i, .text t :: rest => .text t :: front i rest
  | i, .lineBreak level :: rest => .lineBreak level :: front i rest

end Layout

namespace Store

variable {s : Store} {trail : Trail} {row : List ObjectId} {o p : ObjectId}

/-- At a position inside a row of objects stands an object, with others around it. The innermost
one of those comes first. -/
inductive Occurs (s : Store) : List ObjectId → List Nat → Trail → ObjectId → Prop
  | here {row i o} : row[i]? = some o → Occurs s row [i] [] o
  | inside {row i p position around o} : row[i]? = some p →
      Occurs s (s.objectRefs p) position around o →
      Occurs s row (i :: position) (around ++ [p]) o

/-- The first place inside a row of objects whose object is around that place or on the trail. -/
structure FirstRepeat (s : Store) (trail : Trail) (row : List ObjectId) (position : List Nat)
    (around : Trail) (o : ObjectId) : Prop where
  occurs : s.Occurs row position around o
  repeated : o ∈ around ++ trail
  first : ∀ position' around' o', s.Occurs row position' around' o' → position' < position →
    o' ∉ around' ++ trail

/-- What stands in front of a position: the objects around it are opened, those before are whole. -/
def front (s : Store) (layout : Layout ObjectId) : List Nat → Layout ObjectId
  | [] => []
  | i :: position =>
    layout.front i ++
      match layout.refs[i]? with
      | some o => s.front (s.objectLayout o) position
      | none => []

theorem Occurs.exists_cons {position : List Nat} {around : Trail}
    (h : s.Occurs row position around o) : ∃ i inner, position = i :: inner := by
  cases h with
  | here _ => exact ⟨_, _, rfl⟩
  | inside _ _ => exact ⟨_, _, rfl⟩

theorem occurs_succ_iff {i : Nat} {position : List Nat} {around : Trail} :
    s.Occurs (p :: row) ((i + 1) :: position) around o ↔ s.Occurs row (i :: position) around o := by
  constructor
  · intro h
    cases h with
    | here at_i => exact .here at_i
    | inside at_i h => exact .inside at_i h
  · intro h
    cases h with
    | here at_i => exact .here at_i
    | inside at_i h => exact .inside at_i h

/-- Nothing repeats inside objects that are clear of the trail. -/
theorem Occurs.not_repeated {position : List Nat} {around : Trail}
    (h : s.Occurs row position around o) (clear : ∀ q ∈ row, s.Clear trail q) :
    o ∉ around ++ trail := by
  induction h generalizing trail with
  | here at_i => exact (clear_iff.mp (clear _ (List.mem_of_getElem? at_i))).1
  | @inside row i q position around o at_i _ ih =>
      have below := (clear_iff.mp (clear q (List.mem_of_getElem? at_i))).2
      rw [List.append_assoc]
      exact ih below

theorem FirstRepeat.met (h : o ∈ trail) : s.FirstRepeat trail (o :: row) [0] [] o where
  occurs := .here rfl
  repeated := h
  first := by
    intro position' around' o' occurs before
    obtain ⟨i, inner, rfl⟩ := occurs.exists_cons
    simp [List.cons_lt_cons_iff] at before

theorem FirstRepeat.inside {position : List Nat} {around : Trail} (fresh : o ∉ trail)
    (h : s.FirstRepeat (o :: trail) (s.objectRefs o) position around p) :
    s.FirstRepeat trail (o :: row) (0 :: position) (around ++ [o]) p where
  occurs := .inside rfl h.occurs
  repeated := by
    rw [List.append_assoc]
    exact h.repeated
  first := by
    intro position' around' o' occurs before
    obtain ⟨i, inner, rfl⟩ := occurs.exists_cons
    obtain rfl : i = 0 := by
      simp only [List.cons_lt_cons_iff] at before
      omega
    cases occurs with
    | here at_zero =>
        cases at_zero
        exact fresh
    | inside at_zero occurs =>
        cases at_zero
        rw [List.append_assoc]
        exact h.first _ _ _ occurs (by simpa [List.cons_lt_cons_iff] using before)

/-- A row in which something repeats may have an object in front of it that is clear. -/
theorem FirstRepeat.after {i : Nat} {position : List Nat} {around : Trail}
    (clear : s.Clear trail o) (h : s.FirstRepeat trail row (i :: position) around p) :
    s.FirstRepeat trail (o :: row) ((i + 1) :: position) around p where
  occurs := occurs_succ_iff.mpr h.occurs
  repeated := h.repeated
  first := by
    intro position' around' o' occurs before
    obtain ⟨j, inner, rfl⟩ := occurs.exists_cons
    cases j with
    | zero =>
        -- The row `[o]` has the same places in front, and these are all clear.
        have alone : s.Occurs [o] (0 :: inner) around' o' := by
          cases occurs with
          | here at_zero => exact .here at_zero
          | inside at_zero inside => exact .inside at_zero inside
        exact alone.not_repeated (by simpa using clear)
    | succ j =>
        refine h.first _ _ _ (occurs_succ_iff.mp occurs) ?_
        simpa [List.cons_lt_cons_iff] using before

theorem front_text (s : Store) (t : String) (layout : Layout ObjectId) {position : List Nat}
    (ne : position ≠ []) :
    s.front (.text t :: layout) position = .text t :: s.front layout position := by
  cases position with
  | nil => exact absurd rfl ne
  | cons i position => cases i <;> rfl

theorem front_lineBreak (s : Store) (level : Nat) (layout : Layout ObjectId) {position : List Nat}
    (ne : position ≠ []) :
    s.front (.lineBreak level :: layout) position =
      .lineBreak level :: s.front layout position := by
  cases position with
  | nil => exact absurd rfl ne
  | cons i position => cases i <;> rfl

theorem front_after (s : Store) (o : ObjectId) (layout : Layout ObjectId) (i : Nat)
    (position : List Nat) :
    s.front (.object o :: layout) ((i + 1) :: position) =
      .object o :: s.front layout (i :: position) :=
  rfl

/-- A run stops at a place: it tells of the object there and of those around it, and it has written
what stands in front. -/
structure StopsAt (s : Store) (trail : Trail) (layout : Layout ObjectId) (b : Buffer) (r : Run)
    (position : List Nat) (around : Trail) (o : ObjectId) : Prop where
  place : s.FirstRepeat trail layout.refs position around o
  failure : r.failure = some { s.cycleAt o with entered := around }
  text : r.buffer.text = b.text ++ (s.front layout position).text s.objectText
  whole : ∀ p ∈ (s.front layout position).refs, s.Clear [] p

theorem StopsAt.exists_cons {layout : Layout ObjectId} {b : Buffer} {r : Run}
    {position : List Nat} {around : Trail} (h : s.StopsAt trail layout b r position around o) :
    ∃ i inner, position = i :: inner :=
  h.place.occurs.exists_cons

theorem write_object {b : Buffer} (unlimited : b.limit = none) (clear : s.Clear trail o) :
    s.write (o :: trail) (s.objectLayout o) b =
      { buffer := { b with text := b.text ++ s.objectText o } } := by
  rw [write_text s (o :: trail) _ b unlimited (clear_objectLayout clear), ← objectText_eq clear]

/-- An object whose fields are written to the end is clear. -/
theorem clear_of_written {b b' : Buffer} (unlimited : b.limit = none) (fresh : o ∉ trail)
    (written : s.write (o :: trail) (s.objectLayout o) b = { buffer := b' }) : s.Clear trail o := by
  have free := write_failure s (o :: trail) (s.objectLayout o) b unlimited
  rw [written, refs_objectLayout] at free
  exact clear_iff.mpr ⟨fresh, visitAll_eq_none_iff_clear.mp free.symm⟩

theorem write_stops (s : Store) (trail : Trail) (layout : Layout ObjectId) (b : Buffer)
    (unlimited : b.limit = none) (failed : (s.write trail layout b).failure ≠ none) :
    ∃ position around o,
      s.StopsAt trail layout b (s.write trail layout b) position around o := by
  revert unlimited failed
  induction trail, layout, b using write_induct (s := s) with
  | done trail b => exact fun _ failed => absurd rfl failed
  | textRefused trail t rest b refused =>
      intro unlimited _
      cases refused.symm.trans (Buffer.add_eq unlimited t)
  | lineBreakRefused trail level rest b refused =>
      intro unlimited _
      cases refused.symm.trans (Buffer.addLineBreak_eq unlimited level)
  | text trail t rest b b' added ih =>
      intro unlimited failed
      rw [Buffer.add_eq unlimited, Option.some.injEq] at added
      subst added
      obtain ⟨position, around, o, stops⟩ := ih unlimited failed
      obtain ⟨i, inner, rfl⟩ := stops.exists_cons
      have front := front_text s t rest (List.cons_ne_nil i inner)
      refine ⟨i :: inner, around, o, stops.place, stops.failure, ?_, ?_⟩
      · rw [stops.text, front, Layout.text, String.append_assoc]
      · rw [front]
        exact stops.whole
  | lineBreak trail level rest b b' added ih =>
      intro unlimited failed
      rw [Buffer.addLineBreak_eq unlimited, Option.some.injEq] at added
      subst added
      obtain ⟨position, around, o, stops⟩ := ih unlimited failed
      obtain ⟨i, inner, rfl⟩ := stops.exists_cons
      have front := front_lineBreak s level rest (List.cons_ne_nil i inner)
      refine ⟨i :: inner, around, o, stops.place, stops.failure, ?_, ?_⟩
      · rw [stops.text, front, Layout.text, String.append_assoc]
      · rw [front]
        exact stops.whole
  | met trail o rest b entered =>
      intro _ _
      exact ⟨[0], [], o, .met entered, rfl, String.append_empty.symm,
        fun _ none => absurd none List.not_mem_nil⟩
  | object trail o rest b b' fresh written ih ihrest =>
      intro unlimited failed
      have clear := clear_of_written unlimited fresh written
      rw [write_object unlimited clear, Run.mk.injEq] at written
      obtain ⟨rfl, -⟩ := written
      obtain ⟨position, around, p, stops⟩ := ihrest unlimited failed
      obtain ⟨i, inner, rfl⟩ := stops.exists_cons
      refine ⟨(i + 1) :: inner, around, p, .after clear stops.place, stops.failure, ?_, ?_⟩
      · rw [stops.text, front_after, Layout.text, String.append_assoc]
      · rw [front_after, Layout.refs_object, List.forall_mem_cons]
        exact ⟨clear.mono (List.nil_subset trail), stops.whole⟩
  | inside trail o rest b b' f fresh ih =>
      intro unlimited _
      obtain ⟨position, around, p, stops⟩ := ih unlimited (Option.some_ne_none _)
      have place := stops.place
      rw [refs_objectLayout] at place
      obtain rfl := Option.some.inj stops.failure
      exact ⟨0 :: position, around ++ [o], p, .inside fresh place, rfl, stops.text, stops.whole⟩

/-- A run without a limit fails exactly if some object of the node is met inside itself or on the
trail. It stops at the first such place in reading order: the error names the fields of the object
there, the text is that of all that stands in front, with every object before written as it is
written alone, and the objects around the place are added to the trail. -/
theorem failing_run_stops_at_first_repeat (s : Store) (n : Node (Value ObjectId)) (level : Nat)
    (trail : Trail) (before : String) :
    let layout := Layout.ofNode Layout.ofValue level n
    let r := s.writeNode trail level n { text := before }
    (r.failure = none ↔
      ∀ position around o, s.Occurs n.refs position around o → o ∉ around ++ trail) ∧
    ∀ f, r.failure = some f → ∃ position around o,
      s.FirstRepeat trail n.refs position around o ∧
      f.error.kind = .cyclicReference ∧
      f.error.context =
        some ("input object \x7b" ++ ", ".intercalate (Entry.names (s.fields o)) ++ "\x7d") ∧
      f.error = .cyclicReference (Entry.names (s.fields o)) ∧
      r.buffer.text = before ++ (s.front layout position).text s.objectText ∧
      (∀ p ∈ (s.front layout position).refs,
        s.print (.value (.object p)) = .ok (s.objectText p)) ∧
      r.trail trail = around ++ trail ∧
      ∃ w, Writer.Ends s (.start layout trail { text := before }) w (some f.error) ∧
        w.buffer = r.buffer ∧ w.entered = around ++ trail := by
  intro layout r
  have refs : layout.refs = n.refs := refs_ofNode_ofValue n level
  have failure : r.failure = s.visitAll trail n.refs := writeNode_failure s trail level n before
  have stops (failed : r.failure ≠ none) : ∃ position around o,
      s.StopsAt trail layout { text := before } r position around o :=
    write_stops s trail layout { text := before } rfl failed
  refine ⟨⟨?_, ?_⟩, ?_⟩
  · intro ok position around o occurs
    rw [failure, visitAll_eq_none_iff_clear] at ok
    exact occurs.not_repeated ok
  · intro free
    by_contra failed
    obtain ⟨position, around, o, stops⟩ := stops failed
    exact free position around o (refs ▸ stops.place.occurs) stops.place.repeated
  · intro f failed
    obtain ⟨position, around, o, stops⟩ := stops (by rw [failed]; exact nofun)
    obtain rfl := Option.some.inj (failed.symm.trans stops.failure)
    have left : r.trail trail = around ++ trail := by rw [Run.trail, failed]
    refine ⟨position, around, o, refs ▸ stops.place, rfl, rfl, rfl, stops.text, ?_, left, ?_⟩
    · intro p hp
      have clear := stops.whole p hp
      rw [print_text (by simpa [Node.refs, Node.values, Value.refs] using clear)]
      exact congrArg Except.ok String.append_empty
    · obtain ⟨w, ends, buffer, entered⟩ := Writer.ends_write s trail layout { text := before }
      refine ⟨w, ?_, buffer, entered.trans left⟩
      rwa [show (s.write trail layout { text := before }).failure = r.failure from rfl,
        failed] at ends

/-- An object with a scalar field, and one that contains itself after two places of the first. -/
def loopStore : Store :=
  ⟨#[[⟨"a", .int "1"⟩], [⟨"x", .object ⟨0⟩⟩, ⟨"y", .list [.object ⟨0⟩, .object ⟨2⟩]⟩],
    [⟨"back", .object ⟨1⟩⟩]]⟩

/-- A list of the first two fails at `[1, 2, 0]`, and this is what stands in front. -/
example :
    loopStore.visitAll [⟨7⟩] [⟨0⟩, ⟨1⟩] =
      some { error := .cyclicReference ["x", "y"], entered := [⟨2⟩, ⟨1⟩] } ∧
    (loopStore.front (.ofValue (.objects [⟨0⟩, ⟨1⟩])) [1, 2, 0]).text loopStore.objectText =
      "[\x7ba: 1\x7d, \x7bx: \x7ba: 1\x7d, y: [\x7ba: 1\x7d, \x7bback: " := by
  decide +kernel

end Store

end QueryDoc
