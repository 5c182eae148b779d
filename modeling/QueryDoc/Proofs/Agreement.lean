import QueryDoc.Proofs.Conversion
import QueryDoc.Proofs.Steps

/-!
Conversion with one set of entered objects, like that of a writer: an object is entered before its
fields and left after them, and a failure leaves the set as it is then. The rules give every row of
values one outcome, that of the recursive definition. The main statement compares it with writing.
-/

namespace QueryDoc

namespace Value

variable {Ref : Type}

/-- The items of a value that has items. -/
def row? : Value Ref → Option (List (Value Ref))
  | .list items => some items
  | .objects refs => some (refs.map .object)
  | _ => none

/-- The JSON of a value that has no items and is no object. -/
def scalarJson? (bindings : Option Bindings) : Value Ref → Option Json
  | .null => some .null
  | .bool b => some (.bool b)
  | .int text => some (.ofIntText text)
  | .float text => some (.ofFloatText text)
  | .string text | .enumerator text => some (.string text)
  | .var name => some (binding bindings name)
  | .bytes content => some (.ofBytes content)
  | .list _ | .objects _ | .object _ => none

theorem row_of_scalar {bindings : Option Bindings} {v : Value Ref} {j : Json}
    (h : v.scalarJson? bindings = some j) : v.row? = none := by
  cases v with
  | list _ | objects _ => cases h
  | _ => rfl

end Value

namespace Store

variable {s : Store} {bindings : Option Bindings} {trail : Trail}

/-- The members that JSON values make under the names of the fields. -/
def members (fields : List InputField) (js : List Json) : List (Entry Json) :=
  List.zipWith Entry.mk (Entry.names fields) js

/-- Converting a row of values takes one set of entered objects to another and has a result. -/
inductive Converts (s : Store) (bindings : Option Bindings) :
    Trail → List (Value ObjectId) → Trail → Except Error (List Json) → Prop
  | done {P} : Converts s bindings P [] P (.ok [])
  | scalar {P P' v vs j r} : v.scalarJson? bindings = some j → Converts s bindings P vs P' r →
      Converts s bindings P (v :: vs) P' (r.map (j :: ·))
  | row {P P₁ P₂ v vs items js r} : v.row? = some items →
      Converts s bindings P items P₁ (.ok js) → Converts s bindings P₁ vs P₂ r →
      Converts s bindings P (v :: vs) P₂ (r.map (.array js :: ·))
  | insideRow {P P' v vs items e} : v.row? = some items →
      Converts s bindings P items P' (.error e) → Converts s bindings P (v :: vs) P' (.error e)
  | met {P o vs} : o ∈ P →
      Converts s bindings P (.object o :: vs) P (.error (s.cycleAt o).error)
  | object {P P₁ P₂ o vs js r} : o ∉ P →
      Converts s bindings (o :: P) ((s.fields o).map Entry.value) P₁ (.ok js) →
      Converts s bindings (P₁.erase o) vs P₂ r →
      Converts s bindings P (.object o :: vs) P₂ (r.map (.ofEntries (members (s.fields o) js) :: ·))
  | insideObject {P P' o vs e} : o ∉ P →
      Converts s bindings (o :: P) ((s.fields o).map Entry.value) P' (.error e) →
      Converts s bindings P (.object o :: vs) P' (.error e)

/-- The rules leave no choice. -/
theorem Converts.unique {P P₁ P₂ : Trail} {vs : List (Value ObjectId)}
    {r₁ r₂ : Except Error (List Json)} (h₁ : Converts s bindings P vs P₁ r₁)
    (h₂ : Converts s bindings P vs P₂ r₂) : P₁ = P₂ ∧ r₁ = r₂ := by
  induction h₁ generalizing P₂ r₂ with
  | done =>
      cases h₂
      exact ⟨rfl, rfl⟩
  | scalar hj _ ih =>
      cases h₂ with
      | scalar hj' rest =>
          obtain ⟨rfl, rfl⟩ := ih rest
          cases hj.symm.trans hj'
          exact ⟨rfl, rfl⟩
      | row hv _ _ | insideRow hv _ => cases (Value.row_of_scalar hj).symm.trans hv
      | met _ | object _ _ _ | insideObject _ _ => cases hj
  | row hv _ _ ih ihrest =>
      cases h₂ with
      | scalar hj _ => cases (Value.row_of_scalar hj).symm.trans hv
      | row hv' items rest =>
          cases hv.symm.trans hv'
          obtain ⟨rfl, ⟨⟩⟩ := ih items
          obtain ⟨rfl, rfl⟩ := ihrest rest
          exact ⟨rfl, rfl⟩
      | insideRow hv' items =>
          cases hv.symm.trans hv'
          cases (ih items).2
      | met _ | object _ _ _ | insideObject _ _ => cases hv
  | insideRow hv _ ih =>
      cases h₂ with
      | scalar hj _ => cases (Value.row_of_scalar hj).symm.trans hv
      | row hv' items _ =>
          cases hv.symm.trans hv'
          cases (ih items).2
      | insideRow hv' items =>
          cases hv.symm.trans hv'
          obtain ⟨rfl, ⟨⟩⟩ := ih items
          exact ⟨rfl, rfl⟩
      | met _ | object _ _ _ | insideObject _ _ => cases hv
  | met entered =>
      cases h₂ with
      | scalar h _ | row h _ _ | insideRow h _ => cases h
      | met _ => exact ⟨rfl, rfl⟩
      | object off _ _ | insideObject off _ => exact absurd entered off
  | object off _ _ ih ihrest =>
      cases h₂ with
      | scalar h _ | row h _ _ | insideRow h _ => cases h
      | met entered => exact absurd entered off
      | object _ fields rest =>
          obtain ⟨rfl, ⟨⟩⟩ := ih fields
          obtain ⟨rfl, rfl⟩ := ihrest rest
          exact ⟨rfl, rfl⟩
      | insideObject _ fields => cases (ih fields).2
  | insideObject off _ ih =>
      cases h₂ with
      | scalar h _ | row h _ _ | insideRow h _ => cases h
      | met entered => exact absurd entered off
      | object _ fields _ => cases (ih fields).2
      | insideObject _ fields =>
          obtain ⟨rfl, ⟨⟩⟩ := ih fields
          exact ⟨rfl, rfl⟩

/-- The trail that a result leaves behind. -/
def trailAfter {α : Type} (trail : Trail) : Except Failure α → Trail
  | .ok _ => trail
  | .error f => f.entered ++ trail

/-- The outcome of the recursive definition on a row of values is one that the rules give. -/
def Fits (s : Store) (bindings : Option Bindings) (trail : Trail) (vs : List (Value ObjectId)) :
    Prop :=
  s.Converts bindings trail vs
    (trailAfter trail (Value.itemsJson (s.objectJson bindings trail) bindings vs))
    ((Value.itemsJson (s.objectJson bindings trail) bindings vs).mapError Failure.error)

/-- The rules apply to a value in front of any row. -/
def FitsAhead (s : Store) (bindings : Option Bindings) (trail : Trail) (v : Value ObjectId) :
    Prop :=
  ∀ vs, s.Fits bindings trail vs → s.Fits bindings trail (v :: vs)

theorem fits_of_ahead {vs : List (Value ObjectId)}
    (h : ∀ v ∈ vs, s.FitsAhead bindings trail v) : s.Fits bindings trail vs := by
  induction vs with
  | nil =>
      rw [Fits]
      exact .done
  | cons v vs ih =>
      exact h v (List.mem_cons_self ..) vs (ih fun w hw => h w (List.mem_cons_of_mem v hw))

theorem itemsJson_objects (object : ObjectId → Except Failure Json) (os : List ObjectId) :
    Value.itemsJson object bindings (os.map .object) = Value.refsJson object os := by
  induction os with
  | nil => rfl
  | cons o os ih => rw [List.map_cons, Value.itemsJson, ih, Value.toJson, Value.refsJson]

theorem entriesJson_eq (object : ObjectId → Except Failure Json) (fields : List InputField) :
    Value.entriesJson object bindings fields =
      (Value.itemsJson object bindings (fields.map Entry.value)).map (members fields) := by
  induction fields with
  | nil => rfl
  | cons f fields ih =>
      rw [Value.entriesJson, ih, List.map_cons, Value.itemsJson]
      cases Value.toJson object bindings f.value with
      | error _ => rfl
      | ok j => cases Value.itemsJson object bindings (fields.map Entry.value) <;> rfl

theorem fits_cons_of_ok {v : Value ObjectId} {vs : List (Value ObjectId)} {j : Json}
    (json : Value.toJson (s.objectJson bindings trail) bindings v = .ok j)
    (h : s.Converts bindings trail (v :: vs)
      (trailAfter trail (Value.itemsJson (s.objectJson bindings trail) bindings vs))
      (((Value.itemsJson (s.objectJson bindings trail) bindings vs).mapError Failure.error).map
        (j :: ·))) :
    s.Fits bindings trail (v :: vs) := by
  rw [Fits, Value.itemsJson, json]
  generalize Value.itemsJson (s.objectJson bindings trail) bindings vs = r at h ⊢
  cases r <;> exact h

theorem fits_cons_of_error {v : Value ObjectId} {vs : List (Value ObjectId)} {f : Failure}
    (json : Value.toJson (s.objectJson bindings trail) bindings v = .error f)
    (h : s.Converts bindings trail (v :: vs) (f.entered ++ trail) (.error f.error)) :
    s.Fits bindings trail (v :: vs) := by
  rw [Fits, Value.itemsJson, json]
  exact h

theorem fitsAhead_scalar {v : Value ObjectId} {j : Json} (hj : v.scalarJson? bindings = some j)
    (json : Value.toJson (s.objectJson bindings trail) bindings v = .ok j) :
    s.FitsAhead bindings trail v :=
  fun _ rest => fits_cons_of_ok json (.scalar hj rest)

theorem fitsAhead_row {v : Value ObjectId} {items : List (Value ObjectId)}
    (hv : v.row? = some items)
    (json : Value.toJson (s.objectJson bindings trail) bindings v =
      (Value.itemsJson (s.objectJson bindings trail) bindings items).map .array)
    (h : s.Fits bindings trail items) : s.FitsAhead bindings trail v := by
  intro vs rest
  rw [Fits] at h
  cases r : Value.itemsJson (s.objectJson bindings trail) bindings items with
  | error f =>
      rw [r] at h json
      exact fits_cons_of_error json (.insideRow hv h)
  | ok js =>
      rw [r] at h json
      exact fits_cons_of_ok json (.row hv h rest)

theorem fitsAhead_value (v : Value ObjectId)
    (h : ∀ o ∈ v.refs, s.FitsAhead bindings trail (.object o)) :
    s.FitsAhead bindings trail v := by
  induction v using Value.induct with
  | null | bool _ | int _ | float _ | string _ | enumerator _ | var _ | bytes _ =>
      exact fitsAhead_scalar rfl rfl
  | list items ih =>
      refine fitsAhead_row rfl rfl (fits_of_ahead fun v hv => ih v hv fun o ho => ?_)
      apply h o
      rw [Value.refs_list]
      exact List.mem_flatMap_of_mem hv ho
  | objects os =>
      refine fitsAhead_row rfl ?_ (fits_of_ahead fun v hv => ?_)
      · rw [Value.toJson, itemsJson_objects]
      · obtain ⟨o, ho, rfl⟩ := List.mem_map.mp hv
        exact h o ho
  | object o => exact h o (List.mem_singleton_self o)

theorem fitsAhead_object (s : Store) (bindings : Option Bindings) (trail : Trail) (o : ObjectId) :
    s.FitsAhead bindings trail (.object o) := by
  induction trail, o using visit_induct (s := s) with
  | met trail o entered =>
      intro vs _
      have json := objectJson_eq s bindings trail o
      rw [if_pos entered] at json
      exact fits_cons_of_error json (.met entered)
  | enter trail o off ih =>
      have fields : s.Fits bindings (o :: trail) ((s.fields o).map Entry.value) := by
        refine fits_of_ahead fun v hv => fitsAhead_value v fun p hp => ih p ?_
        obtain ⟨f, hf, rfl⟩ := List.mem_map.mp hv
        exact mem_objectRefs hf hp
      intro vs rest
      have json := objectJson_eq s bindings trail o
      rw [if_neg off, entriesJson_eq] at json
      rw [Fits] at fields
      cases r : Value.itemsJson (s.objectJson bindings (o :: trail)) bindings
          ((s.fields o).map Entry.value) with
      | error f =>
          rw [r] at fields json
          refine fits_cons_of_error json (.insideObject off ?_)
          rw [Failure.inside, List.append_assoc]
          exact fields
      | ok js =>
          rw [r] at fields json
          exact fits_cons_of_ok json
            (.object off fields (by rwa [trailAfter, List.erase_cons_head]))

/-- Converting a row by the rules gives what the recursive definition gives, and the trail that this
leaves behind. -/
theorem fits (s : Store) (bindings : Option Bindings) (trail : Trail)
    (vs : List (Value ObjectId)) : s.Fits bindings trail vs :=
  fits_of_ahead fun v _ => fitsAhead_value v fun o _ => fitsAhead_object s bindings trail o

/-- Converting an input by the rules. -/
def ConvertsInput (s : Store) (bindings : Option Bindings) (trail : Trail) :
    Input (Value ObjectId) → Trail → Except Error Json → Prop
  | .value v, after, r => s.Converts bindings trail [v] after (r.map ([·]))
  | .arguments as, after, r =>
    ∃ row, s.Converts bindings trail (as.map Entry.value) after row ∧
      r = row.map fun js => .ofEntries (members as js)

theorem convertsInput (s : Store) (bindings : Option Bindings) (trail : Trail)
    (i : Input (Value ObjectId)) :
    s.ConvertsInput bindings trail i (trailAfter trail (s.inputJson bindings trail i))
      ((s.inputJson bindings trail i).mapError Failure.error) := by
  cases i with
  | value v =>
      have h := s.fits bindings trail [v]
      rw [Fits, Value.itemsJson, Value.itemsJson] at h
      rw [ConvertsInput, inputJson, valueJson]
      generalize Value.toJson (s.objectJson bindings trail) bindings v = r at h ⊢
      cases r <;> exact h
  | arguments as =>
      have h := s.fits bindings trail (as.map Entry.value)
      rw [Fits] at h
      rw [inputJson, entriesJson_eq]
      generalize Value.itemsJson (s.objectJson bindings trail) bindings (as.map Entry.value) = r
        at h ⊢
      cases r with
      | ok js => exact ⟨.ok js, h, rfl⟩
      | error f => exact ⟨.error f.error, h, rfl⟩

theorem trailAfter_eq {j : Except Failure Json} {r : Run} (h : errorOf j = r.failure) :
    trailAfter trail j = r.trail trail := by
  rw [Run.trail, ← h]
  cases j <;> rfl

/-- Printing fails as the walk through the objects of a node does. -/
theorem errorOf_print (s : Store) (n : Node (Value ObjectId)) :
    errorOf (s.print n) = (s.visitAll [] n.refs).map Failure.error := by
  rw [print_eq]
  cases s.visitAll [] n.refs <;> rfl

theorem clear_of_print {n : Node (Value ObjectId)} (printed : errorOf (s.print n) = none) :
    ∀ o ∈ n.refs, s.Clear [] o := by
  rw [errorOf_print, Option.map_eq_none_iff] at printed
  exact visitAll_eq_none_iff_clear.mp printed

/-- Writing and conversion to JSON succeed together, and fail together with the same error and the
same objects left entered. Neither the level nor the variables play a part in this; of the fields of
objects only the references do, while their names show in the error. -/
theorem writing_and_conversion_fail_alike (s : Store) (i : Input (Value ObjectId)) (trail : Trail)
    (level : Nat) (bindings : Option Bindings) (before : String) :
    let r := s.writeNode trail level i.node { text := before }
    (∃ j after, s.nodeJson? bindings trail i.node = some j ∧
      ((∃ a, j = .ok a) ↔ r.failure = none) ∧ errorOf j = r.failure ∧
      trailAfter trail j = after ∧ r.trail trail = after ∧ (r.failure = none → after = trail) ∧
      s.ConvertsInput bindings trail i after (j.mapError Failure.error) ∧
      ∃ w, Writer.Ends s
        (.start (Layout.ofNode Layout.ofValue level i.node) trail { text := before }) w
        (r.failure.map Failure.error) ∧ w.entered = after) ∧
      (∀ level' bindings',
        (s.writeNode trail level' i.node { text := before }).failure = r.failure ∧
          errorOf (s.inputJson bindings' trail i) = r.failure) ∧
      ∀ (s' : Store) (i' : Input (Value ObjectId)),
        s'.objectRefs = s.objectRefs → i'.refs = i.refs →
          (s'.writeNode trail level i'.node { text := before }).failure.map Failure.entered =
            r.failure.map Failure.entered := by
  intro r
  have written (s : Store) (i : Input (Value ObjectId)) (level : Nat) :
      (s.writeNode trail level i.node { text := before }).failure = s.visitAll trail i.refs :=
    writeNode_failure s trail level i.node before
  have failed : r.failure = s.visitAll trail i.refs := written s i level
  have alike (bindings : Option Bindings) : errorOf (s.inputJson bindings trail i) = r.failure := by
    rw [errorOf_inputJson, failed]
  have left : trailAfter trail (s.inputJson bindings trail i) = r.trail trail :=
    trailAfter_eq (alike bindings)
  refine ⟨⟨s.inputJson bindings trail i, r.trail trail, nodeJson_node .., ?_, alike bindings, left,
    rfl, ?_, ?_, ?_⟩, ?_, ?_⟩
  · rw [← errorOf_eq_none_iff, alike]
  · intro ok
    rw [Run.trail, ok]
  · rw [← left]
    exact convertsInput s bindings trail i
  · obtain ⟨w, ends, -, entered⟩ := Writer.ends_write s trail
      (Layout.ofNode Layout.ofValue level i.node) { text := before }
    exact ⟨w, ends, entered⟩
  · intro level' bindings'
    exact ⟨(written s i level').trans failed.symm, alike bindings'⟩
  · intro s' i' same refs
    rw [written, failed, refs]
    exact visitAll_entered_congr same trail i.refs

end Store

end QueryDoc
