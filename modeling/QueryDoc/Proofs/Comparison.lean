import QueryDoc.Proofs.References
import Mathlib.Data.List.Forall2

/-!
Comparing parts test by test. Two parts give a row of tests, and a test of values or objects gives
tests of what is in them, up to the first one that fails. Objects in the fields of an object are
tested for identity only, which is why the tests come to an end in every store. Two objects that
are one are known to be equal at once; without this shortcut the answers are the same.
-/

namespace QueryDoc

namespace Value

variable {Ref S : Type}

/-- Equality of values that have nothing in them: no items and no objects. -/
def plainEqual : Value Ref → Value Ref → Bool
  | .null, .null => true
  | .bool a, .bool b => a = b
  | .int a, .int b => a = b
  | .float a, .float b => a = b
  | .string a, .string b => a = b
  | .enumerator a, .enumerator b => a = b
  | .var a, .var b => a = b
  | .bytes a, .bytes b => a = b
  | _, _ => false

/-- The values are not two lists, two lists of objects or two objects. -/
structure Plain (v w : Value Ref) : Prop where
  lists : ∀ a b, v = .list a → w = .list b → False
  objectLists : ∀ a b, v = .objects a → w = .objects b → False
  objects : ∀ o p, v = .object o → w = .object p → False

namespace Plain

variable {v w : Value Ref}

theorem plainEqual_iff (plain : Plain v w) : v.plainEqual w = true ↔ v = w := by
  constructor
  · fun_cases plainEqual v w <;> simp
  · rintro rfl
    cases v with
    | list a => exact (plain.lists a a rfl rfl).elim
    | objects a => exact (plain.objectLists a a rfl rfl).elim
    | object o => exact (plain.objects o o rfl rfl).elim
    | _ => simp [plainEqual]

theorem map_eq_map_iff (plain : Plain v w) (f : Ref → S) : v.map f = w.map f ↔ v = w := by
  refine ⟨fun same => ?_, fun same => same ▸ rfl⟩
  cases v with
  | list a =>
      cases w with
      | list b => exact (plain.lists a b rfl rfl).elim
      | _ => cases same
  | objects a =>
      cases w with
      | objects b => exact (plain.objectLists a b rfl rfl).elim
      | _ => cases same
  | object o =>
      cases w with
      | object p => exact (plain.objects o p rfl rfl).elim
      | _ => cases same
  | _ =>
      cases w <;> cases same
      rfl

end Plain

/-- Values of one form with equal content; for objects that means the same object. -/
inductive Alike : Value Ref → Value Ref → Prop
  | null : Alike .null .null
  | bool (b : Bool) : Alike (.bool b) (.bool b)
  | int (text : String) : Alike (.int text) (.int text)
  | float (text : String) : Alike (.float text) (.float text)
  | string (text : String) : Alike (.string text) (.string text)
  | enumerator (name : String) : Alike (.enumerator name) (.enumerator name)
  | var (name : String) : Alike (.var name) (.var name)
  | bytes (content : List UInt8) : Alike (.bytes content) (.bytes content)
  | list {a b : List (Value Ref)} : List.Forall₂ Alike a b → Alike (.list a) (.list b)
  | objects {a b : List Ref} : List.Forall₂ (· = ·) a b → Alike (.objects a) (.objects b)
  | object (ref : Ref) : Alike (.object ref) (.object ref)

theorem Alike.refl (v : Value Ref) : Alike v v := by
  induction v using induct with
  | list items ih => exact .list (List.forall₂_same.mpr ih)
  | objects refs => exact .objects (List.forall₂_refl refs)
  | _ => constructor

theorem Alike.eq {v w : Value Ref} (h : Alike v w) : v = w := by
  induction v using induct generalizing w with
  | list items ih =>
      cases h with
      | list h =>
          have both := (List.forall₂_and_left items _).mpr ⟨fun v hv w => ih v hv (w := w), h⟩
          have same : List.Forall₂ (· = ·) items _ := both.imp fun v w ⟨eq, alike⟩ => eq w alike
          rw [List.forall₂_eq_eq_eq] at same
          rw [same]
  | objects refs =>
      cases h with
      | objects h =>
          rw [List.forall₂_eq_eq_eq] at h
          rw [h]
  | _ => cases h; rfl

theorem alike_iff {v w : Value Ref} : Alike v w ↔ v = w :=
  ⟨Alike.eq, fun h => h ▸ Alike.refl v⟩

end Value

/-- A comparison that is to be made. -/
inductive Test where
  /-- What is known without looking further: of names, texts, kinds and lengths. -/
  | fact (holds : Bool)
  | values (v w : Value ObjectId)
  /-- Of values in the fields of objects. -/
  | inner (v w : Value ObjectId)
  | objects (o p : ObjectId)

namespace Test

/-- The tests of two rows: their lengths, and each item with the one in the same place. -/
def row {α : Type} (tests : α → α → List Test) (as bs : List α) : List Test :=
  .fact (as.length = bs.length) :: (as.zip bs).flatMap fun (a, b) => tests a b

def ofInputFields (f g : InputField) : List Test :=
  [.fact (f.name = g.name), .inner f.value g.value]

/-- The tests that a test consists of. -/
def parts (s : Store) (shortcut : Bool) : Test → List Test
  | .fact holds => [.fact holds]
  | .values (.list a) (.list b) => row (fun v w => [.values v w]) a b
  | .values (.objects a) (.objects b) => row (fun o p => [.objects o p]) a b
  | .values (.object o) (.object p) => [.objects o p]
  | .values v w => [.fact (v.plainEqual w)]
  | .inner (.list a) (.list b) => row (fun v w => [.inner v w]) a b
  | .inner (.objects a) (.objects b) => row (fun o p => [.fact (o = p)]) a b
  | .inner (.object o) (.object p) => [.fact (o = p)]
  | .inner v w => [.values v w]
  | .objects o p =>
    if shortcut && o = p then []
    else row ofInputFields (s.fields o) (s.fields p)

inductive Progress where
  | go (tests : List Test)
  | answer (equal : Bool)

/-- The first test is made, or gives way to its parts. One that fails ends the comparison. -/
def step (s : Store) (shortcut : Bool) : List Test → Progress
  | [] => .answer true
  | .fact true :: tests => .go tests
  | .fact false :: _ => .answer false
  | t :: tests => .go (t.parts s shortcut ++ tests)

def Steps (s : Store) (shortcut : Bool) : List Test → List Test → Prop :=
  Relation.ReflTransGen fun tests tests' => step s shortcut tests = .go tests'

/-- The tests come to an end with an answer. -/
def Ends (s : Store) (shortcut : Bool) (tests : List Test) (equal : Bool) : Prop :=
  ∃ last, Steps s shortcut tests last ∧ step s shortcut last = .answer equal

/-- What a test is about. -/
def Holds (s : Store) : Test → Prop
  | .fact holds => holds = true
  | .values v w => v.map s.fields = w.map s.fields
  | .inner v w => v = w
  | .objects o p => s.fields o = s.fields p

section Nodes

def ofEntries (e e' : Entry (Value ObjectId)) : List Test :=
  [.fact (e.name = e'.name), .values e.value e'.value]

mutual

def ofField : Field (Value ObjectId) → Field (Value ObjectId) → List Test
  | ⟨aliasName, name, arguments, selections⟩, ⟨aliasName', name', arguments', selections'⟩ =>
    .fact (aliasName = aliasName') :: .fact (name = name') ::
      (row ofEntries arguments arguments' ++
        .fact (selections.length = selections'.length) :: ofSelections selections selections')
termination_by structural f => f

def ofSelections : List (Field (Value ObjectId)) → List (Field (Value ObjectId)) → List Test
  | f :: fields, g :: fields' => ofField f g ++ ofSelections fields fields'
  | _, _ => []
termination_by structural fields => fields

end

def ofDefaults : Option (Value ObjectId) → Option (Value ObjectId) → List Test
  | some v, some w => [.values v w]
  | none, none => []
  | _, _ => [.fact false]

def ofDefinitions (d d' : VariableDefinition (Value ObjectId)) : List Test :=
  .fact (d.name = d'.name) :: .fact (d.type = d'.type) :: ofDefaults d.default d'.default

def ofOperations (op op' : Operation (Value ObjectId)) : List Test :=
  .fact (op.kind = op'.kind) :: .fact (op.name = op'.name) ::
    (row ofDefinitions op.definitions op'.definitions ++ row ofField op.selections op'.selections)

/-- The tests of two nodes. Nodes of different kinds are not equal. -/
def ofNodes : Node (Value ObjectId) → Node (Value ObjectId) → List Test
  | .value v, .value w => [.values v w]
  | .entry e, .entry e' => ofEntries e e'
  | .arguments es, .arguments es' => row ofEntries es es'
  | .selectionSet fields, .selectionSet fields' => row ofField fields fields'
  | .field f, .field g => ofField f g
  | .typeRef t, .typeRef t' => [.fact (t = t')]
  | .variableDefinition d, .variableDefinition d' => ofDefinitions d d'
  | .variableDefinitions ds, .variableDefinitions ds' => row ofDefinitions ds ds'
  | .operation op, .operation op' => ofOperations op op'
  | .document d, .document d' => row ofOperations d.operations d'.operations
  | _, _ => [.fact false]

end Nodes

section Holding

variable {s : Store} {α β : Type}

theorem holds_row {tests : α → α → List Test} {as bs : List α} (g : α → β)
    (h : ∀ a ∈ as, ∀ b, (∀ t ∈ tests a b, t.Holds s) ↔ g a = g b) :
    (∀ t ∈ row tests as bs, t.Holds s) ↔ as.map g = bs.map g := by
  calc (∀ t ∈ row tests as bs, t.Holds s)
    _ ↔ as.length = bs.length ∧ ∀ {a b}, (a, b) ∈ as.zip bs → g a = g b := by
        simp only [row, List.forall_mem_cons, Holds, decide_eq_true_eq, List.mem_flatMap]
        refine and_congr_right fun _ => ⟨?_, ?_⟩
        · intro all a b mem
          exact (h a (List.of_mem_zip mem).1 b).mp fun t ht => all t ⟨(a, b), mem, ht⟩
        · rintro same t ⟨⟨a, b⟩, mem, ht⟩
          exact (h a (List.of_mem_zip mem).1 b).mpr (same mem) t ht
    _ ↔ List.Forall₂ (fun a b => g a = g b) as bs := List.forall₂_iff_zip.symm
    _ ↔ as.map g = bs.map g := by
        rw [← List.forall₂_eq_eq_eq, List.forall₂_map_left_iff, List.forall₂_map_right_iff]

theorem holds_parts (s : Store) (shortcut : Bool) (t : Test) :
    (∀ part ∈ t.parts s shortcut, part.Holds s) ↔ t.Holds s := by
  fun_cases parts s shortcut t with
  | case1 holds => exact List.forall_mem_singleton
  | case2 a b =>
      rw [holds_row (Value.map s.fields) fun v _ w => List.forall_mem_singleton, Holds,
        Value.map_list, Value.map_list, Value.list.injEq]
  | case3 a b =>
      rw [holds_row s.fields fun o _ p => List.forall_mem_singleton, Holds, Value.map, Value.map,
        Value.objects.injEq]
  | case4 o p =>
      rw [List.forall_mem_singleton, Holds, Holds, Value.map, Value.map, Value.object.injEq]
  | case5 v w notLists notObjectLists notObjects =>
      have plain : v.Plain w := ⟨notLists, notObjectLists, notObjects⟩
      rw [List.forall_mem_singleton, Holds, Holds, plain.map_eq_map_iff, plain.plainEqual_iff]
  | case6 a b =>
      rw [holds_row id fun v _ w => List.forall_mem_singleton, List.map_id, List.map_id, Holds,
        Value.list.injEq]
  | case7 a b =>
      rw [holds_row id, List.map_id, List.map_id, Holds, Value.objects.injEq]
      intro o _ p
      rw [List.forall_mem_singleton, Holds, decide_eq_true_iff, id, id]
  | case8 o p =>
      rw [List.forall_mem_singleton, Holds, Holds, decide_eq_true_iff, Value.object.injEq]
  | case9 v w notLists notObjectLists notObjects =>
      have plain : v.Plain w := ⟨notLists, notObjectLists, notObjects⟩
      rw [List.forall_mem_singleton, Holds, Holds, plain.map_eq_map_iff]
  | case10 o p same =>
      have : o = p := by simp_all
      simp [Holds, this]
  | case11 o p _ =>
      rw [holds_row id, List.map_id, List.map_id, Holds]
      intro f _ g
      cases f
      cases g
      simp [ofInputFields, Holds]

end Holding

section Settling

variable {s : Store} {shortcut : Bool} {t : Test} {ts us : List Test} {v w : Value ObjectId}

/-- The tests are all made if they hold, and otherwise the comparison ends at one of them. -/
def Settles (s : Store) (shortcut : Bool) (ts : List Test) : Prop :=
  ∀ rest, ((∀ t ∈ ts, t.Holds s) → Steps s shortcut (ts ++ rest) rest) ∧
    ((¬ ∀ t ∈ ts, t.Holds s) → Ends s shortcut (ts ++ rest) false)

theorem Ends.of_steps {equal : Bool} (steps : Steps s shortcut ts us)
    (ends : Ends s shortcut us equal) : Ends s shortcut ts equal :=
  ends.imp fun _ h => ⟨steps.trans h.1, h.2⟩

theorem settles_nil : Settles s shortcut [] :=
  fun _ => ⟨fun _ => .refl, fun h => absurd (fun _ h => nomatch h) h⟩

theorem settles_fact (holds : Bool) : Settles s shortcut [.fact holds] := by
  intro rest
  rw [List.forall_mem_singleton, Holds]
  cases holds with
  | false => exact ⟨nofun, fun _ => ⟨_, .refl, rfl⟩⟩
  | true => exact ⟨fun _ => .single rfl, fun h => absurd rfl h⟩

theorem Settles.append (hts : Settles s shortcut ts) (hus : Settles s shortcut us) :
    Settles s shortcut (ts ++ us) := by
  intro rest
  rw [List.append_assoc, List.forall_mem_append]
  obtain ⟨made, ended⟩ := hts (us ++ rest)
  refine ⟨fun ⟨holds, holds'⟩ => (made holds).trans ((hus rest).1 holds'), fun fails => ?_⟩
  by_cases holds : ∀ t ∈ ts, t.Holds s
  · exact .of_steps (made holds) ((hus rest).2 fun holds' => fails ⟨holds, holds'⟩)
  · exact ended holds

theorem settles_of_forall (h : ∀ t ∈ ts, Settles s shortcut [t]) : Settles s shortcut ts := by
  induction ts with
  | nil => exact settles_nil
  | cons t ts ih =>
      rw [List.forall_mem_cons] at h
      exact h.1.append (ih h.2)

theorem step_of_parts (s : Store) (shortcut : Bool) (t : Test) (rest : List Test) :
    (∃ holds, t = .fact holds) ∨
      step s shortcut (t :: rest) = .go (t.parts s shortcut ++ rest) := by
  cases t with
  | fact holds => exact .inl ⟨holds, rfl⟩
  | _ => exact .inr rfl

/-- A test is settled when its parts are. -/
theorem settles_of_parts (settled : ∀ part ∈ t.parts s shortcut, Settles s shortcut [part]) :
    Settles s shortcut [t] := by
  intro rest
  rcases step_of_parts s shortcut t rest with ⟨holds, rfl⟩ | step
  · exact settles_fact holds rest
  obtain ⟨made, ended⟩ := settles_of_forall settled rest
  rw [holds_parts, ← List.forall_mem_singleton (p := (Holds s ·))] at made ended
  exact ⟨fun holds => .head step (made holds), fun fails => .of_steps (.single step) (ended fails)⟩

theorem settles_row {α : Type} {tests : α → α → List Test} {as bs : List α}
    (h : ∀ a ∈ as, ∀ b, ∀ t ∈ tests a b, Settles s shortcut [t]) :
    ∀ t ∈ row tests as bs, Settles s shortcut [t] := by
  refine List.forall_mem_cons.mpr ⟨settles_fact _, fun t ht => ?_⟩
  obtain ⟨⟨a, b⟩, mem, ht⟩ := List.mem_flatMap.mp ht
  exact h a (List.of_mem_zip mem).1 b t ht

/-- Tests of values that go into lists are settled if they are for all other forms. -/
theorem settles_of_forms {test : Value ObjectId → Value ObjectId → Test}
    (lists : ∀ a b, (test (.list a) (.list b)).parts s shortcut = row (fun v w => [test v w]) a b)
    (objectLists : ∀ a b, Settles s shortcut [test (.objects a) (.objects b)])
    (objects : ∀ o p, Settles s shortcut [test (.object o) (.object p)])
    (plain : ∀ v w, v.Plain w → Settles s shortcut [test v w])
    (v w : Value ObjectId) : Settles s shortcut [test v w] := by
  induction v using Value.induct generalizing w with
  | list items ih =>
      cases w with
      | list items' =>
          apply settles_of_parts
          rw [lists]
          exact settles_row fun v hv w => List.forall_mem_singleton.mpr (ih v hv w)
      | _ => exact plain _ _ ⟨nofun, nofun, nofun⟩
  | objects refs =>
      cases w with
      | objects refs' => exact objectLists refs refs'
      | _ => exact plain _ _ ⟨nofun, nofun, nofun⟩
  | object ref =>
      cases w with
      | object ref' => exact objects ref ref'
      | _ => exact plain _ _ ⟨nofun, nofun, nofun⟩
  | _ => exact plain _ _ ⟨nofun, nofun, nofun⟩

theorem settles_values_of_plain (plain : v.Plain w) : Settles s shortcut [.values v w] := by
  have only : (values v w).parts s shortcut = [.fact (v.plainEqual w)] := by
    rw [parts]
    · exact plain.lists
    · exact plain.objectLists
    · exact plain.objects
  apply settles_of_parts
  rw [only]
  exact List.forall_mem_singleton.mpr (settles_fact _)

theorem settles_inner_of_plain (plain : v.Plain w) : Settles s shortcut [.inner v w] := by
  have only : (inner v w).parts s shortcut = [.values v w] := by
    rw [parts]
    · exact plain.lists
    · exact plain.objectLists
    · exact plain.objects
  apply settles_of_parts
  rw [only]
  exact List.forall_mem_singleton.mpr (settles_values_of_plain plain)

-- A comparison of objects leads to those of inner values, and these to none of objects. So inner
-- values come first, by induction on the value, and objects need no induction on the store.
theorem settles_inner (v w : Value ObjectId) : Settles s shortcut [.inner v w] := by
  refine settles_of_forms (fun _ _ => rfl) (fun a b => ?_) (fun o p => ?_)
    (fun _ _ => settles_inner_of_plain) v w
  · apply settles_of_parts
    rw [parts]
    exact settles_row fun o _ p => List.forall_mem_singleton.mpr (settles_fact _)
  · exact settles_of_parts (List.forall_mem_singleton.mpr (settles_fact _))

theorem settles_objects (o p : ObjectId) : Settles s shortcut [.objects o p] := by
  apply settles_of_parts
  rw [parts]
  split
  · exact fun _ h => nomatch h
  · apply settles_row
    intro f _ g
    rw [ofInputFields, List.forall_mem_cons, List.forall_mem_singleton]
    exact ⟨settles_fact _, settles_inner f.value g.value⟩

theorem settles_values (v w : Value ObjectId) : Settles s shortcut [.values v w] := by
  refine settles_of_forms (fun _ _ => rfl) (fun a b => ?_) (fun o p => ?_)
    (fun _ _ => settles_values_of_plain) v w
  · apply settles_of_parts
    rw [parts]
    exact settles_row fun o _ p => List.forall_mem_singleton.mpr (settles_objects o p)
  · exact settles_of_parts (List.forall_mem_singleton.mpr (settles_objects o p))

theorem settles (s : Store) (shortcut : Bool) (ts : List Test) : Settles s shortcut ts := by
  apply settles_of_forall
  rintro (holds | ⟨v, w⟩ | ⟨v, w⟩ | ⟨o, p⟩) _
  · exact settles_fact holds
  · exact settles_values v w
  · exact settles_inner v w
  · exact settles_objects o p

/-- Two comparisons of the same parts come to the same answer. -/
theorem Ends.unique {equal equal' : Bool} (h : Ends s shortcut ts equal)
    (h' : Ends s shortcut ts equal') : equal = equal' := by
  obtain ⟨last, steps, answer⟩ := h
  induction steps using Relation.ReflTransGen.head_induction_on with
  | refl =>
      obtain ⟨last', steps', answer'⟩ := h'
      rcases steps'.cases_head with rfl | ⟨_, step, _⟩
      · simp_all
      · simp_all
  | head step _ ih =>
      apply ih
      obtain ⟨last', steps', answer'⟩ := h'
      rcases steps'.cases_head with rfl | ⟨next, step', steps'⟩
      · simp_all
      · obtain rfl : _ = next := by simpa [step] using step'
        exact ⟨last', steps', answer'⟩

theorem ends_iff {equal : Bool} :
    Ends s shortcut ts equal ↔ (equal = true ↔ ∀ t ∈ ts, t.Holds s) := by
  have settled := settles s shortcut ts []
  rw [List.append_nil] at settled
  by_cases holds : ∀ t ∈ ts, t.Holds s
  · have ends : Ends s shortcut ts true := .of_steps (settled.1 holds) ⟨_, .refl, rfl⟩
    simp only [iff_true_right holds]
    exact ⟨fun h => h.unique ends, fun h => h ▸ ends⟩
  · have ends := settled.2 holds
    simp only [iff_false_right holds, Bool.not_eq_true]
    exact ⟨fun h => h.unique ends, fun h => h ▸ ends⟩

end Settling

section Nodes

variable {s : Store}

theorem ofSelections_eq (fields fields' : List (Field (Value ObjectId))) :
    ofSelections fields fields' = (fields.zip fields').flatMap fun (f, g) => ofField f g := by
  induction fields generalizing fields' with
  | nil => rfl
  | cons f fields ih =>
      cases fields' with
      | nil => rfl
      | cons g fields' => rw [ofSelections, ih, List.zip_cons_cons, List.flatMap_cons]

theorem ofField_eq (f g : Field (Value ObjectId)) :
    ofField f g = .fact (f.aliasName = g.aliasName) :: .fact (f.name = g.name) ::
      (row ofEntries f.arguments g.arguments ++ row ofField f.selections g.selections) := by
  cases f
  cases g
  rw [ofField, ofSelections_eq, row, row]

theorem holds_ofEntries (e e' : Entry (Value ObjectId)) :
    (∀ t ∈ ofEntries e e', t.Holds s) ↔ e.map (·.map s.fields) = e'.map (·.map s.fields) := by
  cases e
  cases e'
  simp [ofEntries, Holds, Entry.map]

theorem holds_ofField (f g : Field (Value ObjectId)) :
    (∀ t ∈ ofField f g, t.Holds s) ↔ f.map (·.map s.fields) = g.map (·.map s.fields) := by
  induction f using Field.induct generalizing g with
  | mk aliasName name arguments selections ih =>
      rw [ofField_eq, List.forall_mem_cons, List.forall_mem_cons, List.forall_mem_append,
        holds_row _ fun e _ e' => holds_ofEntries e e', holds_row _ ih]
      cases g
      simp [Holds, Field.map, Field.mapAll_eq]

theorem holds_ofDefaults (v w : Option (Value ObjectId)) :
    (∀ t ∈ ofDefaults v w, t.Holds s) ↔ v.map (·.map s.fields) = w.map (·.map s.fields) := by
  cases v <;> cases w <;> simp [ofDefaults, Holds]

theorem holds_ofDefinitions (d d' : VariableDefinition (Value ObjectId)) :
    (∀ t ∈ ofDefinitions d d', t.Holds s) ↔ d.map (·.map s.fields) = d'.map (·.map s.fields) := by
  rw [ofDefinitions, List.forall_mem_cons, List.forall_mem_cons, holds_ofDefaults]
  simp [Holds, VariableDefinition.map]

theorem holds_ofOperations (op op' : Operation (Value ObjectId)) :
    (∀ t ∈ ofOperations op op', t.Holds s) ↔
      op.map (·.map s.fields) = op'.map (·.map s.fields) := by
  rw [ofOperations, List.forall_mem_cons, List.forall_mem_cons, List.forall_mem_append,
    holds_row _ fun d _ d' => holds_ofDefinitions d d', holds_row _ fun f _ g => holds_ofField f g]
  simp [Holds, Operation.map]

theorem holds_ofNodes (a b : Node (Value ObjectId)) :
    (∀ t ∈ ofNodes a b, t.Holds s) ↔ s.Equates a b := by
  have apart {P : Prop} (no : ¬ P) : (∀ t ∈ [fact false], t.Holds s) ↔ P := by
    rw [List.forall_mem_singleton, Holds]
    exact ⟨nofun, fun h => absurd h no⟩
  rw [Store.Equates, Store.contents, Store.contents]
  fun_cases ofNodes a b with
  | case1 v w => simp [Node.map, Holds]
  | case2 e e' => simp [Node.map, holds_ofEntries]
  | case3 es es' => simp [Node.map, holds_row _ fun e _ e' => holds_ofEntries (s := s) e e']
  | case4 fields fields' =>
      simp [Node.map, holds_row _ fun f _ g => holds_ofField (s := s) f g]
  | case5 f g => simp [Node.map, holds_ofField]
  | case6 t t' => simp [Node.map, Holds]
  | case7 d d' => simp [Node.map, holds_ofDefinitions]
  | case8 ds ds' =>
      simp [Node.map, holds_row _ fun d _ d' => holds_ofDefinitions (s := s) d d']
  | case9 op op' => simp [Node.map, holds_ofOperations]
  | case10 d d' =>
      simp [Node.map, Document.map, holds_row _ fun op _ op' => holds_ofOperations (s := s) op op']
  | case11 _ _ => cases a <;> cases b <;> first | (refine apart ?_; rintro ⟨⟩; done) | simp_all

end Nodes

end Test

namespace Store

theorem alike_fields_iff {s : Store} {o p : ObjectId} :
    List.Forall₂ (fun f g => f.name = g.name ∧ f.value.Alike g.value) (s.fields o) (s.fields p) ↔
      s.fields o = s.fields p := by
  have same (f g : InputField) : (f.name = g.name ∧ f.value.Alike g.value) = (f = g) := by
    rw [Value.alike_iff, Entry.mk.injEq]
  simp only [same]
  rw [List.forall₂_eq_eq_eq]

/-- Comparing two parts comes to an end in every store, and the answer is whether they are equal;
that is an equivalence. Two objects are equal if their fields are pairwise of one name and alike, as
those of one object are. All this does not depend on the shortcut for objects that are one. -/
theorem comparison_ends_and_is_an_equivalence (s : Store) (shortcut : Bool) :
    (∀ a b equal, Test.Ends s shortcut (Test.ofNodes a b) equal ↔
      equal = decide (s.Equates a b)) ∧
    Equivalence (fun a b => Test.Ends s shortcut (Test.ofNodes a b) true) ∧
    ∀ o p, (Test.Ends s shortcut (Test.ofNodes (.value (.object o)) (.value (.object p))) true ↔
        List.Forall₂ (fun f g => f.name = g.name ∧ f.value.Alike g.value)
          (s.fields o) (s.fields p)) ∧
      (o = p → List.Forall₂ (fun f g => f.name = g.name ∧ f.value.Alike g.value)
          (s.fields o) (s.fields p)) := by
  have answers (a b : Node (Value ObjectId)) (equal : Bool) :
      Test.Ends s shortcut (Test.ofNodes a b) equal ↔ equal = decide (s.Equates a b) := by
    rw [Test.ends_iff, Test.holds_ofNodes]
    cases equal <;> simp
  have equates (a b : Node (Value ObjectId)) :
      Test.Ends s shortcut (Test.ofNodes a b) true ↔ s.Equates a b := by
    rw [answers, eq_comm, decide_eq_true_iff]
  refine ⟨answers, ?_, fun o p => ⟨?_, ?_⟩⟩
  · simp only [equates]
    exact ⟨fun a => rfl, fun h => h.symm, fun h h' => h.trans h'⟩
  · rw [equates, alike_fields_iff, Equates, contents, contents, Node.map, Node.map,
      Node.value.injEq, Value.map, Value.map, Value.object.injEq]
  · rintro rfl
    exact alike_fields_iff.mpr rfl

end Store

end QueryDoc
