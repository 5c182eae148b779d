import Mathlib.Data.List.Forall2
import QueryDoc.Proofs.Frame
import QueryDoc.Proofs.Json.Values
import QueryDoc.Proofs.Variables

/-!
Substitution of variables. Every variable in an input is replaced by the value of what it is bound
to, in a store that keeps its objects: an object in which a variable occurs, however deep, is
replaced by a new one, any other object stays. The JSON of the result needs no bindings, and is the
one that the input has with them.
-/

namespace QueryDoc

/-- A step that may add objects to the store, taken for one item after the other. -/
def each {α β : Type} (f : Store → α → Store × β) (t : Store) : List α → Store × List β
  | [] => (t, [])
  | a :: as =>
    let (t, b) := f t a
    let (t, bs) := each f t as
    (t, b :: bs)

/-- The number comes back as it is from its literal; this is so for all but the negative zero. -/
def Number.LiteralReadsBack : Number → Prop
  | .int _ _ => True
  | .float x finite => Json.ofFloatText (Value.floatText x) = .number (.float x finite)

theorem Number.unsignedZero_of_literalReadsBack {n : Number} (h : n.LiteralReadsBack) :
    n.unsignedZero = n := by
  cases n with
  | int n _ => rfl
  | float x finite =>
      rw [LiteralReadsBack, Json.ofFloatText_floatText x finite] at h
      exact Json.number.inj h

namespace Value

variable (object : Store → ObjectId → Store × ObjectId) (m : Bindings)

mutual

/-- The value with variables replaced, given what its objects are replaced by. -/
def resolve (t : Store) : Value ObjectId → Store × Value ObjectId
  | .var name =>
    match Entry.find? name m with
    | some j => t.ofJson j
    | none => (t, .null)
  | .list items =>
    let (t, items) := resolveItems t items
    (t, .list items)
  | .objects os =>
    let (t, os) := each object t os
    (t, .objects os)
  | .object o =>
    let (t, o) := object t o
    (t, .object o)
  | v => (t, v)
termination_by structural v => v

def resolveItems (t : Store) : List (Value ObjectId) → Store × List (Value ObjectId)
  | [] => (t, [])
  | v :: items =>
    let (t, v) := v.resolve t
    let (t, items) := resolveItems t items
    (t, v :: items)
termination_by structural items => items

end

theorem resolveItems_eq (t : Store) (items : List (Value ObjectId)) :
    resolveItems object m t items = each (resolve object m) t items := by
  induction items generalizing t with
  | nil => rfl
  | cons v items ih => simp only [resolveItems, each, ih]

def resolveEntry (t : Store) (e : Entry (Value ObjectId)) : Store × Entry (Value ObjectId) :=
  let (t, v) := e.value.resolve object m t
  (t, ⟨e.name, v⟩)

end Value

namespace Store

/-- What an object inside the objects of the trail is replaced by, in a store that goes on from
`s`. -/
def resolveObject (s : Store) (m : Bindings) (trail : Trail) (t : Store) (o : ObjectId) :
    Store × ObjectId :=
  if o ∈ trail then (t, o)
  else if s.Has o ∧ (s.tree o).variableNames ≠ [] then
    let (t, fields) :=
      each (Value.resolveEntry (fun t p => s.resolveObject m (o :: trail) t p) m) t (s.fields o)
    t.create fields
  else (t, o)
termination_by s.unvisited trail
decreasing_by
  rename_i fresh h
  exact unvisited_cons_lt h.1 fresh

/-- The input with variables replaced, in a store that goes on from `s`. -/
def resolve (s : Store) (m : Bindings) : Input (Value ObjectId) → Store × Input (Value ObjectId)
  | .value v =>
    let (t, v) := v.resolve (s.resolveObject m []) m s
    (t, .value v)
  | .arguments as =>
    let (t, as) := each (Value.resolveEntry (s.resolveObject m []) m) s as
    (t, .arguments as)

/-- The value is converted to the JSON value from now on, with any bindings and inside of any other
objects. -/
def ConvertsTo (t : Store) (v : Value ObjectId) (j : Json) : Prop :=
  ∀ (u : Store) (bindings : Option Bindings) (trail : Trail), t.Extends u →
    (∀ o ∈ trail, ¬ t.Has o) → u.valueJson bindings trail v = .ok j

/-- The store goes on from `t`, and the value that comes with it is converted to the JSON value. -/
def Yields (t : Store) (result : Store × Value ObjectId) (j : Json) : Prop :=
  t.Extends result.1 ∧ result.1.ConvertsTo result.2 j

def EntryConvertsTo (t : Store) (e : Entry (Value ObjectId)) (m : Entry Json) : Prop :=
  e.name = m.name ∧ t.ConvertsTo e.value m.value

section Conversion

variable {s t u : Store} {v : Value ObjectId} {j : Json} {trail : Trail} {o : ObjectId}

theorem ConvertsTo.later (h : t.ConvertsTo v j) (later : t.Extends u) : u.ConvertsTo v j :=
  fun _ bindings trail later' others => h _ bindings trail (later.trans later')
    fun o ho has => others o ho (later o has).1

theorem each_related {α β γ : Type} {f : Store → α → Store × β} {g : α → γ}
    {R : Store → β → γ → Prop} {as : List α}
    (lasts : ∀ t u b c, R t b c → t.Extends u → R u b c)
    (h : ∀ a ∈ as, ∀ t, s.Extends t → t.Extends (f t a).1 ∧ R (f t a).1 (f t a).2 (g a))
    (t : Store) (grown : s.Extends t) :
    t.Extends (each f t as).1 ∧ List.Forall₂ (R (each f t as).1) (each f t as).2 (as.map g) := by
  induction as generalizing t with
  | nil => exact ⟨.refl t, .nil⟩
  | cons a as ih =>
      rw [List.forall_mem_cons] at h
      obtain ⟨first, b⟩ := h.1 t grown
      obtain ⟨rest, bs⟩ := ih h.2 (f t a).1 (grown.trans first)
      exact ⟨first.trans rest, .cons (lasts _ _ _ _ b rest) bs⟩

theorem itemsJson_of_convertsTo {items : List (Value ObjectId)} {js : List Json}
    (h : List.Forall₂ t.ConvertsTo items js) (bindings : Option Bindings) (later : t.Extends u)
    (others : ∀ o ∈ trail, ¬ t.Has o) :
    Value.itemsJson (u.objectJson bindings trail) bindings items = .ok js := by
  induction h with
  | nil => rfl
  | cons first _ ih =>
      have first : Value.toJson (u.objectJson bindings trail) bindings _ = _ :=
        first u bindings trail later others
      rw [Value.itemsJson, first, ih]
      rfl

theorem entriesJson_of_convertsTo {entries : List (Entry (Value ObjectId))}
    {members : List (Entry Json)} (h : List.Forall₂ t.EntryConvertsTo entries members)
    (bindings : Option Bindings) (later : t.Extends u) (others : ∀ o ∈ trail, ¬ t.Has o) :
    Value.entriesJson (u.objectJson bindings trail) bindings entries = .ok members := by
  induction h with
  | nil => rfl
  | cons first _ ih =>
      obtain ⟨name, first⟩ := first
      have first : Value.toJson (u.objectJson bindings trail) bindings _ = _ :=
        first u bindings trail later others
      rw [Value.entriesJson, first, ih, name]
      rfl

theorem convertsTo_list {items : List (Value ObjectId)} {js : List Json}
    (h : List.Forall₂ t.ConvertsTo items js) : t.ConvertsTo (.list items) (.array js) := by
  intro u bindings trail later others
  rw [valueJson, Value.toJson, itemsJson_of_convertsTo h bindings later others]
  rfl

theorem convertsTo_objects {os : List ObjectId} {js : List Json}
    (h : List.Forall₂ (fun o j => t.ConvertsTo (.object o) j) os js) :
    t.ConvertsTo (.objects os) (.array js) := by
  intro u bindings trail later others
  have items := itemsJson_of_convertsTo (List.forall₂_map_left_iff.mpr h) bindings later others
  rw [itemsJson_objects] at items
  rw [valueJson, Value.toJson, items]
  rfl

/-- A new object is on no trail of older ones, and stands for the JSON object of its fields. -/
theorem convertsTo_created {fields : List InputField} {members : List (Entry Json)}
    (h : List.Forall₂ t.EntryConvertsTo fields members) :
    (t.create fields).1.ConvertsTo (.object (t.create fields).2) (.ofEntries members) := by
  intro u bindings trail later others
  have created : (t.create fields).1.Has (t.create fields).2 := has_create_iff.mpr (.inr rfl)
  have fresh : (t.create fields).2 ∉ trail := fun inside => others _ inside created
  have content : u.fields (t.create fields).2 = fields :=
    (later _ created).2.trans (fields_create_self t fields)
  have before : ∀ o ∈ (t.create fields).2 :: trail, ¬ t.Has o := by
    intro o ho has
    rcases List.mem_cons.mp ho with rfl | inside
    · exact not_has_created has
    · exact others o inside (has_create_iff.mpr (.inl has))
  rw [valueJson, Value.toJson, objectJson_eq, if_neg fresh, content,
    entriesJson_of_convertsTo h bindings (extends_create.trans later) before]

/-- An object in which no variable occurs stays what it stands for. -/
theorem convertsTo_kept (clear : s.Clear trail o) (known : ∀ p, s.Reaches o p → s.Has p)
    (constant : (s.tree o).variableNames = []) (grown : s.Extends t) (b : Option Bindings) :
    t.ConvertsTo (.object o) ((s.tree o).json b) := by
  intro u bindings trail' later others
  have agrees : s.AgreesBelow u o := fun p hp => ((grown.trans later) p (known p hp)).2
  have clear' : s.Clear trail' o := by
    intro p hp
    exact ⟨fun inside => others p inside (grown p (known p hp)).1, (clear p hp).2⟩
  have same : (s.tree o).json bindings = (s.tree o).json b := by
    apply ObjectTree.json_congr
    rw [constant]
    exact fun _ h => nomatch h
  rw [valueJson, Value.toJson, objectJson_congr bindings trail' o agrees.alike,
    objectJson_of_clear bindings clear', same]

end Conversion

section Resolution

variable {s : Store} {m : Bindings} {object : Store → ObjectId → Store × ObjectId}
  {G : ObjectId → Json} {trail : Trail} {o : ObjectId}

/-- The bindings with zeros that have no sign. -/
def unsigned (m : Bindings) : Bindings := m.map (Entry.map (Json.mapNumbers Number.unsignedZero))

theorem binding_unsigned (m : Bindings) (name : String) :
    binding (some (unsigned m)) name =
      (binding (some m) name).mapNumbers Number.unsignedZero := by
  rw [binding, binding, Option.bind_some, Option.bind_some, unsigned, NameMap.find?_map]
  cases Entry.find? name m <;> rfl

/-- In every store that goes on from `s`, the object is replaced by what stands for the JSON
value. -/
def Replaces (s : Store) (object : Store → ObjectId → Store × ObjectId) (o : ObjectId) (j : Json) :
    Prop :=
  ∀ t, s.Extends t →
    t.Extends (object t o).1 ∧ (object t o).1.ConvertsTo (.object (object t o).2) j

theorem exists_of_find? {name : String} {j : Json} (found : Entry.find? name m = some j) :
    ∃ e ∈ m, e.value = j := by
  induction m with
  | nil => nomatch found
  | cons e m ih =>
      rw [Entry.find?] at found
      split at found
      · exact ⟨e, List.mem_cons_self .., Option.some.inj found⟩
      · obtain ⟨e', he, same⟩ := ih found
        exact ⟨e', List.mem_cons_of_mem e he, same⟩

/-- The value that replaces a variable. -/
theorem yields_ofJson {j : Json} (canonical : j.Canonical) (t : Store) :
    t.Yields (t.ofJson j) (j.mapNumbers Number.unsignedZero) :=
  ⟨(createsAll_ofJson j t).1.extends,
    fun u bindings trail => comesBack j canonical t u bindings trail⟩

theorem yields_resolve (canonical : ∀ e ∈ m, e.value.Canonical) (v : Value ObjectId)
    (h : ∀ o ∈ v.refs, s.Replaces object o (G o)) (t : Store) (grown : s.Extends t) :
    t.Yields (v.resolve object m t) ((v.map G).json (some (unsigned m))) := by
  induction v using Value.induct generalizing t with
  | null | bool _ | int _ | float _ | string _ | enumerator _ | bytes _ =>
      exact ⟨.refl t, fun _ _ _ _ _ => rfl⟩
  | var name =>
      rw [Value.map, Value.json, binding_unsigned, binding, Option.bind_some, Value.resolve]
      cases found : Entry.find? name m with
      | none => exact ⟨.refl t, fun _ _ _ _ _ => rfl⟩
      | some j =>
          obtain ⟨e, he, rfl⟩ := exists_of_find? found
          exact yields_ofJson (canonical e he) t
  | list items ih =>
      obtain ⟨later, converts⟩ := each_related (R := ConvertsTo)
        (fun _ _ _ _ h later => h.later later)
        (fun v hv => ih v hv fun o ho => h o (by
          rw [Value.refs_list]
          exact List.mem_flatMap_of_mem hv ho))
        t grown
      rw [Value.map_list, Value.json, Value.jsonItems_eq, List.map_map, Value.resolve,
        Value.resolveItems_eq]
      exact ⟨later, convertsTo_list converts⟩
  | objects os =>
      obtain ⟨later, converts⟩ := each_related (R := fun t o j => t.ConvertsTo (.object o) j)
        (fun _ _ _ _ h later => h.later later) h t grown
      exact ⟨later, convertsTo_objects converts⟩
  | object o => exact h o (List.mem_singleton_self o) t grown

theorem resolveEntry_converts (canonical : ∀ e ∈ m, e.value.Canonical) (e : Entry (Value ObjectId))
    (h : ∀ o ∈ e.value.refs, s.Replaces object o (G o)) (t : Store) (grown : s.Extends t) :
    t.Extends (Value.resolveEntry object m t e).1 ∧
      (Value.resolveEntry object m t e).1.EntryConvertsTo (Value.resolveEntry object m t e).2
        ((e.map (Value.map G)).map (Value.json (some (unsigned m)))) := by
  obtain ⟨later, converts⟩ := yields_resolve canonical e.value h t grown
  exact ⟨later, rfl, converts⟩

theorem resolveEntries_convert (canonical : ∀ e ∈ m, e.value.Canonical)
    {entries : List (Entry (Value ObjectId))}
    (h : ∀ e ∈ entries, ∀ o ∈ e.value.refs, s.Replaces object o (G o)) (t : Store)
    (grown : s.Extends t) :
    t.Extends (each (Value.resolveEntry object m) t entries).1 ∧
      List.Forall₂ (EntryConvertsTo (each (Value.resolveEntry object m) t entries).1)
        (each (Value.resolveEntry object m) t entries).2
        ((entries.map (Entry.map (Value.map G))).map
          (Entry.map (Value.json (some (unsigned m))))) := by
  rw [List.map_map]
  exact each_related (R := EntryConvertsTo) (fun _ _ _ _ h later => ⟨h.1, h.2.later later⟩)
    (fun e he => resolveEntry_converts canonical e (h e he)) t grown

theorem replaces_resolveObject (canonical : ∀ e ∈ m, e.value.Canonical) (clear : s.Clear trail o)
    (known : ∀ p, s.Reaches o p → s.Has p) :
    s.Replaces (s.resolveObject m trail) o ((s.tree o).json (some (unsigned m))) := by
  revert known
  refine clear.induct fun trail o clear ih known => ?_
  obtain ⟨fresh, below⟩ := clear_iff.mp clear
  intro t grown
  rw [resolveObject, if_neg fresh]
  split
  · rename_i occurs
    obtain ⟨later, converts⟩ := resolveEntries_convert canonical
      (fun e he p hp => ih p (mem_objectRefs he hp) (below p (mem_objectRefs he hp))
        fun q hq => known q (.head (mem_objectRefs he hp) hq)) t grown
    rw [ObjectTree.json, fold_tree _ clear]
    exact ⟨later.trans extends_create, convertsTo_created converts⟩
  · rename_i kept
    have constant : (s.tree o).variableNames = [] := by
      by_contra occurs
      exact kept ⟨known o .refl, occurs⟩
    exact ⟨.refl t, convertsTo_kept clear known constant grown _⟩

/-- The input with variables replaced needs no bindings, and has the JSON that the input has with
them but for the signs of zeros. -/
theorem inputJson_resolve (canonical : ∀ e ∈ m, e.value.Canonical) (i : Input (Value ObjectId))
    (clear : ∀ o ∈ i.refs, s.Clear [] o) (known : ∀ o ∈ i.refs, ∀ p, s.Reaches o p → s.Has p)
    (bindings : Option Bindings) :
    s.Extends (s.resolve m i).1 ∧
      (s.resolve m i).1.inputJson bindings [] (s.resolve m i).2 =
        .ok ((s.unfold i).convert (some (unsigned m))) := by
  have replaced : ∀ o ∈ i.refs,
      s.Replaces (s.resolveObject m []) o ((s.tree o).json (some (unsigned m))) :=
    fun o ho => replaces_resolveObject canonical (clear o ho) (known o ho)
  have outside : ∀ o ∈ ([] : Trail), ¬ (s.resolve m i).1.Has o :=
    fun o ho => absurd ho List.not_mem_nil
  rw [unfold, Input.convert, Input.map_map_value]
  cases i with
  | value v =>
      obtain ⟨later, converts⟩ := yields_resolve canonical v (fun o ho => replaced o (by
        simpa [Input.refs, Input.node, Node.refs, Node.values] using ho)) s (.refl s)
      exact ⟨later, converts _ bindings [] (.refl _) outside⟩
  | arguments as =>
      obtain ⟨later, converts⟩ := resolveEntries_convert canonical (fun e he o ho => replaced o (by
        simpa [Input.refs, Input.node, Node.refs, Node.values, List.mem_flatMap] using
          ⟨e, he, ho⟩)) s (.refl s)
      refine ⟨later, ?_⟩
      have members : Value.entriesJson ((s.resolve m (.arguments as)).1.objectJson bindings [])
          bindings _ = .ok _ := entriesJson_of_convertsTo converts bindings (.refl _) outside
      exact congrArg (Except.map Json.ofEntries) members

end Resolution

/-- Replacing the variables of an input by the values of what they are bound to gives an input that
needs no bindings and has equal JSON, the same if the floats among these values read back from their
literals. Variables without a value count as null, and others have no part in the JSON. -/
theorem variables_are_replaced_by_values (s : Store) (i : Input (Value ObjectId)) (m : Bindings)
    (closed : s.Closed) (known : ∀ o ∈ i.refs, s.Has o)
    (acyclic : ∀ o, s.NodeReaches i.node o → ¬ s.OnCycle o)
    (canonical : ∀ e ∈ m, e.value.Canonical) :
    (∃ j j', s.nodeJson? (some m) [] i.node = some (.ok j) ∧
      s.Extends (s.resolve m i).1 ∧
      (∀ bindings, (s.resolve m i).1.nodeJson? bindings [] (s.resolve m i).2.node =
        some (.ok j')) ∧
      j.same j' = true ∧
      ((∀ x ∈ (s.unfold i).variableNames, ∀ n ∈ (binding (some m) x).numbers,
        n.LiteralReadsBack) → j' = j)) ∧
    s.nodeJson? none [] i.node = s.nodeJson? (some []) [] i.node ∧
    ∀ m', (∀ x ∈ (s.unfold i).variableNames, binding (some m') x = binding (some m) x) →
      s.nodeJson? (some m') [] i.node = s.nodeJson? (some m) [] i.node := by
  have clear : ∀ o ∈ i.refs, s.Clear [] o :=
    clear_of_reaches fun o ho => ⟨List.not_mem_nil, acyclic o ho⟩
  have converted (bindings : Option Bindings) :
      s.nodeJson? bindings [] i.node = some (.ok ((s.unfold i).convert bindings)) := by
    rw [nodeJson_node, inputJson_unfold bindings clear]
  have resolved := inputJson_resolve canonical i clear fun o ho p hp => hp.has closed (known o ho)
  refine ⟨⟨_, (s.unfold i).convert (some (unsigned m)), converted (some m), (resolved none).1,
    fun bindings => ?_, ?_, ?_⟩, ?_, ?_⟩
  · exact (nodeJson_node ..).trans (congrArg some (resolved bindings).2)
  · refine (Json.same_iff _ _).mpr ((s.unfold i).mapNumbers_convert fun x _ => ?_)
    rw [BoundAlike, binding_unsigned, Json.mapNumbers_unsignedZero_twice]
  · intro back
    refine (s.unfold i).convert_congr fun x hx => ?_
    rw [binding_unsigned, Json.mapNumbers_eq_self_iff]
    exact fun n hn => Number.unsignedZero_of_literalReadsBack (back x hx n hn)
  · rw [converted, converted]
    exact congrArg (some ∘ Except.ok) ((s.unfold i).convert_congr fun x _ => rfl)
  · intro m' agree
    rw [converted, converted, (s.unfold i).convert_congr agree]

/-- An object without variables, and one with variables that has the first one in a list. -/
def templateStore : Store :=
  ⟨#[[⟨"a", .int "1"⟩], [⟨"x", .var "v"⟩, ⟨"y", .list [.objects [⟨0⟩], .var "w"]⟩]]⟩

def templateArguments : Input (Value ObjectId) :=
  .arguments [⟨"p", .object ⟨1⟩⟩, ⟨"q", .object ⟨0⟩⟩, ⟨"r", .var "v"⟩]

/-- One variable with an object that holds a text like a variable. -/
def templateBindings : Bindings := [⟨"v", .object [⟨"k", .string "$w"⟩]⟩]

theorem template_is_filled_in :
    templateStore.Closed ∧ (∀ o ∈ templateArguments.refs, templateStore.Has o) ∧
    (∀ o, templateStore.NodeReaches templateArguments.node o → ¬ templateStore.OnCycle o) ∧
    (∀ e ∈ templateBindings, e.value.Canonical) ∧
    (templateStore.resolve templateBindings templateArguments).2.node =
      .arguments [⟨"p", .object ⟨3⟩⟩, ⟨"q", .object ⟨0⟩⟩, ⟨"r", .object ⟨4⟩⟩] ∧
    ∃ j, templateStore.nodeJson? (some templateBindings) [] templateArguments.node =
        some (.ok j) ∧
      (templateStore.resolve templateBindings templateArguments).1.nodeJson? none []
        (.arguments [⟨"p", .object ⟨3⟩⟩, ⟨"q", .object ⟨0⟩⟩, ⟨"r", .object ⟨4⟩⟩]) =
          some (.ok j) := by
  have closed : templateStore.Closed := by
    intro o p h
    have all : ∀ i < 2, ∀ p ∈ templateStore.objectRefs ⟨i⟩, templateStore.Has p := by decide
    exact all o.index (has_of_references h) p h
  have known : ∀ o ∈ templateArguments.refs, templateStore.Has o := by decide
  have acyclic : ∀ o, templateStore.NodeReaches templateArguments.node o →
      ¬ templateStore.OnCycle o := fun o ho =>
    ((visitAll_refs_eq_none_iff _ [] _).mp (by decide +kernel) o ho).2
  have canonical : ∀ e ∈ templateBindings, e.value.Canonical := by
    simp [templateBindings, Json.Canonical, Json.CanonicalMembers, NameMap.Sorted]
  have replaced : (templateStore.resolve templateBindings templateArguments).2.node =
      .arguments [⟨"p", .object ⟨3⟩⟩, ⟨"q", .object ⟨0⟩⟩, ⟨"r", .object ⟨4⟩⟩] := by
    decide +kernel
  obtain ⟨⟨j, j', before, -, after, -, same⟩, -⟩ :=
    variables_are_replaced_by_values templateStore templateArguments templateBindings closed known
      acyclic canonical
  have noFloats : ∀ x ∈ (templateStore.unfold templateArguments).variableNames,
      ∀ n ∈ (binding (some templateBindings) x).numbers, n.LiteralReadsBack := by
    intro x _ n hn
    have noNumbers : (binding (some templateBindings) x).numbers = [] := by
      rw [binding, Option.bind_some, templateBindings, Entry.find?, Entry.find?]
      split <;> rfl
    rw [noNumbers] at hn
    exact absurd hn List.not_mem_nil
  refine ⟨closed, known, acyclic, canonical, replaced, j, before, ?_⟩
  rw [← replaced, after, same noFloats]

end Store

end QueryDoc
