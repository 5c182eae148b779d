import Mathlib.Data.Finset.Card
import Mathlib.Data.List.Sort
import QueryDoc.Proofs.Arguments
import QueryDoc.Proofs.Json.Same

/-!
Names that several fields of an object have. A search finds the first field with a name, while the
map of the fields and the JSON of the object have the last one, as a member for every name. A field
that is added is the last one, and is found by a search only if no other field has its name.
-/

namespace QueryDoc

namespace Entry

variable {α : Type} {es : List (Entry α)} {name : String} {v : α}

theorem find?_eq_find? (name : String) (es : List (Entry α)) :
    find? name es = (es.find? fun e => e.name = name).map value := by
  induction es with
  | nil => rfl
  | cons e es ih =>
      by_cases same : e.name = name <;> simp [find?, same, ih]

theorem isSome_find?_iff : (find? name es).isSome = true ↔ name ∈ names es := by
  simp [find?_eq_find?, names]

theorem find?_append (es fs : List (Entry α)) :
    find? name (es ++ fs) = (find? name es).or (find? name fs) := by
  simp only [find?_eq_find?, List.find?_append, Option.map_or]

theorem find?_singleton (e : Entry α) :
    find? name [e] = if e.name = name then some e.value else none := rfl

/-- What a search finds is the first field with the name. -/
theorem find?_eq_some_iff :
    find? name es = some v ↔
      ∃ before after, es = before ++ ⟨name, v⟩ :: after ∧ name ∉ names before := by
  simp only [find?_eq_find?, Option.map_eq_some_iff, List.find?_eq_some_iff_append, names,
    List.mem_map]
  constructor
  · rintro ⟨⟨other, w⟩, ⟨same, before, after, split, first⟩, rfl⟩
    obtain rfl : other = name := by simpa using same
    exact ⟨before, after, split, fun ⟨e, he, named⟩ => by simpa [named] using first e he⟩
  · rintro ⟨before, after, split, first⟩
    refine ⟨⟨name, v⟩, ⟨by simp, before, after, split, fun e he => ?_⟩, rfl⟩
    simpa using fun named => first ⟨e, he, named⟩

end Entry

namespace NameMap

variable {α : Type} {es : List (Entry α)} {name : String} {v : α}

theorem ofEntries_concat (es : List (Entry α)) (e : Entry α) :
    ofEntries (es ++ [e]) = insert e (ofEntries es) := by
  rw [ofEntries, ofEntries, List.foldl_append]
  rfl

theorem find?_ofEntries_concat (es : List (Entry α)) (e : Entry α) (name : String) :
    Entry.find? name (ofEntries (es ++ [e])) =
      if e.name = name then some e.value else Entry.find? name (ofEntries es) := by
  rw [ofEntries_concat, find?_insert]

theorem find?_ofEntries (es : List (Entry α)) (name : String) :
    Entry.find? name (ofEntries es) = Entry.find? name es.reverse := by
  induction es using List.reverseRecOn with
  | nil => rfl
  | append_singleton es e ih =>
      rw [find?_ofEntries_concat, ih, List.reverse_concat, Entry.find?]

/-- What a map has for a name is the last entry with the name. -/
theorem find?_ofEntries_eq_some_iff :
    Entry.find? name (ofEntries es) = some v ↔
      ∃ before after, es = before ++ ⟨name, v⟩ :: after ∧ name ∉ Entry.names after := by
  rw [find?_ofEntries, Entry.find?_eq_some_iff]
  constructor
  · rintro ⟨after, before, split, last⟩
    refine ⟨before.reverse, after.reverse, ?_, ?_⟩
    · simpa using congrArg List.reverse split
    · simpa [Entry.names] using last
  · rintro ⟨before, after, rfl, last⟩
    refine ⟨after.reverse, before.reverse, by simp, ?_⟩
    simpa [Entry.names] using last

theorem mem_names_ofEntries_iff : name ∈ Entry.names (ofEntries es) ↔ name ∈ Entry.names es := by
  rw [← Entry.isSome_find?_iff, find?_ofEntries, Entry.isSome_find?_iff]
  simp [Entry.names]

theorem nodup_names {m : NameMap α} (sorted : Sorted m) : (Entry.names m).Nodup :=
  List.pairwise_map.mpr (List.Pairwise.imp (fun before => Std.ne_of_lt before) sorted)

theorem find?_of_mem {m : NameMap α} (sorted : Sorted m) (member : ⟨name, v⟩ ∈ m) :
    Entry.find? name m = some v := by
  obtain ⟨before, after, split⟩ := List.append_of_mem member
  have distinct := nodup_names sorted
  rw [Entry.find?_eq_some_iff]
  refine ⟨before, after, split, fun earlier => ?_⟩
  rw [split, Entry.names, List.map_append, List.nodup_append] at distinct
  exact distinct.2.2 name earlier name (List.mem_cons_self ..) rfl

/-- Maps with the same entries are equal. -/
theorem ext_of_sorted {m m' : NameMap α} (sorted : Sorted m) (sorted' : Sorted m')
    (same : ∀ e, e ∈ m ↔ e ∈ m') : m = m' := by
  have : Std.Irrefl fun a b : Entry α => a.name < b.name := ⟨fun a => Std.lt_irrefl⟩
  have : Std.Antisymm fun a b : Entry α => a.name < b.name :=
    ⟨fun a b before after => absurd (Std.lt_trans before after) Std.lt_irrefl⟩
  exact List.Pairwise.eq_of_mem_iff sorted sorted' same

/-- A map has as many entries as there are names. -/
theorem length_ofEntries (es : List (Entry α)) :
    (ofEntries es).length = (Entry.names es).toFinset.card := by
  have same : (Entry.names (ofEntries es)).toFinset = (Entry.names es).toFinset :=
    List.toFinset.ext fun _ => mem_names_ofEntries_iff
  rw [← same, List.toFinset_card_of_nodup (nodup_names (sorted_ofEntries es)), Entry.names,
    List.length_map]

theorem length_ofEntries_le (es : List (Entry α)) : (ofEntries es).length ≤ es.length := by
  rw [length_ofEntries]
  simpa [Entry.names] using List.toFinset_card_le (Entry.names es)

/-- No entry is lost if and only if no two have one name. -/
theorem length_ofEntries_eq_iff :
    (ofEntries es).length = es.length ↔ (Entry.names es).Nodup := by
  have card := Multiset.toFinset_card_eq_card_iff_nodup (m := (Entry.names es : Multiset String))
  rw [length_ofEntries]
  simpa [Entry.names] using card

/-- Without repeated names the first entry with a name is the last one. -/
theorem find?_ofEntries_of_nodup (distinct : (Entry.names es).Nodup) :
    Entry.find? name (ofEntries es) = Entry.find? name es := by
  ext v
  rw [find?_ofEntries_eq_some_iff, Entry.find?_eq_some_iff]
  constructor
  all_goals
    rintro ⟨before, after, rfl, -⟩
    refine ⟨before, after, rfl, ?_⟩
    simp only [Entry.names, List.map_append, List.map_cons, List.nodup_append,
      List.nodup_cons] at distinct
  · exact fun h => distinct.2.2 name h name (List.mem_cons_self ..) rfl
  · exact distinct.2.1.1

end NameMap

namespace Store

variable {s : Store} {o : ObjectId} {es : List InputField} {f : InputField}

/-- The JSON that a value has if no cycle can be reached from it. -/
def jsonOf (s : Store) (bindings : Option Bindings) (v : Value ObjectId) : Json :=
  (s.unfold (.value v)).convert bindings

theorem jsonOf_eq (s : Store) (bindings : Option Bindings) (v : Value ObjectId) :
    s.jsonOf bindings v = (v.map (ObjectTree.json bindings ∘ s.tree)).json bindings := by
  rw [jsonOf, unfold, Input.convert, Input.map_map_value]
  rfl

theorem jsonOf_list (s : Store) (bindings : Option Bindings) (items : List (Value ObjectId)) :
    s.jsonOf bindings (.list items) = .array (items.map (s.jsonOf bindings)) := by
  rw [jsonOf_eq, Value.map_list, Value.json, Value.jsonItems_eq, List.map_map]
  exact congrArg Json.array (List.map_congr_left fun v _ => (jsonOf_eq s bindings v).symm)

theorem jsonOf_objects (s : Store) (bindings : Option Bindings) (os : List ObjectId) :
    s.jsonOf bindings (.objects os) = .array (os.map fun o => s.jsonOf bindings (.object o)) := by
  rw [jsonOf_eq, Value.map, Value.json]
  exact congrArg Json.array (List.map_congr_left fun o _ => (jsonOf_eq s bindings (.object o)).symm)

theorem refs_value (v : Value ObjectId) : (Node.value v).refs = v.refs := List.append_nil _

theorem valueJson_of_clear (bindings : Option Bindings) {v : Value ObjectId}
    (clear : ∀ p ∈ v.refs, s.Clear [] p) :
    s.valueJson bindings [] v = .ok (s.jsonOf bindings v) := by
  refine inputJson_unfold (i := .value v) bindings ?_
  rwa [Input.refs, Input.node, refs_value]

/-- The JSON of arguments is their map with the JSON of its values. -/
theorem argumentsJson_of_clear (bindings : Option Bindings)
    (clear : ∀ p ∈ fieldRefs es, s.Clear [] p) :
    s.inputJson bindings [] (.arguments es) =
      .ok (.object ((NameMap.ofEntries es).map (Entry.map (s.jsonOf bindings)))) := by
  have json := inputJson_unfold (i := .arguments es) bindings
    (by rwa [Input.refs, Input.node, refs_arguments])
  rw [json, unfold, Input.map, Input.convert, Input.map, Input.json, Json.ofEntries, List.map_map,
    List.map_map, ← NameMap.ofEntries_map]
  rfl

theorem objectJson_of_acyclic (bindings : Option Bindings)
    (acyclic : ∀ p, s.Reaches o p → ¬ s.OnCycle p) :
    s.valueJson bindings [] (.object o) =
      .ok (.object ((NameMap.ofEntries (s.fields o)).map (Entry.map (s.jsonOf bindings)))) := by
  have clear : ∀ p ∈ fieldRefs (s.fields o), s.Clear [] p :=
    fun p hp q reached => ⟨List.not_mem_nil, acyclic q (.head hp reached)⟩
  have json : s.valueJson bindings [] (.object o) = _ :=
    objectJson_of_not_onCycle List.not_mem_nil (acyclic o .refl)
  rw [json, argumentsJson_of_clear bindings clear]
  rfl

theorem jsonOf_object (bindings : Option Bindings) (clear : s.Clear [] o) :
    s.jsonOf bindings (.object o) =
      .object ((NameMap.ofEntries (s.fields o)).map (Entry.map (s.jsonOf bindings))) := by
  have below : ∀ p ∈ (Value.object o).refs, s.Clear [] p := List.forall_mem_singleton.mpr clear
  have json := objectJson_of_acyclic bindings fun p reached => (clear p reached).2
  rw [valueJson_of_clear bindings below, Except.ok.injEq] at json
  exact json

theorem clear_of_objectJson {bindings : Option Bindings} {j : Json}
    (converted : s.valueJson bindings [] (.object o) = .ok j) : s.Clear [] o := by
  rw [← visit_eq_none_iff, ← errorOf_objectJson s bindings]
  exact congrArg errorOf converted

theorem not_onCycle_append (has : s.Has o) (acyclic : ¬ s.OnCycle o)
    (apart : ¬ s.NodeReaches (.value f.value) o) : ¬ (s.append o f).OnCycle o := by
  intro cycle
  have added (x y : ObjectId) : (s.append o f).References x y →
      s.References x y ∨ x = o ∧ y ∈ f.value.refs :=
    (references_append_iff has).mp
  rcases transGen_of_added added cycle with old | ⟨-, p, hp, back⟩
  · exact acyclic old
  · exact apart ⟨p, refs_value f.value ▸ hp, back⟩

/-- With one more field, the object has the JSON that it would have before. -/
theorem objectJson_append (bindings : Option Bindings) (has : s.Has o)
    (acyclic : ∀ p, s.Reaches o p → ¬ s.OnCycle p)
    (apart : ∀ p, s.NodeReaches (.value f.value) p → p ≠ o ∧ ¬ s.OnCycle p) :
    (s.append o f).valueJson bindings [] (.object o) =
      .ok (.object ((NameMap.ofEntries (s.fields o ++ [f])).map
        (Entry.map (s.jsonOf bindings)))) := by
  have fresh : ¬ s.NodeReaches (.value f.value) o := fun reached => (apart o reached).1 rfl
  have still : ¬ (s.append o f).OnCycle o := not_onCycle_append has (acyclic o .refl) fresh
  have below : ∀ p ∈ fieldRefs (s.fields o ++ [f]), ∀ q, s.Reaches p q → q ≠ o ∧ ¬ s.OnCycle q := by
    intro p hp q reached
    rw [fieldRefs, List.flatMap_append, List.mem_append, List.flatMap_singleton] at hp
    rcases hp with old | new
    · refine ⟨?_, acyclic q (.head old reached)⟩
      rintro rfl
      exact acyclic q .refl (onCycle_of_returns old reached)
    · exact apart q ⟨p, (refs_value f.value).symm ▸ new, reached⟩
  have same : s.SameOutcomes (s.append o f) (.arguments (s.fields o ++ [f])) := by
    refine sameOutcomes_append ?_
    rintro ⟨p, hp, reached⟩
    exact (below p (refs_arguments _ ▸ hp) o reached).1 rfl
  have converted : (s.append o f).inputJson bindings [] (.arguments (s.fields o ++ [f])) =
      s.inputJson bindings [] (.arguments (s.fields o ++ [f])) :=
    Option.some.inj (same.converted bindings [])
  have clear : ∀ p ∈ fieldRefs (s.fields o ++ [f]), s.Clear [] p :=
    fun p hp q reached => ⟨List.not_mem_nil, (below p hp q reached).2⟩
  have json : (s.append o f).valueJson bindings [] (.object o) = _ :=
    objectJson_of_not_onCycle List.not_mem_nil still
  rw [json, fields_append_self f has, converted, argumentsJson_of_clear bindings clear]
  rfl

/-- The members of an object's JSON, the entries of its map and the names that a search finds are
those of its fields. The JSON and the map have the last field with a name and a search finds the
first one, so they differ at most where a name is repeated, and then a member is missing. A field
that is added takes the place of all others of its name in the JSON and in the map, while a search
finds it only if there is no other. -/
theorem views_of_fields_fit_together (s : Store) (o : ObjectId) (bindings : Option Bindings)
    (acyclic : ∀ p, s.Reaches o p → ¬ s.OnCycle p) :
    ∃ members, s.valueJson bindings [] (.object o) = .ok (.object members) ∧
      NameMap.Sorted members ∧
      (∀ k, (k ∈ Entry.names members ↔ k ∈ Entry.names (NameMap.ofEntries (s.fields o))) ∧
        (k ∈ Entry.names (NameMap.ofEntries (s.fields o)) ↔
          (Entry.find? k (s.fields o)).isSome) ∧
        ((Entry.find? k (s.fields o)).isSome ↔ ∃ f ∈ s.fields o, f.name = k)) ∧
      (∀ k v, Entry.find? k (NameMap.ofEntries (s.fields o)) = some v →
        ∃ j, Entry.find? k members = some j ∧ s.valueJson bindings [] v = .ok j) ∧
      (∀ k v, Entry.find? k (NameMap.ofEntries (s.fields o)) = some v ↔
        ∃ before after, s.fields o = before ++ ⟨k, v⟩ :: after ∧ k ∉ Entry.names after) ∧
      (∀ k v, Entry.find? k (s.fields o) = some v ↔
        ∃ before after, s.fields o = before ++ ⟨k, v⟩ :: after ∧ k ∉ Entry.names before) ∧
      ((Entry.names (s.fields o)).Nodup →
        ∀ k, Entry.find? k (NameMap.ofEntries (s.fields o)) = Entry.find? k (s.fields o)) ∧
      members.length = (Entry.names (s.fields o)).toFinset.card ∧
      members.length ≤ (s.fields o).length ∧
      (members.length = (s.fields o).length ↔ (Entry.names (s.fields o)).Nodup) ∧
      ∀ k v, s.Has o → (∀ p, s.NodeReaches (.value v) p → p ≠ o ∧ ¬ s.OnCycle p) →
        let t := s.append o ⟨k, v⟩
        ∃ j members', s.valueJson bindings [] v = .ok j ∧
          t.valueJson bindings [] (.object o) = .ok (.object members') ∧
          (∀ p, t.Reaches o p → ¬ t.OnCycle p) ∧
          ∀ name,
            Entry.find? name members' =
              (if k = name then some j else Entry.find? name members) ∧
            Entry.find? name (NameMap.ofEntries (t.fields o)) =
              (if k = name then some v
                else Entry.find? name (NameMap.ofEntries (s.fields o))) ∧
            Entry.find? name (t.fields o) =
              (Entry.find? name (s.fields o)).or (if k = name then some v else none) := by
  have member (es : List InputField) (k : String) :
      Entry.find? k ((NameMap.ofEntries es).map (Entry.map (s.jsonOf bindings))) =
        (Entry.find? k (NameMap.ofEntries es)).map (s.jsonOf bindings) :=
    NameMap.find?_map _ k _
  have length : ((NameMap.ofEntries (s.fields o)).map (Entry.map (s.jsonOf bindings))).length =
      (NameMap.ofEntries (s.fields o)).length := List.length_map _
  refine ⟨_, objectJson_of_acyclic bindings acyclic,
    NameMap.sorted_map _ (NameMap.sorted_ofEntries _), ?_, ?_,
    fun k v => NameMap.find?_ofEntries_eq_some_iff, fun k v => Entry.find?_eq_some_iff,
    fun distinct k => NameMap.find?_ofEntries_of_nodup distinct,
    length.trans (NameMap.length_ofEntries _), length.trans_le (NameMap.length_ofEntries_le _),
    length ▸ NameMap.length_ofEntries_eq_iff, ?_⟩
  · intro k
    refine ⟨?_, ?_, ?_⟩
    · rw [Entry.names, List.map_map]
      rfl
    · rw [NameMap.mem_names_ofEntries_iff, Entry.isSome_find?_iff]
    · rw [Entry.isSome_find?_iff, Entry.names, List.mem_map]
  · intro k v found
    obtain ⟨before, after, split, -⟩ := NameMap.find?_ofEntries_eq_some_iff.mp found
    have field : ⟨k, v⟩ ∈ s.fields o :=
      split ▸ List.mem_append_right before (List.mem_cons_self ..)
    have clear : ∀ p ∈ v.refs, s.Clear [] p := fun p hp q reached =>
      ⟨List.not_mem_nil, acyclic q (.head (mem_objectRefs field hp) reached)⟩
    exact ⟨_, by rw [member, found]; rfl, valueJson_of_clear bindings clear⟩
  · intro k v has apart t
    have fields : t.fields o = s.fields o ++ [⟨k, v⟩] := fields_append_self _ has
    have json := objectJson_append (f := ⟨k, v⟩) bindings has acyclic apart
    have clear : ∀ p ∈ v.refs, s.Clear [] p := fun p hp q reached =>
      ⟨List.not_mem_nil, (apart q ⟨p, (refs_value v).symm ▸ hp, reached⟩).2⟩
    refine ⟨_, _, valueJson_of_clear bindings clear, json, ?_, fun name => ⟨?_, ?_, ?_⟩⟩
    · exact fun p reached => (clear_of_objectJson json p reached).2
    · rw [member, member, NameMap.find?_ofEntries_concat, apply_ite (Option.map _)]
      rfl
    · rw [fields, NameMap.find?_ofEntries_concat]
    · rw [fields, Entry.find?_append, Entry.find?_singleton]

/-- An object with a name that is repeated, and an object that has it in a field. -/
def repeatingStore : Store :=
  ⟨#[[⟨"a", .int "1"⟩, ⟨"b", .bool true⟩, ⟨"a", .int "3"⟩], [⟨"x", .object ⟨0⟩⟩]]⟩

theorem repeated_name_has_one_member :
    (∀ p, repeatingStore.Reaches ⟨0⟩ p → ¬ repeatingStore.OnCycle p) ∧
    repeatingStore.Has ⟨0⟩ ∧
    (∀ p, repeatingStore.NodeReaches (.value (.string "c")) p →
      p ≠ ⟨0⟩ ∧ ¬ repeatingStore.OnCycle p) ∧
    (∃ members, repeatingStore.valueJson none [] (.object ⟨0⟩) = .ok (.object members) ∧
      members.length = 2 ∧ Entry.find? "a" members = some (.ofIntText "3")) ∧
    ∃ members, (repeatingStore.append ⟨0⟩ ⟨"a", .string "c"⟩).valueJson none [] (.object ⟨0⟩) =
      .ok (.object members) ∧ Entry.find? "a" members = some (.string "c") := by
  have free : repeatingStore.visitAll [] (Node.value (.object (ObjectId.mk 0))).refs = none := by
    decide +kernel
  have acyclic : ∀ p, repeatingStore.Reaches ⟨0⟩ p → ¬ repeatingStore.OnCycle p :=
    fun p reached => ((visitAll_refs_eq_none_iff ..).mp free p ⟨_, List.mem_singleton_self _,
      reached⟩).2
  have has : repeatingStore.Has ⟨0⟩ := by decide
  have apart : ∀ p, repeatingStore.NodeReaches (.value (.string "c")) p →
      p ≠ ⟨0⟩ ∧ ¬ repeatingStore.OnCycle p := fun _ ⟨_, hr, _⟩ => nomatch hr
  obtain ⟨members, json, -, -, member, -, -, -, count, -, -, appended⟩ :=
    views_of_fields_fit_together repeatingStore ⟨0⟩ none acyclic
  refine ⟨acyclic, has, apart, ⟨members, json, count, ?_⟩, ?_⟩
  · obtain ⟨j, found, converted⟩ := member "a" (.int "3") rfl
    rw [found, ← Except.ok.inj converted]
  · obtain ⟨j, members', converted, json', -, views⟩ := appended "a" (.string "c") has apart
    refine ⟨members', json', ?_⟩
    rw [(views "a").1, if_pos rfl, ← Except.ok.inj converted]

end Store

end QueryDoc
