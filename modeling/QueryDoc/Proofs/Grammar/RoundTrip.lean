import QueryDoc.Proofs.Grammar.Reading
import QueryDoc.Proofs.Grammar.Scanning

/-!
What is printed is read back. Objects are read back as trees, and lists that hold bytes or objects
only as plain lists, since the text does not tell these apart.
-/

namespace QueryDoc.Store

open Grammar (IsValue IsEntry IsDocument Scans ReadsAs)

variable {s : Store} {trail : Trail} {o : ObjectId} {constant : Bool}

/-- The tokens of an object. -/
def objectTokens (s : Store) (o : ObjectId) : List Grammar.Token := Grammar.treeTokens (s.tree o)

/-- The tokens of a value. -/
def valueTokens (s : Store) (v : Value ObjectId) : List Grammar.Token :=
  Grammar.valueTokens (v.map s.objectTokens)

/-- The tree that is read back where an object was written. -/
def plainTree (s : Store) (o : ObjectId) : ObjectTree := (s.tree o).plain

/-- The value that is read back where a value was written. -/
def plainValue (s : Store) (v : Value ObjectId) : Value ObjectTree := (v.map s.plainTree).plain

theorem objectTokens_eq (h : s.Clear trail o) :
    s.objectTokens o =
      Grammar.between '\x7b' '\x7d' ((s.fields o).flatMap (Grammar.entryTokens s.valueTokens)) := by
  rw [objectTokens, Grammar.treeTokens, fold_tree _ h, Grammar.objectTokens, List.flatMap_map]
  rfl

theorem plainTree_eq (h : s.Clear trail o) :
    s.plainTree o = .node ((s.fields o).map (Entry.map s.plainValue)) := by
  rw [plainTree, ObjectTree.plain, fold_tree _ h, List.map_map]
  rfl

theorem scans_value {v : Value ObjectId} (form : IsValue constant v)
    (h : ∀ r ∈ v.refs, Scans (s.objectText r) (s.objectTokens r)) :
    Scans ((Layout.ofValue v).text s.objectText) (s.valueTokens v) := by
  rw [Layout.text_ofValue]
  exact Grammar.scans_value form h

/-- Whether all fields of the objects that can be reached have the form of fields. -/
def SpellsObject (s : Store) (constant : Bool) (o : ObjectId) : Prop :=
  ∀ p, s.Reaches o p → ∀ f ∈ s.fields p, IsEntry (IsValue constant) f

theorem SpellsObject.below (h : s.SpellsObject constant o) {p : ObjectId}
    (hp : p ∈ s.objectRefs o) : s.SpellsObject constant p :=
  fun q hq => h q (.head hp hq)

theorem scans_object (h : s.Clear trail o) :
    s.SpellsObject constant o → Scans (s.objectText o) (s.objectTokens o) := by
  refine h.induct fun trail o clear ih form => ?_
  rw [objectText_eq clear, objectTokens_eq clear, objectLayout, Layout.ofFields,
    Layout.text_enclosed, List.map_map]
  refine (Grammar.encloses_braces.bracketed fun f hf => ?_).scans
  have entry := form o .refl f hf
  have objects : ∀ p ∈ f.value.refs, Scans (s.objectText p) (s.objectTokens p) := by
    intro p hp
    have hp := mem_objectRefs hf hp
    exact ih p hp ((clear_iff.mp clear).2 p hp) (form.below hp)
  have values : ∀ v : Value ObjectId, (IsValue constant v ∧
      ∀ r ∈ v.refs, Scans (s.objectText r) (s.objectTokens r)) →
      Scans ((Layout.ofValue v).text s.objectText) (s.valueTokens v) :=
    fun v good => scans_value good.1 good.2
  exact Grammar.scans_entry values ⟨entry.name, entry.value, objects⟩

theorem readsAs_value {v : Value ObjectId} (form : IsValue constant v)
    (h : ∀ r ∈ v.refs, ReadsAs constant (s.objectTokens r) (.object (s.plainTree r))) :
    ReadsAs constant (s.valueTokens v) (s.plainValue v) :=
  Grammar.readsAs_value form h

theorem readsAs_object (h : s.Clear trail o) :
    s.SpellsObject constant o →
      ReadsAs constant (s.objectTokens o) (.object (s.plainTree o)) := by
  refine h.induct fun trail o clear ih form => ?_
  rw [objectTokens_eq clear, plainTree_eq clear]
  refine Grammar.readsAs_object fun f hf => readsAs_value (form o .refl f hf).value fun p hp => ?_
  have hp := mem_objectRefs hf hp
  exact ih p hp ((clear_iff.mp clear).2 p hp) (form.below hp)

/-- Whether a value and all objects that it holds have the forms that the grammar wants. -/
def Spells (s : Store) (constant : Bool) (v : Value ObjectId) : Prop :=
  IsValue constant v ∧ ∀ r ∈ v.refs, s.SpellsObject constant r

/-- A document from which no cycle can be reached is printed, as a text that the reader of the
grammar takes as a whole, and as the same document. -/
theorem printed_document_is_read_back (s : Store) (d : Document (Value ObjectId))
    (form : IsDocument s.Spells d)
    (acyclic : ∀ o, s.NodeReaches (.document d) o → ¬ s.OnCycle o) :
    ∃ text, s.print (.document d) = .ok text ∧
      Grammar.read text = some (d.map s.plainValue) := by
  have clear : ∀ o ∈ (Node.document d).refs, s.Clear [] o :=
    clear_of_reaches fun o ho => ⟨List.not_mem_nil, acyclic o ho⟩
  have good : IsDocument (fun constant v => s.Spells constant v ∧ ∀ r ∈ v.refs, s.Clear [] r) d :=
    form.imp fun v hv _ spells =>
      ⟨spells, fun r hr => clear r (List.mem_flatMap_of_mem hv hr)⟩
  have scans := Grammar.scans_document (fun constant v h =>
    scans_value h.1.1 fun r hr => scans_object (h.2 r hr) (h.1.2 r hr)) good 0
  have tokenized := scans [] nofun
  rw [List.append_nil, Grammar.tokens?, Option.map_some, List.append_nil] at tokenized
  have read := Grammar.read_eq (fun constant v h =>
    readsAs_value h.1.1 fun r hr => readsAs_object (h.2 r hr) (h.1.2 r hr)) good tokenized
  exact ⟨_, print_text clear, read⟩

/-- A filter that holds another one twice. -/
def filterStore : Store :=
  ⟨#[[⟨"is", .string "a\"\n"⟩], [⟨"and", .objects [⟨0⟩, ⟨0⟩]⟩, ⟨"limit", .int "10"⟩]]⟩

/-- A query with a variable, an alias, arguments and selections. -/
def filterDocument : Document (Value ObjectId) :=
  ⟨[{ kind := .query
      definitions := [⟨"max", .nonNull (.list (.named "Float")), some (.list [.float "1.5e3"])⟩]
      selections :=
        [{ aliasName := some "all", name := "users"
           arguments := [⟨"filter", .object ⟨1⟩⟩, ⟨"max", .var "max"⟩, ⟨"key", .bytes [7, 255]⟩]
           selections := [{ name := "id" }] }] }]⟩

theorem filterStore_spells (o : ObjectId) : filterStore.SpellsObject false o := by
  rintro ⟨index⟩ - f hf
  match index with
  | 0 =>
      rw [List.mem_singleton.mp hf]
      exact ⟨by decide, trivial⟩
  | 1 =>
      rcases List.mem_cons.mp hf with rfl | hf
      · exact ⟨by decide, trivial⟩
      · rw [List.mem_singleton.mp hf]
        exact ⟨by decide, Grammar.isInt_repr 10⟩
  | n + 2 => nomatch hf

theorem filterDocument_form : IsDocument filterStore.Spells filterDocument := by
  have default : Grammar.IsFloat "1.5e3" :=
    ⟨['1'], ['.', '5'], ['e', '3'], rfl, ⟨[], ['1'], rfl, .inl rfl, by decide, .inr (by decide)⟩,
      .inr ⟨['5'], rfl, by decide⟩,
      .inr ⟨'e', [], ['3'], rfl, .inl rfl, .inl rfl, by decide⟩, nofun⟩
  refine ⟨List.cons_ne_nil _ _, ?_⟩
  intro op hop
  rw [List.mem_singleton.mp hop]
  refine ⟨nofun, ?_, List.cons_ne_nil _ _, ?_⟩
  · intro d hd
    rw [List.mem_singleton.mp hd]
    have float : Grammar.IsName "Float" := by decide
    refine ⟨by decide, ⟨float, nofun⟩, ?_⟩
    rintro v ⟨⟩
    exact ⟨⟨default, trivial⟩, nofun⟩
  · intro f hf
    rw [List.mem_singleton.mp hf]
    refine ⟨?_, by decide, ?_, ?_⟩
    · rintro n ⟨⟩
      decide
    · intro e he
      rcases List.mem_cons.mp he with rfl | he
      · exact ⟨by decide, trivial, fun r _ => filterStore_spells r⟩
      · rcases List.mem_cons.mp he with rfl | he
        · exact ⟨by decide, ⟨rfl, by decide⟩, nofun⟩
        · rw [List.mem_singleton.mp he]
          exact ⟨by decide, trivial, nofun⟩
    · intro g hg
      rw [List.mem_singleton.mp hg]
      exact ⟨nofun, by decide, nofun, nofun⟩

theorem filterDocument_is_read_back :
    IsDocument filterStore.Spells filterDocument ∧
    (∀ o, filterStore.NodeReaches (.document filterDocument) o → ¬ filterStore.OnCycle o) ∧
    ∃ text, filterStore.print (.document filterDocument) = .ok text ∧
      Grammar.read text = some (filterDocument.map filterStore.plainValue) := by
  have free : filterStore.visitAll [] (Node.document filterDocument).refs = none := by
    decide +kernel
  have acyclic : ∀ o, filterStore.NodeReaches (.document filterDocument) o →
      ¬ filterStore.OnCycle o :=
    fun o ho => ((visitAll_refs_eq_none_iff ..).mp free o ho).2
  exact ⟨filterDocument_form, acyclic,
    printed_document_is_read_back filterStore filterDocument filterDocument_form acyclic⟩

end QueryDoc.Store
