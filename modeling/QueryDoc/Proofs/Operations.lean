import QueryDoc.Proofs.Equality
import QueryDoc.Proofs.Grammar.RoundTrip
import QueryDoc.Request

/-!
The operation that a request asks for. What an operation is found by does not depend on the values
in a document, so that it is the same one in a document that was printed and read back. A request
for a document names an operation of its text, or none.
-/

namespace QueryDoc

variable {V W Ref : Type} {ops : List (Operation V)} {name : Option String}

/-- What the operations of a document have to be for a name, or no name, to have a result: the first
operation of the name, or the only operation if there is no name. -/
inductive Selects : List (Operation V) → Option String → Except Error (Operation V) → Prop
  | first {before after : List (Operation V)} {op : Operation V} {n : String} :
      op.name = some n → (∀ x ∈ before, x.name ≠ some n) →
      Selects (before ++ op :: after) (some n) (.ok op)
  | unknown {ops : List (Operation V)} {n : String} : (∀ x ∈ ops, x.name ≠ some n) →
      Selects ops (some n) (.error (.unknownOperation n))
  | only {op : Operation V} : Selects [op] none (.ok op)
  | missing : Selects [] none (.error .noOperation)
  | several {op op' : Operation V} {ops : List (Operation V)} :
      Selects (op :: op' :: ops) none (.error .severalOperations)

theorem Selects.map {result : Except Error (Operation V)} (h : Selects ops name result)
    (g : V → W) :
    Selects (ops.map (Operation.map g)) name (result.map (Operation.map g)) := by
  cases h with
  | first named others =>
      rw [List.map_append, List.map_cons]
      refine .first named fun x hx => ?_
      obtain ⟨y, hy, rfl⟩ := List.mem_map.mp hx
      exact others y hy
  | unknown others =>
      refine .unknown fun x hx => ?_
      obtain ⟨y, hy, rfl⟩ := List.mem_map.mp hx
      exact others y hy
  | only => exact .only
  | missing => exact .missing
  | several => exact .several

namespace Document

variable {ops : List (Operation V)}

/-- A name is looked for from the front. -/
theorem operation_some (ops : List (Operation V)) (n : String) :
    (mk ops).operation (some n) =
      match ops.find? (·.name = some n) with
      | some op => .ok op
      | none => .error (.unknownOperation n) := by
  rw [operation, position]
  cases found : ops.findFinIdx? (·.name = some n) with
  | none =>
      rw [List.findFinIdx?_eq_none_iff] at found
      rw [List.find?_eq_none.mpr found]
      rfl
  | some i =>
      rw [List.findFinIdx?_eq_some_iff] at found
      have first : ops.find? (·.name = some n) = some ops[i] := by
        rw [List.find?_eq_some_iff_getElem]
        refine ⟨found.1, i, i.isLt, rfl, fun j hj => ?_⟩
        simpa using found.2 ⟨j, Nat.lt_trans hj i.isLt⟩ hj
      rw [first]
      rfl

/-- Each name has one result, and so has no name. -/
theorem operation_eq_iff {result : Except Error (Operation V)} :
    (mk ops).operation name = result ↔ Selects ops name result := by
  constructor
  · rintro rfl
    cases name with
    | some n =>
        rw [operation_some]
        cases found : ops.find? (·.name = some n) with
        | none => exact .unknown fun x hx => by simpa using List.find?_eq_none.mp found x hx
        | some op =>
            obtain ⟨named, before, after, rfl, others⟩ := List.find?_eq_some_iff_append.mp found
            exact .first (of_decide_eq_true named) fun x hx => by simpa using others x hx
    | none =>
        obtain _ | ⟨op, _ | ⟨op', ops⟩⟩ := ops
        · exact .missing
        · exact .only
        · exact .several
  · intro selects
    cases selects with
    | @first before after op n named others =>
        have found : (before ++ op :: after).find? (·.name = some n) = some op := by
          rw [List.find?_eq_some_iff_append]
          exact ⟨decide_eq_true named, before, after, rfl, fun x hx => by simpa using others x hx⟩
        rw [operation_some, found]
    | @unknown _ n others =>
        have missing : ops.find? (·.name = some n) = none :=
          List.find?_eq_none.mpr fun x hx => by simpa using others x hx
        rw [operation_some, missing]
    | only | missing | several => rfl

theorem exists_operation {d : Document V} {n : String}
    (h : ∃ op ∈ d.operations, op.name = some n) : ∃ op, d.operation (some n) = .ok op := by
  obtain ⟨op, hop, named⟩ := h
  have selected := operation_some d.operations n
  cases found : d.operations.find? (·.name = some n) with
  | none => exact absurd named (by simpa using List.find?_eq_none.mp found op hop)
  | some first => exact ⟨first, by rw [selected, found]⟩

/-- Values have no part in finding an operation. -/
theorem operation_map (g : V → W) (d : Document V) (name : Option String) :
    (d.map g).operation name = (d.operation name).map (Operation.map g) :=
  operation_eq_iff.mpr ((operation_eq_iff.mp rfl).map g)

end Document

namespace Grammar

variable {value : V → Layout Ref} {object : Ref → String} {tokens : V → List Token}
  {result : V → Value ObjectTree} {good : Bool → V → Prop} {d : Document V}

/-- A document is read from its text, if its values are. -/
theorem read_text (form : IsDocument good d)
    (scans : ∀ constant v, good constant v → Scans ((value v).text object) (tokens v))
    (reads : ∀ constant v, good constant v → ReadsAs constant (tokens v) (result v)) :
    read ((Layout.ofDocument value 0 d).text object) = some (d.map result) := by
  have tokenized := scans_document scans form 0 [] nofun
  rw [List.append_nil, tokens?, Option.map_some, List.append_nil] at tokenized
  exact read_eq reads form tokenized

end Grammar

namespace Store

variable {s : Store} {n : Node (Value ObjectId)}

theorem print_error_iff (s : Store) (n : Node (Value ObjectId)) :
    (∃ e, s.print n = .error e) ↔ ∃ o, s.NodeReaches n o ∧ s.OnCycle o := by
  have free := visitAll_refs_eq_none_iff s [] n
  have error := errorOf_print s n
  cases visited : s.visitAll [] n.refs with
  | none =>
      obtain ⟨text, printed⟩ := errorOf_eq_none_iff.mp (error.trans (congrArg _ visited))
      simpa [printed] using free.mp visited
  | some f =>
      cases printed : s.print n with
      | ok text => simp [printed, visited] at error
      | error e => simpa [visited] using free

theorem kind_of_print {e : Error} (failed : s.print n = .error e) : e.kind = .cyclicReference := by
  have error := errorOf_print s n
  rw [failed, errorOf_error, eq_comm, Option.map_eq_some_iff] at error
  obtain ⟨f, visited, rfl⟩ := error
  exact visitAll_error visited

end Store

namespace Request

open Grammar (IsDocument)

variable {s : Store} {d : Document (Value ObjectId)}

/-- A name that no operation has is found out before anything is printed. -/
theorem ofDocument_of_unknown {n : String} (h : ∀ op ∈ d.operations, op.name ≠ some n) :
    ofDocument s d (some n) = .error (.unknownOperation n) := by
  have missing : d.operation (some n) = .error (.unknownOperation n) :=
    Document.operation_eq_iff.mpr (.unknown h)
  rw [ofDocument, missing]
  rfl

/-- With a name that some operation has, or with none, only printing can fail. -/
theorem ofDocument_of_known (known : ∀ n, name = some n → ∃ op ∈ d.operations, op.name = some n) :
    ofDocument s d name =
      (s.print (.document d)).map fun query => { query := query, operationName := name } := by
  cases name with
  | none =>
      rw [ofDocument]
      cases s.print (.document d) <;> rfl
  | some n =>
      obtain ⟨op, found⟩ := Document.exists_operation (known n rfl)
      rw [ofDocument, found]
      cases s.print (.document d) <;> rfl

/-- The text of a document without cycles is read as the document. -/
theorem read_query {text : String} (form : IsDocument s.Spells d)
    (acyclic : ∀ o, s.NodeReaches (.document d) o → ¬ s.OnCycle o)
    (printed : s.print (.document d) = .ok text) :
    Grammar.read text = some (d.map s.plainValue) := by
  have clear : ∀ o ∈ (Node.document d).refs, s.Clear [] o :=
    Store.clear_of_reaches fun o ho => ⟨List.not_mem_nil, acyclic o ho⟩
  have good : IsDocument (fun constant v => s.Spells constant v ∧ ∀ r ∈ v.refs, s.Clear [] r) d :=
    form.imp fun v hv _ spells =>
      ⟨spells, fun r hr => clear r (List.mem_flatMap_of_mem hv hr)⟩
  have scans : ∀ constant v, (s.Spells constant v ∧ ∀ r ∈ v.refs, s.Clear [] r) →
      Grammar.Scans ((Layout.ofValue v).text s.objectText) (s.valueTokens v) := by
    rintro constant v ⟨spells, clear⟩
    exact Store.scans_value spells.1 fun r hr => Store.scans_object (clear r hr) (spells.2 r hr)
  have reads : ∀ constant v, (s.Spells constant v ∧ ∀ r ∈ v.refs, s.Clear [] r) →
      Grammar.ReadsAs constant (s.valueTokens v) (s.plainValue v) := by
    rintro constant v ⟨spells, clear⟩
    exact Store.readsAs_value spells.1 fun r hr =>
      Store.readsAs_object (clear r hr) (spells.2 r hr)
  rw [Store.print_text clear] at printed
  cases printed
  exact Grammar.read_text good scans reads

/-- A request for a document is made unless no operation has the name that is asked for, which is
noticed first, or a cycle can be reached. It has the text of the document and the name, and no
variables. From its text the document is read back, and there the name, or no name, selects the
operation that it selects in the document, or fails with the same error. -/
theorem request_selects_in_its_text (s : Store) (d : Document (Value ObjectId))
    (name : Option String) :
    (∀ n, name = some n → (∀ op ∈ d.operations, op.name ≠ some n) →
      ofDocument s d name = .error (.unknownOperation n) ∧
        (Error.unknownOperation n).kind = .graphQL) ∧
    ((∀ n, name = some n → ∃ op ∈ d.operations, op.name = some n) →
      ((∃ e, ofDocument s d name = .error e) ↔
        ∃ o, s.NodeReaches (.document d) o ∧ s.OnCycle o) ∧
      (∀ e, ofDocument s d name = .error e →
        s.print (.document d) = .error e ∧ e.kind = .cyclicReference) ∧
      ∀ r, ofDocument s d name = .ok r →
        s.print (.document d) = .ok r.query ∧ r.operationName = name ∧ r.bindings = none ∧
        (IsDocument s.Spells d →
          Grammar.read r.query = some (d.map s.plainValue) ∧
          (d.map s.plainValue).operation r.operationName =
            (d.operation name).map (Operation.map s.plainValue) ∧
          Selects d.operations name (d.operation name))) := by
  refine ⟨?_, fun known => ?_⟩
  · rintro n rfl missing
    exact ⟨ofDocument_of_unknown missing, rfl⟩
  have fails := Store.print_error_iff s (.document d)
  rw [ofDocument_of_known known]
  cases printed : s.print (.document d) with
  | error e =>
      refine ⟨⟨fun _ => fails.mp ⟨e, printed⟩, fun _ => ⟨e, rfl⟩⟩, ?_, nofun⟩
      rintro _ ⟨⟩
      exact ⟨rfl, Store.kind_of_print printed⟩
  | ok text =>
      have acyclic : ∀ o, s.NodeReaches (.document d) o → ¬ s.OnCycle o := by
        intro o reached cycle
        obtain ⟨e, failed⟩ := fails.mpr ⟨o, reached, cycle⟩
        cases printed.symm.trans failed
      refine ⟨⟨nofun, fun ⟨o, reached, cycle⟩ => absurd cycle (acyclic o reached)⟩, nofun, ?_⟩
      rintro _ ⟨⟩
      exact ⟨rfl, rfl, rfl, fun form => ⟨read_query form acyclic printed,
        Document.operation_map s.plainValue d name, Document.operation_eq_iff.mp rfl⟩⟩

/-- An operation without a name, and two of one name. -/
def userOperations : Document (Value ObjectId) :=
  ⟨[{ kind := .query, selections := [{ name := "version" }] },
    { kind := .query, name := some "Users"
      selections := [{ name := "users", arguments := [⟨"filter", .object ⟨1⟩⟩] }] },
    { kind := .mutation, name := some "Users", selections := [{ name := "clear" }] }]⟩

theorem userOperations_form : IsDocument Store.filterStore.Spells userOperations := by
  refine ⟨List.cons_ne_nil _ _, List.forall_mem_cons.mpr ⟨?_, List.forall_mem_cons.mpr ⟨?_,
    List.forall_mem_singleton.mpr ?_⟩⟩⟩
  · refine ⟨nofun, nofun, List.cons_ne_nil _ _, List.forall_mem_singleton.mpr ?_⟩
    exact ⟨nofun, by decide, nofun, nofun⟩
  · have argument : Grammar.IsEntry (Store.filterStore.Spells false) ⟨"filter", .object ⟨1⟩⟩ :=
      ⟨by decide, trivial, fun r _ => Store.filterStore_spells r⟩
    refine ⟨?_, nofun, List.cons_ne_nil _ _, List.forall_mem_singleton.mpr ?_⟩
    · rintro n ⟨⟩
      decide
    · exact ⟨nofun, by decide, List.forall_mem_singleton.mpr argument, nofun⟩
  · refine ⟨?_, nofun, List.cons_ne_nil _ _, List.forall_mem_singleton.mpr ?_⟩
    · rintro n ⟨⟩
      decide
    · exact ⟨nofun, by decide, nofun, nofun⟩

theorem first_of_two_users_is_selected :
    (∀ n, some "Users" = some n → ∃ op ∈ userOperations.operations, op.name = some n) ∧
    IsDocument Store.filterStore.Spells userOperations ∧
    ∃ r d' op, ofDocument Store.filterStore userOperations (some "Users") = .ok r ∧
      Grammar.read r.query = some d' ∧ d'.operation r.operationName = .ok op ∧
      op.kind = .query := by
  have known : ∀ n, some "Users" = some n → ∃ op ∈ userOperations.operations, op.name = some n := by
    rintro n ⟨⟩
    exact ⟨_, List.mem_cons_of_mem _ (List.mem_cons_self ..), rfl⟩
  have free : Store.filterStore.visitAll [] (Node.document userOperations).refs = none := by
    decide +kernel
  obtain ⟨fails, -, result⟩ :=
    (request_selects_in_its_text Store.filterStore userOperations (some "Users")).2 known
  refine ⟨known, userOperations_form, ?_⟩
  cases made : ofDocument Store.filterStore userOperations (some "Users") with
  | error e =>
      obtain ⟨o, reached, cycle⟩ := fails.mp ⟨e, made⟩
      exact absurd cycle ((Store.visitAll_refs_eq_none_iff ..).mp free o reached).2
  | ok r =>
      obtain ⟨-, -, -, selects⟩ := result r made
      obtain ⟨read, same, -⟩ := selects userOperations_form
      exact ⟨r, _, _, rfl, read, same, rfl⟩

end Request

end QueryDoc
