import QueryDoc.Proofs.Json.Reading
import QueryDoc.Request.Read

/-!
Request bodies that are written and read again. The reader of bodies takes one member after the
other, and each adds to what has been read the field that it was written for. So a request is read
from its text as it was, and the text as plain JSON is the JSON of the request.
-/

namespace QueryDoc.Request

open Json (Reads)

variable {r : Request} {d d' e : Draft} {m : Entry Json} {members : List (Entry Json)}

section Members

/-- The body has the query, the name if there is one, and the variables if there are any. -/
theorem mem_members_iff {e : Entry Json} :
    e ∈ r.members ↔ e = ⟨"query", .string r.query⟩ ∨
      (∃ name, r.operationName = some name ∧ e = ⟨"operationName", .string name⟩) ∨
      ∃ bindings, r.bindings = some bindings ∧ e = ⟨"variables", .object bindings⟩ := by
  obtain ⟨query, _ | name, _ | bindings⟩ := r <;> simp [members]

/-- In order of the names, the name of the operation comes first. -/
theorem toJson_eq (r : Request) :
    r.toJson = .object
      ((r.operationName.map fun name => ⟨"operationName", .string name⟩).toList ++
        ⟨"query", .string r.query⟩ ::
        (r.bindings.map fun bindings => ⟨"variables", .object bindings⟩).toList) := by
  have nameFirst : "operationName" < "query" := by decide
  have bindingsLast : ¬ "variables" < "query" := by decide
  have bindingsAfter : ¬ "variables" < "operationName" := by decide
  obtain ⟨query, _ | _, _ | _⟩ := r <;>
    simp [toJson, members, Json.ofEntries, NameMap.ofEntries, NameMap.insert, nameFirst,
      bindingsLast, bindingsAfter]

theorem mem_ofEntries_members {e : Entry Json} :
    e ∈ NameMap.ofEntries r.members ↔ e ∈ r.members := by
  rw [Json.object.inj r.toJson_eq]
  obtain ⟨query, _ | name, _ | bindings⟩ := r <;> simp [members, or_comm, or_left_comm, or_assoc]

theorem depth_members (r : Request) : (Json.object r.members).depth = r.toJson.depth := by
  rw [toJson_eq]
  obtain ⟨query, _ | _, _ | _⟩ := r <;> simp [members, Json.depth, Json.memberDepth]

/-- All that nests in a body, and all numbers in it, belong to the variables. -/
theorem toJson_of_bindings {bindings : Bindings} (present : r.bindings = some bindings) :
    r.toJson.depth = (Json.object bindings).depth + 1 ∧
      r.toJson.numbers = (Json.object bindings).numbers := by
  rw [toJson_eq, present]
  cases r.operationName <;>
    simp [Json.depth, Json.memberDepth, Json.numbers, Json.memberNumbers]

end Members

section Reading

/-- Reading the member turns one draft into the other, whatever follows. -/
def Turns (m : Entry Json) (d d' : Draft) : Prop :=
  ∀ ts, readMember d m.name (.colon :: (m.value.tokens ++ ts)) = .ok (d', ts)

theorem readMembers_more {name : String} {ts rest : List Token}
    (read : readMember d name ts = .ok (d', .comma :: rest)) :
    readMembers d (.string (some name) :: ts) = readMembers d' rest := by
  rw [readMembers]
  split <;> rename_i result <;> rw [read] at result <;> cases result
  · rfl
  · rename_i notMore _
    exact (notMore _ _ rfl).elim

theorem readMembers_last {name : String} {ts rest : List Token}
    (read : readMember d name ts = .ok (d', .closeObject :: rest)) :
    readMembers d (.string (some name) :: ts) = .ok (d', rest) := by
  rw [readMembers]
  split <;> rename_i result <;> rw [read] at result <;> cases result
  · rfl
  · rename_i notLast
    exact (notLast _ _ rfl).elim

theorem readMembers_fault {name : String} {ts : List Token} {fault : ReadFault}
    (read : readMember d name ts = .error fault) :
    readMembers d (.string (some name) :: ts) = .error fault := by
  rw [readMembers]
  split <;> rename_i result <;> rw [read] at result <;> cases result
  rfl

theorem turns_query (absent : d.query = none) (query : String) :
    Turns ⟨"query", .string query⟩ d { d with query := some query } := by
  intro ts
  simp [readMember, absent, Json.tokens, readString, Except.map]

theorem turns_operationName (absent : d.operationName = none) (name : String) :
    Turns ⟨"operationName", .string name⟩ d { d with operationName := some (some name) } := by
  intro ts
  simp [readMember, absent, Json.tokens, readName, readString, Except.map]

theorem turns_variables (absent : d.bindings = none) {bindings : Bindings}
    (reads : Reads (.object bindings)) (room : (Json.object bindings).depth < Json.depthLimit) :
    Turns ⟨"variables", .object bindings⟩ d { d with bindings := some (some bindings) } := by
  intro ts
  have read := reads (Json.depthLimit - 1) [] ts (by rw [List.length_nil]; omega)
  rw [Json.readNext] at read
  have all : readBindings ((Json.object bindings).tokens ++ ts) = .ok (some bindings, ts) := by
    rw [Json.tokens, List.cons_append] at read ⊢
    rw [readBindings, read]
  simp [readMember, absent, all, Except.map]

/-- Reading the members one after the other turns one draft into another. -/
inductive TurnsAll : List (Entry Json) → Draft → Draft → Prop
  | nil {d : Draft} : TurnsAll [] d d
  | cons {m : Entry Json} {members : List (Entry Json)} {d d' e : Draft} :
      Turns m d d' → TurnsAll members d' e → TurnsAll (m :: members) d e

theorem readMembers_all (first : Turns m d d') (others : TurnsAll members d' e)
    (ts : List Token) :
    readMembers d (Json.entryTokens m ++ (Json.moreMembers members ++ .closeObject :: ts)) =
      .ok (e, ts) := by
  induction others generalizing m d with
  | nil => exact readMembers_last (first _)
  | @cons n members _ _ _ next _ ih =>
      have more : Json.moreMembers (n :: members) =
          .comma :: (Json.entryTokens n ++ Json.moreMembers members) := rfl
      have read := readMembers_more (first (.comma :: (Json.entryTokens n ++
        (Json.moreMembers members ++ .closeObject :: ts))))
      rw [more, List.cons_append, List.append_assoc]
      exact read.trans (ih next)

/-- A request whose variables can be read is read from its tokens. -/
theorem ofTokens_members (h : ∀ bindings, r.bindings = some bindings →
      Reads (.object bindings) ∧ (Json.object bindings).depth < Json.depthLimit) :
    ofTokens (Json.object r.members).tokens = .ok r := by
  obtain ⟨query, name, bindings⟩ := r
  have first := turns_query (d := {}) rfl query
  have others : TurnsAll (members ⟨query, name, bindings⟩).tail { query := some query }
      ⟨some query, name.map some, bindings.map some⟩ := by
    cases bindings with
    | none =>
        cases name with
        | none => exact .nil
        | some name => exact .cons (turns_operationName rfl name) .nil
    | some bindings =>
        obtain ⟨reads, room⟩ := h bindings rfl
        cases name with
        | none => exact .cons (turns_variables rfl reads room) .nil
        | some name =>
            exact .cons (turns_operationName rfl name) (.cons (turns_variables rfl reads room) .nil)
  have read := readMembers_all first others []
  have all : ofTokens (Json.object (members ⟨query, name, bindings⟩)).tokens =
      (readMembers {} (Json.entryTokens ⟨"query", .string query⟩ ++
        (Json.moreMembers (members ⟨query, name, bindings⟩).tail ++ [.closeObject])) >>=
          fun result => result.1.toRequest result.2) := rfl
  rw [all, read]
  cases name <;> cases bindings <;> rfl

end Reading

/-- A request is read from its text as it was, and the text as plain JSON is the request's JSON: an
object with the query, the name if there is one, and the variables if there are any, be they none.
That the text nests no deeper than the reader allows is asked for, and so is that the reader takes
the nearest float for the text of each float. -/
theorem body_is_read_back (r : Request)
    (canonical : ∀ bindings, r.bindings = some bindings → (Json.object bindings).Canonical)
    (shallow : r.toJson.depth ≤ Json.depthLimit)
    (nearest : ∀ n ∈ r.toJson.numbers, n.ReadAsNearest) :
    ofText r.text = .ok r ∧ Json.ofText? r.text = some r.toJson ∧
      ∃ members, r.toJson = .object members ∧ NameMap.Sorted members ∧
        ∀ e, e ∈ members ↔ e = ⟨"query", .string r.query⟩ ∨
          (∃ name, r.operationName = some name ∧ e = ⟨"operationName", .string name⟩) ∨
          ∃ bindings, r.bindings = some bindings ∧ e = ⟨"variables", .object bindings⟩ := by
  have scanned : Token.scan r.text.toList = (Json.object r.members).tokens := by
    have tokens := Json.scans (.object r.members) [] NumeralParts.separates_nil
    rwa [List.append_nil, Token.scan, List.append_nil] at tokens
  have readsBindings : ∀ bindings, r.bindings = some bindings →
      Reads (.object bindings) ∧ (Json.object bindings).depth < Json.depthLimit := by
    intro bindings present
    obtain ⟨depth, numbers⟩ := toJson_of_bindings present
    rw [numbers] at nearest
    exact ⟨Json.reads _ (canonical bindings present) nearest, by omega⟩
  have values : ∀ m ∈ r.members, m.value.Reads := by
    intro m hm
    rcases mem_members_iff.mp hm with rfl | ⟨name, -, rfl⟩ | ⟨bindings, present, rfl⟩
    · exact Json.reads_string r.query
    · exact Json.reads_string name
    · exact (readsBindings bindings present).1
  refine ⟨?_, ?_, NameMap.ofEntries r.members, rfl, NameMap.sorted_ofEntries _, ?_⟩
  · rw [ofText, scanned]
    exact ofTokens_members readsBindings
  · have room : ([] : List Json.Frame).length + (Json.object r.members).depth ≤
        Json.depthLimit := by
      rw [depth_members, List.length_nil, Nat.zero_add]
      exact shallow
    have read := Json.readValue_members values room []
    rw [List.append_nil, Json.readNext] at read
    rw [Json.ofText?, scanned, read]
    rfl
  · intro e
    rw [mem_ofEntries_members, mem_members_iff]

/-- The query is a text with a text in it, and among the variables are the least integer, one tenth,
the negative zero and a text with all kinds of characters. -/
def searchRequest : Request where
  query := "query Search($at: Float) \x7b\n  find(at: $at, name: \"a\\n\")\n\x7d"
  operationName := some "Search"
  bindings := some [⟨"at", .array [.number (.int (-9223372036854775808) (by decide)),
      .number (.float (.ofBits _ 0x3FB999999999999A) (by decide)),
      .number (.float (.ofBits _ 0x8000000000000000) (by decide))]⟩,
    ⟨"name", .object [⟨"", .string "\x00\x1f\"\\/é😀"⟩]⟩]

theorem searchRequest_is_read_back :
    (∀ bindings, searchRequest.bindings = some bindings → (Json.object bindings).Canonical) ∧
    searchRequest.toJson.depth ≤ Json.depthLimit ∧
    (∀ n ∈ searchRequest.toJson.numbers, n.ReadAsNearest) ∧
    ofText searchRequest.text = .ok searchRequest ∧
    Json.ofText? searchRequest.text = some searchRequest.toJson := by
  have canonical : ∀ bindings, searchRequest.bindings = some bindings →
      (Json.object bindings).Canonical := by
    rintro _ ⟨⟩
    rw [Json.Canonical]
    refine ⟨List.pairwise_pair.mpr (by decide : "at" < "name"), ?_⟩
    simp [Json.Canonical, Json.CanonicalItems, Json.CanonicalMembers, NameMap.Sorted]
  have shallow : searchRequest.toJson.depth ≤ Json.depthLimit := by decide +kernel
  have nearest : ∀ n ∈ searchRequest.toJson.numbers, n.ReadAsNearest := by decide +kernel
  obtain ⟨request, json, -⟩ := body_is_read_back searchRequest canonical shallow nearest
  exact ⟨canonical, shallow, nearest, request, json⟩

end QueryDoc.Request
