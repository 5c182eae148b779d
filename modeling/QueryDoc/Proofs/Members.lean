import QueryDoc.Proofs.Body
import QueryDoc.Proofs.Json.Spacing

/-!
Request bodies in any form. The reader fills a slot for each of the three members it knows, and a
slot takes one value of its type. So the values of these members alone decide on the request, in
whatever order they stand, among whatever other members, and however they are written.
-/

namespace QueryDoc.Request

open Json (WrittenAs)

section Slots

variable {α : Type}

/-- The values of all members with the name, in their order. -/
def valuesOf (name : String) (members : List (Entry Json)) : List Json :=
  (members.filter fun m => m.name = name).map Entry.value

def asString? : Json → Option String
  | .string text => some text
  | _ => none

def asName? : Json → Option (Option String)
  | .null => some none
  | .string text => some (some text)
  | _ => none

def asBindings? : Json → Option (Option Bindings)
  | .null => some none
  | .object given => some (some (NameMap.ofEntries (given.map (Entry.map Json.ordered))))
  | _ => none

/-- A slot that is free takes a value of its type. -/
def fill (read : Json → Option α) (slot : Option α) (v : Json) : Option (Option α) :=
  if slot.isSome then none else (read v).map some

/-- The draft with one more member. -/
def Draft.add (d : Draft) (m : Entry Json) : Option Draft :=
  if m.name = "query" then
    (fill asString? d.query m.value).map fun query => { d with query := query }
  else if m.name = "operationName" then
    (fill asName? d.operationName m.value).map fun name => { d with operationName := name }
  else if m.name = "variables" then
    (fill asBindings? d.bindings m.value).map fun bindings => { d with bindings := bindings }
  else some d

theorem valuesOf_cons (name : String) (m : Entry Json) (members : List (Entry Json)) :
    valuesOf name (m :: members) =
      if m.name = name then m.value :: valuesOf name members else valuesOf name members := by
  by_cases same : m.name = name <;> simp [valuesOf, same]

/-- The slots are filled independently, each with the values of its name. -/
theorem add_all (d : Draft) (members : List (Entry Json)) :
    members.foldlM Draft.add d = (do
      let query ← (valuesOf "query" members).foldlM (fill asString?) d.query
      let name ← (valuesOf "operationName" members).foldlM (fill asName?) d.operationName
      let bindings ← (valuesOf "variables" members).foldlM (fill asBindings?) d.bindings
      return ⟨query, name, bindings⟩) := by
  induction members generalizing d with
  | nil => rfl
  | cons m members ih =>
      rw [List.foldlM_cons, Draft.add]
      by_cases query : m.name = "query"
      · simp only [valuesOf_cons, query, if_true, String.reduceEq, if_false, List.foldlM_cons]
        cases fill asString? d.query m.value with
        | none => rfl
        | some slot => exact ih { d with query := slot }
      by_cases name : m.name = "operationName"
      · simp only [valuesOf_cons, name, if_true, String.reduceEq, if_false, List.foldlM_cons]
        cases fill asName? d.operationName m.value with
        | none => cases (valuesOf "query" members).foldlM (fill asString?) d.query <;> rfl
        | some slot => exact ih { d with operationName := slot }
      by_cases bindings : m.name = "variables"
      · simp only [valuesOf_cons, bindings, if_true, String.reduceEq, if_false, List.foldlM_cons]
        cases fill asBindings? d.bindings m.value with
        | none =>
            cases (valuesOf "query" members).foldlM (fill asString?) d.query with
            | none => rfl
            | some _ =>
                cases (valuesOf "operationName" members).foldlM (fill asName?) d.operationName <;>
                  rfl
        | some slot => exact ih { d with bindings := slot }
      · simp only [valuesOf_cons, query, name, bindings, if_false]
        exact ih d

/-- A slot ends with a value if it was given one, and stays free without any. -/
def slotOf (read : Json → Option α) : List Json → Option (Option α)
  | [] => some none
  | [v] => (read v).map some
  | _ :: _ :: _ => none

theorem fill_all (read : Json → Option α) (vs : List Json) :
    vs.foldlM (fill read) none = slotOf read vs := by
  match vs with
  | [] => rfl
  | [v] =>
      rw [List.foldlM_cons, slotOf, fill, Option.isSome_none, if_neg Bool.false_ne_true]
      cases read v <;> rfl
  | v :: w :: vs =>
      rw [List.foldlM_cons, slotOf, fill, Option.isSome_none, if_neg Bool.false_ne_true]
      cases read v <;> rfl

theorem slotOf_perm (read : Json → Option α) {vs ws : List Json} (h : vs.Perm ws) :
    slotOf read vs = slotOf read ws := by
  match ws with
  | [] => rw [h.eq_nil]
  | [w] => rw [h.eq_singleton]
  | w :: w' :: ws =>
      match vs with
      | [] => cases h.length_eq
      | [v] => cases h.length_eq
      | v :: v' :: vs => rfl

/-- The request that the members make up, if they make up one. -/
def ofMembers (members : List (Entry Json)) : Option Request := do
  let query ← slotOf asString? (valuesOf "query" members)
  let name ← slotOf asName? (valuesOf "operationName" members)
  let bindings ← slotOf asBindings? (valuesOf "variables" members)
  query.map fun query => ⟨query, name.join, bindings.join⟩

def Known (m : Entry Json) : Bool :=
  m.name = "query" ∨ m.name = "operationName" ∨ m.name = "variables"

theorem ofMembers_perm {members others : List (Entry Json)}
    (h : (others.filter Known).Perm (members.filter Known)) :
    ofMembers others = ofMembers members := by
  have among (name : String) (known : ∀ v, Known ⟨name, v⟩ = true) (ms : List (Entry Json)) :
      valuesOf name ms = valuesOf name (ms.filter Known) := by
    rw [valuesOf, valuesOf, List.filter_filter]
    refine congrArg _ (List.filter_congr fun m _ => ?_)
    by_cases same : m.name = name
    · rw [decide_eq_true same, Bool.true_and, ← known m.value, ← same]
    · rw [decide_eq_false same, Bool.false_and]
  have values (name : String) (known : ∀ v, Known ⟨name, v⟩ = true) :
      (valuesOf name others).Perm (valuesOf name members) := by
    rw [among name known, among name known members]
    exact (h.filter _).map _
  rw [ofMembers, ofMembers, slotOf_perm _ (values "query" fun _ => rfl),
    slotOf_perm _ (values "operationName" fun _ => rfl),
    slotOf_perm _ (values "variables" fun _ => rfl)]

/-- The members make up the request: its query is given once, its other parts at most once, and a
part that is absent may be given as null. -/
structure MadeOf (r : Request) (members : List (Entry Json)) : Prop where
  query : valuesOf "query" members = [.string r.query]
  operationName : match r.operationName with
    | some name => valuesOf "operationName" members = [.string name]
    | none => valuesOf "operationName" members = [] ∨ valuesOf "operationName" members = [.null]
  bindings : match r.bindings with
    | some bindings => ∃ given, valuesOf "variables" members = [.object given] ∧
        bindings = NameMap.ofEntries (given.map (Entry.map Json.ordered))
    | none => valuesOf "variables" members = [] ∨ valuesOf "variables" members = [.null]

theorem slotOf_string_iff {vs : List Json} {query : String} :
    slotOf asString? vs = some (some query) ↔ vs = [.string query] := by
  fun_cases slotOf asString? vs with
  | case1 => simp
  | case2 v => cases v <;> simp [asString?]
  | case3 => simp

theorem slotOf_name_iff {vs : List Json} {name : Option String} :
    (slotOf asName? vs).map Option.join = some name ↔
      match name with
      | some name => vs = [.string name]
      | none => vs = [] ∨ vs = [.null] := by
  fun_cases slotOf asName? vs with
  | case1 => cases name <;> simp
  | case2 v => cases v <;> cases name <;> simp [asName?]
  | case3 => cases name <;> simp

theorem slotOf_bindings_iff {vs : List Json} {bindings : Option Bindings} :
    (slotOf asBindings? vs).map Option.join = some bindings ↔
      match bindings with
      | some bindings => ∃ given, vs = [.object given] ∧
          bindings = NameMap.ofEntries (given.map (Entry.map Json.ordered))
      | none => vs = [] ∨ vs = [.null] := by
  fun_cases slotOf asBindings? vs with
  | case1 => cases bindings <;> simp
  | case2 v => cases v <;> cases bindings <;> simp [asBindings?, eq_comm]
  | case3 => cases bindings <;> simp

theorem ofMembers_eq_some_iff {r : Request} {members : List (Entry Json)} :
    ofMembers members = some r ↔ r.MadeOf members := by
  constructor
  · intro made
    rw [ofMembers] at made
    simp only [Option.bind_eq_bind, Option.bind_eq_some_iff, Option.map_eq_some_iff] at made
    obtain ⟨_, query, name, hname, bindings, hbindings, q, rfl, rfl⟩ := made
    refine ⟨slotOf_string_iff.mp query, slotOf_name_iff.mp ?_, slotOf_bindings_iff.mp ?_⟩
    · rw [hname, Option.map_some]
    · rw [hbindings, Option.map_some]
  · rintro ⟨query, name, bindings⟩
    obtain ⟨_, hname, joinName⟩ := Option.map_eq_some_iff.mp (slotOf_name_iff.mpr name)
    obtain ⟨_, hbindings, joinBindings⟩ :=
      Option.map_eq_some_iff.mp (slotOf_bindings_iff.mpr bindings)
    rw [ofMembers, slotOf_string_iff.mpr query, hname, hbindings]
    simp only [Option.bind_eq_bind, Option.bind_some, Option.map_some, joinName, joinBindings]

end Slots

section Reading

variable {v : Json} {m : Entry Json} {ts rest : List Token} {α : Type}

/-- A part of a value's type is taken, and any other is a mismatch. -/
def taken (part : Option α) (rest : List Token) : Except ReadFault (α × List Token) :=
  part.elim (.error .mismatch) fun a => .ok (a, rest)

theorem unwanted_written (h : v.WrittenAs ts) (rest : List Token) :
    unwanted (ts ++ rest) = .mismatch := by
  cases h with
  | number read => simp [unwanted, read]
  | _ => rfl

theorem readString_written (h : v.WrittenAs ts) (rest : List Token) :
    readString (ts ++ rest) = taken (asString? v) rest := by
  have fault := unwanted_written h rest
  cases h with
  | string text => rfl
  | _ => exact congrArg Except.error fault

theorem readName_written (h : v.WrittenAs ts) (rest : List Token) :
    readName (ts ++ rest) = taken (asName? v) rest := by
  have string := readString_written h rest
  cases h with
  | null => rfl
  | string text => rfl
  | _ => exact congrArg (Except.map (Prod.map some id)) string

theorem readBindings_written (h : v.WrittenAs ts) (room : v.depth < Json.depthLimit)
    (rest : List Token) : readBindings (ts ++ rest) = taken (asBindings? v) rest := by
  have fault := unwanted_written h rest
  have read := h.readsAs (Json.depthLimit - 1) [] rest (by rw [List.length_nil]; omega)
  cases h with
  | null => rfl
  | object _ =>
      rw [Json.readNext, List.cons_append] at read
      rw [List.cons_append, readBindings, read, Json.ordered, Json.orderedMembers_eq]
      rfl
  | _ => exact congrArg Except.error fault

/-- Reading a member adds it to the draft, if it is one that the draft takes. -/
theorem readMember_written (h : m.value.WrittenAs ts) (room : m.value.depth < Json.depthLimit)
    (d : Draft) (rest : List Token) :
    readMember d m.name (.colon :: (ts ++ rest)) = taken (d.add m) rest := by
  rw [readMember, Draft.add]
  by_cases query : m.name = "query"
  · simp only [query, true_and, String.reduceEq, false_and, or_false, if_true, fill,
      readString_written h]
    cases d.query.isSome <;> cases asString? m.value <;> rfl
  by_cases name : m.name = "operationName"
  · simp only [name, true_and, String.reduceEq, false_and, or_false, false_or, if_true, if_false,
      fill, readName_written h]
    cases d.operationName.isSome <;> cases asName? m.value <;> rfl
  by_cases bindings : m.name = "variables"
  · simp only [bindings, true_and, String.reduceEq, false_and, false_or, if_true, if_false, fill,
      readBindings_written h room]
    cases d.bindings.isSome <;> cases asBindings? m.value <;> rfl
  · simp only [query, name, bindings, false_and, or_false, if_false, h.skips rest]
    rfl

section Rows

variable {β : Type} {xs : List β} {member : β → Entry Json} {parts : β → List Token}

/-- Reading members up to the closing brace adds them one after the other. -/
theorem readMembers_row (h : ∀ x ∈ xs, (member x).value.WrittenAs (parts x))
    (room : ∀ x ∈ xs, (member x).value.depth < Json.depthLimit) (nonempty : xs ≠ []) (d : Draft)
    (rest : List Token) :
    readMembers d (Json.row .comma (Json.namedTokens member parts) xs ++ .closeObject :: rest) =
      taken ((xs.map member).foldlM Draft.add d) rest := by
  cases xs with
  | nil => exact absurd rfl nonempty
  | cons x xs =>
      induction xs generalizing x d with
      | nil =>
          have read := readMember_written (h x (List.mem_singleton_self x))
            (room x (List.mem_singleton_self x)) d (.closeObject :: rest)
          rw [Json.row_singleton, Json.namedTokens, List.cons_append, List.cons_append,
            List.map_singleton, List.foldlM_cons]
          cases added : d.add (member x) with
          | none =>
              rw [added] at read
              exact readMembers_fault read
          | some d' =>
              rw [added] at read
              exact readMembers_last read
      | cons y ys ih =>
          have others (d' : Draft) := ih d' y (fun z hz => h z (List.mem_cons_of_mem x hz))
            (fun z hz => room z (List.mem_cons_of_mem x hz)) (List.cons_ne_nil y ys)
          have read := readMember_written (h x (List.mem_cons_self ..))
            (room x (List.mem_cons_self ..)) d
            (.comma :: (Json.row .comma (Json.namedTokens member parts) (y :: ys) ++
              .closeObject :: rest))
          rw [Json.row_cons_cons, Json.namedTokens, List.cons_append, List.cons_append,
            List.cons_append, List.cons_append, List.append_assoc, List.cons_append, List.map_cons,
            List.foldlM_cons]
          cases added : d.add (member x) with
          | none =>
              rw [added] at read
              exact readMembers_fault read
          | some d' =>
              rw [added] at read
              exact (readMembers_more read).trans (others d')

end Rows

/-- A body has the outcome of its members. -/
def outcome (members : List (Entry Json)) : Except ReadFault Request :=
  (ofMembers members).elim (.error .mismatch) .ok

theorem toRequest_add_all (members : List (Entry Json)) :
    (taken (members.foldlM Draft.add {}) [] >>= fun result => result.1.toRequest result.2) =
      outcome members := by
  rw [add_all, fill_all, fill_all, fill_all, outcome, ofMembers]
  cases slotOf asString? (valuesOf "query" members) with
  | none => rfl
  | some query =>
      cases slotOf asName? (valuesOf "operationName" members) with
      | none => rfl
      | some name =>
          cases slotOf asBindings? (valuesOf "variables" members) with
          | none => rfl
          | some bindings => cases query <;> rfl

theorem ofTokens_object {members : List (Entry Json)} (h : (Json.object members).WrittenAs ts)
    (room : ∀ m ∈ members, m.value.depth < Json.depthLimit) : ofTokens ts = outcome members := by
  cases h with
  | @object _ xs member parts values =>
      cases xs with
      | nil => rfl
      | cons x xs =>
          have read := readMembers_row values (fun y hy => room _ (List.mem_map_of_mem hy))
            (List.cons_ne_nil x xs) {} []
          have all : ofTokens (.openObject ::
              (Json.row .comma (Json.namedTokens member parts) (x :: xs) ++ [.closeObject])) =
                (readMembers {} (Json.row .comma (Json.namedTokens member parts) (x :: xs) ++
                  [.closeObject]) >>= fun result => result.1.toRequest result.2) := rfl
          rw [all, read, toRequest_add_all]

theorem ofTokens_elements (h : v.WrittenAs ts) (rest : List Token) :
    ofTokens (.openArray :: (ts ++ rest)) =
      (readElements (ts ++ rest) >>= fun result => result.1.toRequest result.2) := by
  obtain ⟨t, us, rfl, notClose⟩ := h.readsAs.start
  rw [List.cons_append, ofTokens]
  rintro _ ⟨⟩
  exact notClose rfl

section Elements

variable {w u : Json} {us qs : List Token}

theorem readElements_one (hv : v.WrittenAs ts) (rest : List Token) :
    readElements (ts ++ .closeArray :: rest) =
      taken ((asString? v).map fun query => ⟨some query, none, none⟩) rest := by
  rw [readElements, readString_written hv]
  cases asString? v <;> rfl

theorem readElements_two (hv : v.WrittenAs ts) (hw : w.WrittenAs us) (rest : List Token) :
    readElements (ts ++ .comma :: (us ++ .closeArray :: rest)) =
      taken (do
        let query ← asString? v
        let name ← asName? w
        return ⟨some query, some name, none⟩) rest := by
  rw [readElements, readString_written hv]
  cases asString? v with
  | none => rfl
  | some query =>
      simp only [taken, Option.elim_some, bind, Except.bind]
      rw [readName_written hw]
      cases asName? w <;> rfl

theorem readElements_three (hv : v.WrittenAs ts) (hw : w.WrittenAs us) (hu : u.WrittenAs qs)
    (room : u.depth < Json.depthLimit) (rest : List Token) :
    readElements (ts ++ .comma :: (us ++ .comma :: (qs ++ .closeArray :: rest))) =
      taken (do
        let query ← asString? v
        let name ← asName? w
        let bindings ← asBindings? u
        return ⟨some query, some name, some bindings⟩) rest := by
  rw [readElements, readString_written hv]
  cases asString? v with
  | none => rfl
  | some query =>
      simp only [taken, Option.elim_some, bind, Except.bind]
      rw [readName_written hw]
      cases asName? w with
      | none => rfl
      | some name =>
          simp only [taken, Option.elim_some]
          rw [readBindings_written hu room]
          cases asBindings? u <;> rfl

/-- The members that the elements of an array stand for, in their order. -/
def elementMembers (values : List Json) : List (Entry Json) :=
  List.zipWith Entry.mk ["query", "operationName", "variables"] values

theorem valuesOf_elementMembers (values : List Json) :
    valuesOf "query" (elementMembers values) = values.take 1 ∧
      valuesOf "operationName" (elementMembers values) = (values.drop 1).take 1 ∧
      valuesOf "variables" (elementMembers values) = (values.drop 2).take 1 := by
  match values with
  | [] => exact ⟨rfl, rfl, rfl⟩
  | [v] => simp [elementMembers, valuesOf]
  | [v, w] => simp [elementMembers, valuesOf]
  | v :: w :: u :: values => simp [elementMembers, valuesOf]

theorem map_value_elementMembers {values : List Json} (few : values.length ≤ 3) :
    (elementMembers values).map Entry.value = values := by
  match values with
  | [] | [_] | [_, _] | [_, _, _] => rfl
  | _ :: _ :: _ :: _ :: _ =>
      simp only [List.length_cons] at few
      omega

theorem ofTokens_array {values : List Json} (h : (Json.array values).WrittenAs ts)
    (few : values.length ≤ 3) (room : ∀ v ∈ values, v.depth < Json.depthLimit) :
    ofTokens ts = outcome (elementMembers values) := by
  obtain ⟨queries, names, bindings⟩ := valuesOf_elementMembers values
  rw [outcome, ofMembers, queries, names, bindings]
  cases h with
  | @array _ xs value parts h =>
      match xs with
      | [] => rfl
      | [x] =>
          have hx := h x (by simp)
          rw [Json.row_singleton, ofTokens_elements hx, readElements_one hx]
          simp only [List.map_cons, List.map_nil, List.take_succ_cons, List.drop_succ_cons,
            List.drop_nil, List.take_nil, slotOf]
          cases asString? (value x) <;> rfl
      | [x, y] =>
          have hx := h x (by simp)
          have hy := h y (by simp)
          rw [Json.row_cons_cons, Json.row_singleton, List.append_assoc, ofTokens_elements hx,
            List.cons_append, readElements_two hx hy]
          simp only [List.map_cons, List.map_nil, List.take_succ_cons, List.take_zero,
            List.drop_succ_cons, List.drop_zero, List.drop_nil, List.take_nil, slotOf]
          cases asString? (value x) <;> cases asName? (value y) <;> rfl
      | [x, y, z] =>
          have hx := h x (by simp)
          have hy := h y (by simp)
          have hz := h z (by simp)
          have inside := room (value z) (by simp)
          rw [Json.row_cons_cons, Json.row_cons_cons, Json.row_singleton, List.append_assoc,
            ofTokens_elements hx, List.cons_append, List.append_assoc, List.cons_append,
            readElements_three hx hy hz inside]
          simp only [List.map_cons, List.map_nil, List.take_succ_cons, List.take_zero,
            List.drop_succ_cons, List.drop_zero, slotOf]
          cases asString? (value x) <;> cases asName? (value y) <;> cases asBindings? (value z) <;>
            rfl
      | _ :: _ :: _ :: _ :: _ =>
          simp only [List.map_cons, List.length_cons] at few
          omega

end Elements

end Reading

/-- The outcome of a body depends on its members alone: it is the request that they make up, or a
mismatch if they make up none. So neither the order of the members nor those with other names make
a difference, and neither does the way in which any of it is written. An array of values has the
outcome of the object that has them as its members. -/
theorem body_is_read_as_its_members (members : List (Entry Json)) (text : String)
    (written : (Json.object members).IsText text)
    (shallow : (Json.object members).depth ≤ Json.depthLimit) :
    (∀ r, ofText text = .ok r ↔ r.MadeOf members) ∧
    ((∀ r : Request, ¬ r.MadeOf members) → ofText text = .error .mismatch) ∧
    (∀ others otherText, (Json.object others).IsText otherText →
      (Json.object others).depth ≤ Json.depthLimit →
      (others.filter Known).Perm (members.filter Known) → ofText otherText = ofText text) ∧
    ∀ values arrayText, (Json.array values).IsText arrayText → values.length ≤ 3 →
      members = elementMembers values → ofText arrayText = ofText text := by
  have inside {members : List (Entry Json)}
      (shallow : (Json.object members).depth ≤ Json.depthLimit) :
      ∀ m ∈ members, m.value.depth < Json.depthLimit := by
    intro m hm
    have below := Json.depth_le_memberDepth hm
    rw [Json.depth] at shallow
    omega
  have read {members : List (Entry Json)} {text : String}
      (written : (Json.object members).IsText text)
      (shallow : (Json.object members).depth ≤ Json.depthLimit) :
      ofText text = outcome members :=
    ofTokens_object written.scan (inside shallow)
  refine ⟨?_, ?_, ?_, ?_⟩
  · intro r
    rw [read written shallow, outcome, ← ofMembers_eq_some_iff]
    cases ofMembers members <;> simp
  · intro none
    have unmade : ofMembers members = .none :=
      Option.eq_none_iff_forall_ne_some.mpr fun r made => none r (ofMembers_eq_some_iff.mp made)
    rw [read written shallow, outcome, unmade]
    rfl
  · intro others otherText otherWritten otherShallow same
    rw [read written shallow, read otherWritten otherShallow, outcome, outcome, ofMembers_perm same]
  · rintro values arrayText arrayWritten few rfl
    rw [read written shallow]
    refine ofTokens_array arrayWritten.scan few fun v hv => ?_
    rw [← map_value_elementMembers few, List.mem_map] at hv
    obtain ⟨m, hm, rfl⟩ := hv
    exact inside shallow m hm

/-- A member of another name comes first, a variable is given twice, and the name is null. -/
def shuffledMembers : List (Entry Json) :=
  [⟨"x", .array [.number (.int (-15) (by decide)), .string "query"]⟩,
    ⟨"variables", .object [⟨"b", .number (.int 1 (by decide))⟩, ⟨"a", .null⟩, ⟨"b", .bool true⟩]⟩,
    ⟨"query", .string "\x7ba\x7d"⟩, ⟨"operationName", .null⟩]

def shuffledBody : String :=
  "\n\x7b\"x\":[-15,\"query\"],\"variables\":\x7b\"b\":1,\"a\":null,\"b\":true\x7d," ++
    "\"query\":\"\x7ba\x7d\",\"operationName\":null\x7d"

theorem shuffledBody_is_read :
    (Json.object shuffledMembers).IsText shuffledBody ∧
    (Json.object shuffledMembers).depth ≤ Json.depthLimit ∧
    ofText shuffledBody =
      .ok { query := "\x7ba\x7d", bindings := some [⟨"a", .null⟩, ⟨"b", .bool true⟩] } := by
  have nearest : ∀ n ∈ (Json.object shuffledMembers).numbers, n.ReadAsNearest := by decide +kernel
  have characters : shuffledBody.toList = '\n' :: (Json.object shuffledMembers).text.toList := by
    decide +kernel
  obtain ⟨ts, tokens, spaced⟩ := Json.isText_text (.object shuffledMembers) nearest
  have written : (Json.object shuffledMembers).IsText shuffledBody :=
    ⟨ts, tokens, characters ▸ .blank rfl spaced⟩
  have shallow : (Json.object shuffledMembers).depth ≤ Json.depthLimit := by decide +kernel
  refine ⟨written, shallow,
    ((body_is_read_as_its_members shuffledMembers shuffledBody written shallow).1 _).mpr ?_⟩
  constructor
  · rfl
  · exact .inr rfl
  · exact ⟨_, rfl, rfl⟩

end QueryDoc.Request
