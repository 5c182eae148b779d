import QueryDoc.Json.Read
import QueryDoc.Request

/-!
Reading request bodies. A body is an object with the members `query`, `operationName` and
`variables` in any order, among others that are passed over, or an array of their values in this
order, from which the last two may be missing. Only the query has to be there; null stands for an
absent name and for absent variables. A text that is no JSON is told apart from JSON that is no
body, and whichever of the two is met first decides.
-/

namespace QueryDoc

inductive ReadFault where
  /-- The text cannot be read as JSON, or a number in it is out of range. -/
  | malformed
  /-- A value has the wrong type, or a member is missing or repeated. -/
  | mismatch
deriving DecidableEq, Repr

namespace Request

/-- What has been read of a body so far. A name or variables given as null have been read, too. -/
structure Draft where
  query : Option String := none
  operationName : Option (Option String) := none
  bindings : Option (Option Bindings) := none

/-- The fault of a value that is not of the wanted type. Of arrays and objects only the start is
looked at, scalars have to be readable. -/
def unwanted : List Token → ReadFault
  | .openArray :: _ | .openObject :: _ | .null :: _ | .bool _ :: _ | .string (some _) :: _ =>
    .mismatch
  | .number n :: _ => if n.toNumber?.isSome then .mismatch else .malformed
  | _ => .malformed

def readString : List Token → Except ReadFault (String × List Token)
  | .string (some text) :: ts => .ok (text, ts)
  | ts => .error (unwanted ts)

def readName : List Token → Except ReadFault (Option String × List Token)
  | .null :: ts => .ok (none, ts)
  | ts => (readString ts).map fun (text, rest) => (some text, rest)

/-- Variables stand one level inside the body. -/
def readBindings : List Token → Except ReadFault (Option Bindings × List Token)
  | .null :: ts => .ok (none, ts)
  | .openObject :: ts =>
    match Json.readValue (Json.depthLimit - 1) [] (.openObject :: ts) with
    | some (.object members, rest) => .ok (some members, rest)
    | _ => .error .malformed
  | ts => .error (unwanted ts)

/-- Reads what follows the name of a member. That a member is repeated shows by its name alone. -/
def readMember (d : Draft) (name : String) (ts : List Token) :
    Except ReadFault (Draft × List Token) :=
  let repeated := name = "query" ∧ d.query.isSome ∨
    name = "operationName" ∧ d.operationName.isSome ∨ name = "variables" ∧ d.bindings.isSome
  if repeated then .error .mismatch
  else
    match ts with
    | .colon :: ts =>
      if name = "query" then
        (readString ts).map fun (text, rest) => ({ d with query := some text }, rest)
      else if name = "operationName" then
        (readName ts).map fun (name, rest) => ({ d with operationName := some name }, rest)
      else if name = "variables" then
        (readBindings ts).map fun (bindings, rest) => ({ d with bindings := some bindings }, rest)
      else
        match Json.skipValue [] ts with
        | some rest => .ok (d, rest)
        | none => .error .malformed
    | _ => .error .malformed

theorem readString_length {ts rest : List Token} {text : String}
    (h : readString ts = .ok (text, rest)) : rest.length < ts.length := by
  unfold readString at h
  grind

theorem readName_length {ts rest : List Token} {name : Option String}
    (h : readName ts = .ok (name, rest)) : rest.length < ts.length := by
  unfold readName at h
  split at h
  · grind
  · cases hs : readString ts <;> rw [hs] at h <;> cases h
    exact readString_length hs

theorem readBindings_length {ts rest : List Token} {bindings : Option Bindings}
    (h : readBindings ts = .ok (bindings, rest)) : rest.length < ts.length := by
  unfold readBindings at h
  split at h
  · grind
  · split at h
    · rename_i hr
      cases h
      exact Json.readValue_length hr
    · cases h
  · cases h

theorem readMember_length {d e : Draft} {name : String} {ts rest : List Token}
    (h : readMember d name ts = .ok (e, rest)) : rest.length < ts.length := by
  unfold readMember at h
  simp only at h
  split at h
  · cases h
  · split at h
    · rename_i ts
      have step : rest.length < ts.length := by
        split at h
        · cases hs : readString ts <;> rw [hs] at h <;> cases h
          exact readString_length hs
        · split at h
          · cases hs : readName ts <;> rw [hs] at h <;> cases h
            exact readName_length hs
          · split at h
            · cases hs : readBindings ts <;> rw [hs] at h <;> cases h
              exact readBindings_length hs
            · split at h
              · rename_i hs
                cases h
                exact Json.skipValue_length hs
              · cases h
      exact Nat.lt_succ_of_lt step
    · cases h

/-- Reads the members of an object that has at least one, up to its closing brace. -/
def readMembers (d : Draft) : List Token → Except ReadFault (Draft × List Token)
  | .string (some name) :: ts =>
    match _h : readMember d name ts with
    | .ok (d, .comma :: rest) => readMembers d rest
    | .ok (d, .closeObject :: rest) => .ok (d, rest)
    | .ok _ => .error .malformed
    | .error fault => .error fault
  | _ => .error .malformed
termination_by ts => ts.length
decreasing_by
  have := readMember_length _h
  simp only [List.length_cons] at this ⊢
  omega

/-- Reads the elements of an array that has at least one, up to its closing bracket. -/
def readElements (ts : List Token) : Except ReadFault (Draft × List Token) := do
  let (query, ts) ← readString ts
  match ts with
  | .closeArray :: rest => return (⟨some query, none, none⟩, rest)
  | .comma :: ts =>
    let (name, ts) ← readName ts
    match ts with
    | .closeArray :: rest => return (⟨some query, some name, none⟩, rest)
    | .comma :: ts =>
      let (bindings, ts) ← readBindings ts
      match ts with
      | .closeArray :: rest =>
        return (⟨some query, some name, some bindings⟩, rest)
      | _ => throw .malformed
    | _ => throw .malformed
  | _ => throw .malformed

/-- The request of a body that has been read to its end. That the query is missing shows before
what follows the body does. -/
def Draft.toRequest (d : Draft) (rest : List Token) : Except ReadFault Request :=
  match d.query with
  | some query =>
    if rest = [] then .ok ⟨query, d.operationName.join, d.bindings.join⟩ else .error .malformed
  | none => .error .mismatch

def ofTokens : List Token → Except ReadFault Request
  | .openObject :: .closeObject :: _ | .openArray :: .closeArray :: _ => .error .mismatch
  | .openObject :: ts => do
    let (d, rest) ← readMembers {} ts
    d.toRequest rest
  | .openArray :: ts => do
    let (d, rest) ← readElements ts
    d.toRequest rest
  | ts => .error (unwanted ts)

def ofText (text : String) : Except ReadFault Request := ofTokens (Token.scan text.toList)

end Request

end QueryDoc
