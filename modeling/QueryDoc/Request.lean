import QueryDoc.Json.Text
import QueryDoc.Writing

/-!
The body of a request: the text of a document, the name of the operation to execute, and the values
of its variables. What is absent is left out of the body's JSON; variables that are present stay
present when there are none in them.
-/

namespace QueryDoc

structure Request where
  query : String
  operationName : Option String := none
  bindings : Option Bindings := none

namespace Request

/-- The request for a document. A name has to be that of one of its operations. -/
def ofDocument (s : Store) (d : Document (Value ObjectId)) (name : Option String) :
    Except Error Request := do
  if name.isSome then
    let _ ← d.operation name
  let query ← s.print (.document d)
  return { query := query, operationName := name }

/-- The request with these variables and no others. -/
def withBindings (r : Request) (bindings : Bindings) : Request :=
  { r with bindings := some bindings }

/-- The request with one variable set, and the others as they are. -/
def withBinding (r : Request) (name : String) (value : Json) : Request :=
  { r with bindings := some (NameMap.insert ⟨name, value⟩ (r.bindings.getD [])) }

def same (r t : Request) : Bool :=
  r.query = t.query && r.operationName = t.operationName &&
    match r.bindings, t.bindings with
    | some vars, some others => Json.sameMembers vars others
    | none, none => true
    | _, _ => false

/-- The members of the body in the order in which they are written. -/
def members (r : Request) : List (Entry Json) :=
  [⟨"query", .string r.query⟩] ++
    (r.operationName.map fun name => ⟨"operationName", .string name⟩).toList ++
    (r.bindings.map fun bindings => ⟨"variables", .object bindings⟩).toList

def toJson (r : Request) : Json := .ofEntries r.members

def text (r : Request) : String := "\x7b" ++ Json.membersText r.members ++ "\x7d"

end Request

end QueryDoc
