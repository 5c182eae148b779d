import QueryDoc.Text.Place

/-!
Failures of building, printing and serializing. An error has a kind, a message and sometimes a
line of context; each cause has its own constructor function, which is the only place where its
wording stands.
-/

namespace QueryDoc

inductive ErrorKind where
  | graphQL
  | unsupportedValue
  | cyclicReference
  | format
deriving DecidableEq, Repr

def ErrorKind.heading : ErrorKind → String
  | .graphQL => "GraphQL Error"
  | .unsupportedValue => "Unsupported Value Error"
  | .cyclicReference => "Cyclic Reference Error"
  | .format => "Format Error"

structure Error where
  kind : ErrorKind
  message : String
  context : Option String := none
deriving DecidableEq, Repr

namespace Error

def summary (e : Error) : String := e.kind.heading ++ ": " ++ e.message

def report (e : Error) : String :=
  match e.context with
  | some context => e.summary ++ "\n" ++ context
  | none => e.summary

/-- The report set off by line feeds on both sides. -/
def paragraph (e : Error) : String := "\n" ++ e.report ++ "\n"

def unknownOperation (name : String) : Error :=
  ⟨.graphQL, "Operation with name " ++ name ++ " does not exist", none⟩

def noOperation : Error := ⟨.graphQL, "Document does not contain any operations", none⟩

def severalOperations : Error :=
  ⟨.graphQL, "Document contains more than one operation, missing operation name", none⟩

/-- For a float that is not finite; `name` is what it is called in the message. -/
def noFloatLiteral (name : String) : Error :=
  ⟨.unsupportedValue, "Float `" ++ name ++ "` has no GraphQL literal", none⟩

/-- For an object met inside itself; `names` are the names of its fields, in order. -/
def cyclicReference (names : List String) : Error :=
  ⟨.cyclicReference, "Input object was reached again while it was still being printed",
    some ("input object \x7b" ++ ", ".intercalate names ++ "\x7d")⟩

def bufferFull : Error := ⟨.format, "Failed to write to the output buffer", none⟩

def numberOutOfRange : Error := ⟨.format, "number out of range", none⟩

def keyNotString : Error := ⟨.format, "key must be a string", none⟩

def keyNotFinite : Error := ⟨.format, "float key must be finite (got NaN or +/-inf)", none⟩

def unserializable (reason : String) : Error :=
  ⟨.format, String.ofList (Place.normalize reason.toList), none⟩

end Error

end QueryDoc
