import QueryDoc.Error
import QueryDoc.Json.Text

/-!
Values that are handed over for the variables of a request, and their JSON. Integers have to fit
into 64 bits, a float that is not finite becomes null, and the keys of a map have to be texts,
numbers or booleans. The first part that fails, in reading order, fails the whole.
-/

namespace QueryDoc

inductive Payload where
  | json (j : Json)
  | int (n : Int)
  | double (x : Binary64)
  | single (x : Binary .binary32)
  | bool (b : Bool)
  | string (text : String)
  | none
  | some (p : Payload)
  | bytes (content : List UInt8)
  | seq (items : List Payload)
  | map (entries : List (Payload × Payload))
  /-- A value that cannot be serialized, for the given reason. -/
  | fail (reason : String)

namespace Payload

def floatJson (x : Binary64) : Json :=
  match Number.ofFloat? x with
  | .some x => .number x
  | .none => .null

def boolText (b : Bool) : String := if b then "true" else "false"

/-- As keys, floats of single precision have digits of their own, and other places written out. -/
def singleLayout : NumberLayout := { Number.layout with least := -6, greatest := 12 }

/-- The key that a payload gives. Integers of any size are keys. -/
def key : Payload → Except Error String
  | .string text | .json (.string text) => .ok text
  | .int n => .ok (integerText n)
  | .json (.number n) => .ok n.text
  | .double x =>
    match Number.ofFloat? x with
    | .some x => .ok x.text
    | .none => .error .keyNotFinite
  | .single x =>
    if x.isFinite then .ok (singleLayout.write x.negative (x.shortest {})) else .error .keyNotFinite
  | .bool b | .json (.bool b) => .ok (boolText b)
  | .fail reason => .error (.unserializable reason)
  | _ => .error .keyNotString

mutual

def toJson : Payload → Except Error Json
  | .json j => .ok j
  | .int n =>
    match Number.ofInt? n with
    | .some n => .ok (.number n)
    | .none => .error .numberOutOfRange
  | .double x => .ok (floatJson x)
  | .single x => .ok (if x.isFinite then floatJson (x.convert .binary64) else .null)
  | .bool b => .ok (.bool b)
  | .string text => .ok (.string text)
  | .none => .ok .null
  | .some p => p.toJson
  | .bytes content => .ok (.ofBytes content)
  | .seq items => (itemsJson items).map .array
  | .map entries => (membersJson entries).map .ofEntries
  | .fail reason => .error (.unserializable reason)
termination_by structural p => p

def itemsJson : List Payload → Except Error (List Json)
  | [] => .ok []
  | p :: items => do
    let j ← p.toJson
    let js ← itemsJson items
    return j :: js
termination_by structural items => items

def membersJson : List (Payload × Payload) → Except Error (List (Entry Json))
  | [] => .ok []
  | (k, p) :: entries => do
    let name ← k.key
    let j ← p.toJson
    let js ← membersJson entries
    return ⟨name, j⟩ :: js
termination_by structural entries => entries

end

end Payload

end QueryDoc
