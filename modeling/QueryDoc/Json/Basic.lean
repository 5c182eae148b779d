import QueryDoc.NameMap
import QueryDoc.Numeric.Binary

/-!
JSON values. Numbers are integers of 64 bits, with or without a sign, or finite floats; the members
of an object are in order of their names.
-/

namespace QueryDoc

abbrev Binary64 := Binary .binary64

/-- The integers that 64 bits hold, with a sign or without one. -/
def Number.InRange (n : Int) : Prop := -9223372036854775808 ≤ n ∧ n < 18446744073709551616

instance (n : Int) : Decidable (Number.InRange n) := inferInstanceAs (Decidable (_ ∧ _))

inductive Number where
  | int (n : Int) (inRange : Number.InRange n)
  | float (x : Binary64) (finite : x.isFinite = true)
deriving DecidableEq

def Number.ofInt? (n : Int) : Option Number :=
  if h : Number.InRange n then some (.int n h) else none

def Number.ofFloat? (x : Binary64) : Option Number :=
  if h : x.isFinite = true then some (.float x h) else none

def Number.ofByte (b : UInt8) : Number :=
  .int b.toNat (by have := b.toNat_lt; unfold InRange; omega)

/-- Whether two numbers are equal. An integer is never equal to a float. -/
def Number.same : Number → Number → Bool
  | .int n _, .int m _ => n = m
  | .float x _, .float y _ => x.sameNumber y
  | _, _ => false

inductive Json where
  | null
  | bool (b : Bool)
  | number (n : Number)
  | string (text : String)
  | array (items : List Json)
  | object (members : List (Entry Json))

/-- What variables are bound to. -/
abbrev Bindings := NameMap Json

namespace Json

/-- The object with the given members; of members with one name the last one counts. -/
def ofEntries (members : List (Entry Json)) : Json := .object (NameMap.ofEntries members)

def ofBytes (bytes : List UInt8) : Json := .array (bytes.map fun b => .number (.ofByte b))

mutual

/-- Every object has its members in order of their names, and no name twice. -/
def Canonical : Json → Prop
  | .array items => CanonicalItems items
  | .object members => NameMap.Sorted members ∧ CanonicalMembers members
  | .null | .bool _ | .number _ | .string _ => True
termination_by structural j => j

def CanonicalItems : List Json → Prop
  | [] => True
  | j :: items => j.Canonical ∧ CanonicalItems items
termination_by structural items => items

def CanonicalMembers : List (Entry Json) → Prop
  | [] => True
  | ⟨_, j⟩ :: members => j.Canonical ∧ CanonicalMembers members
termination_by structural members => members

end

mutual

/-- Whether two JSON values are equal, their numbers being compared as numbers. -/
def same : Json → Json → Bool
  | .null, .null => true
  | .bool a, .bool b => a = b
  | .number n, .number m => n.same m
  | .string a, .string b => a = b
  | .array a, .array b => sameItems a b
  | .object a, .object b => sameMembers a b
  | _, _ => false
termination_by structural j => j

def sameItems : List Json → List Json → Bool
  | [], [] => true
  | j :: a, k :: b => j.same k && sameItems a b
  | _, _ => false
termination_by structural items => items

def sameMembers : List (Entry Json) → List (Entry Json) → Bool
  | [], [] => true
  | ⟨name, j⟩ :: a, ⟨other, k⟩ :: b => name = other && j.same k && sameMembers a b
  | _, _ => false
termination_by structural members => members

end

end Json

end QueryDoc
