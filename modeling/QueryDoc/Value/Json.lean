import QueryDoc.Json.Basic
import QueryDoc.Node
import QueryDoc.Numeric.Numeral
import QueryDoc.Numeric.Word
import QueryDoc.Trail
import QueryDoc.Value.Native

/-!
Values as JSON, and back. Like writing, conversion takes objects in full wherever they stand and
fails inside a cycle. Variables are replaced by what they are bound to. The way back makes a new
object for every JSON object.
-/

namespace QueryDoc

theorem IntegerType.inRange_value (t : IntegerType) (narrow : t.bits ≤ 64) (w : t.Word) :
    Number.InRange (t.value w) := by
  have half : Nat.pow 2 (t.bits - 1) ≤ 2 ^ 63 :=
    Nat.pow_le_pow_right (by decide) (Nat.sub_le_sub_right narrow 1)
  have all : Nat.pow 2 t.bits ≤ 2 ^ 64 := Nat.pow_le_pow_right (by decide) narrow
  have held := t.holds_value w
  rw [Holds, least, greatest] at held
  rw [Number.InRange]
  split at held <;> omega

/-- An integer text as JSON; one that is no integer of 64 bits stays text. -/
def Json.ofIntText (text : String) : Json :=
  match (integerOfText? text).bind Number.ofInt? with
  | some n => .number n
  | none => .string text

/-- The number of a word of at most 64 bits. -/
def Number.ofWord {t : IntegerType} (narrow : t.bits ≤ 64) (w : t.Word) : Number :=
  .int (t.value w) (t.inRange_value narrow w)

/-- An integer text as JSON, by a reader of words with a sign and, if that one fails, by a reader of
words without a sign. -/
def Json.ofIntWords (text : String) : Json :=
  match IntegerType.signed64.read? text with
  | some w => .number (.ofWord (Nat.le_refl 64) w)
  | none =>
    match IntegerType.unsigned64.read? text with
    | some w => .number (.ofWord (Nat.le_refl 64) w)
    | none => .string text

/-- A float text as JSON; one that stands for no finite number is null, any other text stays. -/
def Json.ofFloatText (text : String) : Json :=
  match FloatText.ofText? text with
  | some (.number n) =>
    match Number.ofFloat? (.ofDecimal .binary64 n.negative n.decimal) with
    | some x => .number x
    | none => .null
  | some .notFinite => .null
  | none => .string text

/-- What a variable is bound to, null if it is not bound. -/
def binding (bindings : Option Bindings) (name : String) : Json :=
  (bindings.bind (Entry.find? name)).getD .null

namespace Value

variable {Ref ε : Type} (object : Ref → Except ε Json) (bindings : Option Bindings)

def refsJson : List Ref → Except ε (List Json)
  | [] => .ok []
  | ref :: refs => do
    let j ← object ref
    let js ← refsJson refs
    return j :: js

mutual

/-- A value as JSON, given the JSON of its objects. -/
def toJson : Value Ref → Except ε Json
  | .null => .ok .null
  | .bool b => .ok (.bool b)
  | .int text => .ok (.ofIntText text)
  | .float text => .ok (.ofFloatText text)
  | .string text | .enumerator text => .ok (.string text)
  | .var name => .ok (binding bindings name)
  | .bytes content => .ok (.ofBytes content)
  | .list items => (itemsJson items).map .array
  | .objects refs => (refsJson object refs).map .array
  | .object ref => object ref
termination_by structural v => v

def itemsJson : List (Value Ref) → Except ε (List Json)
  | [] => .ok []
  | v :: items => do
    let j ← v.toJson
    let js ← itemsJson items
    return j :: js
termination_by structural items => items

end

def entriesJson : List (Entry (Value Ref)) → Except ε (List (Entry Json))
  | [] => .ok []
  | e :: entries => do
    let j ← toJson object bindings e.value
    let js ← entriesJson entries
    return ⟨e.name, j⟩ :: js

end Value

namespace Store

/-- An object as JSON, inside the objects of the trail. -/
def objectJson (s : Store) (bindings : Option Bindings) (trail : Trail) (o : ObjectId) :
    Except Failure Json :=
  if o ∈ trail then .error (s.cycleAt o)
  else if s.Has o then
    match Value.entriesJson (fun p => s.objectJson bindings (o :: trail) p) bindings
        (s.fields o) with
    | .ok members => .ok (.ofEntries members)
    | .error f => .error (f.inside o)
  else .ok (.ofEntries [])
termination_by s.unvisited trail
decreasing_by
  rename_i fresh h
  exact unvisited_cons_lt h fresh

theorem objectJson_eq (s : Store) (bindings : Option Bindings) (trail : Trail)
    (o : ObjectId) :
    s.objectJson bindings trail o =
      if o ∈ trail then .error (s.cycleAt o)
      else
        match Value.entriesJson (s.objectJson bindings (o :: trail)) bindings (s.fields o) with
        | .ok members => .ok (.ofEntries members)
        | .error f => .error (f.inside o) := by
  rw [objectJson]
  split
  · rfl
  · split
    · rfl
    · rename_i h
      rw [fields_of_not_has h]
      rfl

def valueJson (s : Store) (bindings : Option Bindings) (trail : Trail) :
    Value ObjectId → Except Failure Json :=
  Value.toJson (s.objectJson bindings trail) bindings

/-- The JSON of a value, or of arguments as an object; other nodes have none. -/
def nodeJson? (s : Store) (bindings : Option Bindings) (trail : Trail) :
    Node (Value ObjectId) → Option (Except Failure Json)
  | .value v => some (s.valueJson bindings trail v)
  | .arguments as =>
    some ((Value.entriesJson (s.objectJson bindings trail) bindings as).map .ofEntries)
  | _ => none

mutual

/-- The value of a JSON value, and the store with its objects. -/
def ofJson (s : Store) : Json → Store × Value ObjectId
  | .null => (s, .null)
  | .bool b => (s, .bool b)
  | .number (.int n _) => (s, .ofInt n)
  | .number (.float x _) => (s, .float (Value.floatText x))
  | .string text => (s, .string text)
  | .array items =>
    let (s, vs) := s.ofJsonItems items
    (s, .list vs)
  | .object members =>
    let (s, fields) := s.ofJsonMembers members
    let (s, o) := s.create fields
    (s, .object o)
termination_by structural j => j

def ofJsonItems (s : Store) : List Json → Store × List (Value ObjectId)
  | [] => (s, [])
  | j :: items =>
    let (s, v) := s.ofJson j
    let (s, vs) := s.ofJsonItems items
    (s, v :: vs)
termination_by structural items => items

def ofJsonMembers (s : Store) : List (Entry Json) → Store × List InputField
  | [] => (s, [])
  | ⟨name, j⟩ :: members =>
    let (s, v) := s.ofJson j
    let (s, fields) := s.ofJsonMembers members
    (s, ⟨name, v⟩ :: fields)
termination_by structural members => members

end

end Store

end QueryDoc
