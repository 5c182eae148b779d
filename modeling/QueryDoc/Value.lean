import QueryDoc.NameMap

/-!
Input values. The input objects inside a value are references, of whatever type names an object;
the fields of an object are not part of the value. Numbers are kept as the text they are written
with.
-/

namespace QueryDoc

inductive Value (Ref : Type) where
  | null
  | bool (b : Bool)
  | int (text : String)
  | float (text : String)
  | string (text : String)
  /-- A constant of an enumeration. -/
  | enumerator (name : String)
  /-- A variable of the operation. -/
  | var (name : String)
  | bytes (content : List UInt8)
  | list (items : List (Value Ref))
  /-- A list that holds input objects only. -/
  | objects (refs : List Ref)
  | object (ref : Ref)

namespace Value

variable {Ref S : Type}

mutual

def map (f : Ref → S) : Value Ref → Value S
  | .null => .null
  | .bool b => .bool b
  | .int text => .int text
  | .float text => .float text
  | .string text => .string text
  | .enumerator name => .enumerator name
  | .var name => .var name
  | .bytes content => .bytes content
  | .list items => .list (mapItems f items)
  | .objects refs => .objects (refs.map f)
  | .object ref => .object (f ref)
termination_by structural v => v

def mapItems (f : Ref → S) : List (Value Ref) → List (Value S)
  | [] => []
  | v :: items => v.map f :: mapItems f items
termination_by structural items => items

end

mutual

/-- The references in a value, in reading order. -/
def refs : Value Ref → List Ref
  | .list items => itemRefs items
  | .objects refs => refs
  | .object ref => [ref]
  | _ => []
termination_by structural v => v

def itemRefs : List (Value Ref) → List Ref
  | [] => []
  | v :: items => v.refs ++ itemRefs items
termination_by structural items => items

end

theorem mapItems_eq (f : Ref → S) (items : List (Value Ref)) :
    mapItems f items = items.map (map f) := by
  induction items with
  | nil => rfl
  | cons v items ih => rw [mapItems, ih, List.map_cons]

theorem itemRefs_eq (items : List (Value Ref)) : itemRefs items = items.flatMap refs := by
  induction items with
  | nil => rfl
  | cons v items ih => rw [itemRefs, ih, List.flatMap_cons]

section Equality

variable [DecidableEq Ref]

mutual

def same : Value Ref → Value Ref → Bool
  | .null, .null => true
  | .bool a, .bool b => a = b
  | .int a, .int b => a = b
  | .float a, .float b => a = b
  | .string a, .string b => a = b
  | .enumerator a, .enumerator b => a = b
  | .var a, .var b => a = b
  | .bytes a, .bytes b => a = b
  | .list a, .list b => sameItems a b
  | .objects a, .objects b => a = b
  | .object a, .object b => a = b
  | _, _ => false
termination_by structural v => v

def sameItems : List (Value Ref) → List (Value Ref) → Bool
  | [], [] => true
  | v :: a, w :: b => v.same w && sameItems a b
  | _, _ => false
termination_by structural items => items

end

mutual

theorem same_iff : (v w : Value Ref) → (v.same w = true ↔ v = w)
  | .list a, w => by cases w <;> simp [same, sameItems_iff]
  | .null, w | .bool _, w | .int _, w | .float _, w | .string _, w | .enumerator _, w
  | .var _, w | .bytes _, w | .objects _, w | .object _, w => by cases w <;> simp [same]

theorem sameItems_iff : (a b : List (Value Ref)) → (sameItems a b = true ↔ a = b)
  | [], b => by cases b <;> simp [sameItems]
  | v :: a, b => by cases b <;> simp [sameItems, same_iff v, sameItems_iff a]

end

instance : DecidableEq (Value Ref) := fun v w => decidable_of_iff _ (same_iff v w)

end Equality

end Value

end QueryDoc
