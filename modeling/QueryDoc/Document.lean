import QueryDoc.Error
import QueryDoc.NameMap

/-!
Request documents. A document is a tree of operations, fields and variable definitions over some
type of values, and everything here treats the values alike.
-/

namespace QueryDoc

inductive TypeRef where
  | named (name : String)
  | list (item : TypeRef)
  | nonNull (inner : TypeRef)
deriving DecidableEq, Repr

/-- The name inside all wrappers. -/
def TypeRef.innermost : TypeRef → String
  | .named name => name
  | .list t | .nonNull t => t.innermost

/-- A field of a selection set. Without selections it selects a scalar. -/
structure Field (V : Type) where
  aliasName : Option String := none
  name : String
  arguments : List (Entry V) := []
  selections : List (Field V) := []

structure VariableDefinition (V : Type) where
  name : String
  type : TypeRef
  default : Option V := none
deriving DecidableEq

inductive OperationKind where
  | query
  | mutation
  | subscription
deriving DecidableEq, Repr

def OperationKind.keyword : OperationKind → String
  | .query => "query"
  | .mutation => "mutation"
  | .subscription => "subscription"

variable {V W : Type}

namespace Field

def isLeaf (f : Field V) : Bool := f.selections.isEmpty

/-- The name under which the field's value is answered. -/
def responseName (f : Field V) : String := f.aliasName.getD f.name

def withAlias (f : Field V) (name : String) : Field V := { f with aliasName := some name }

mutual

def map (g : V → W) : Field V → Field W
  | ⟨aliasName, name, arguments, selections⟩ =>
    ⟨aliasName, name, arguments.map (Entry.map g), mapAll g selections⟩
termination_by structural f => f

def mapAll (g : V → W) : List (Field V) → List (Field W)
  | [] => []
  | f :: fields => f.map g :: mapAll g fields
termination_by structural fields => fields

end

theorem mapAll_eq (g : V → W) (fields : List (Field V)) : mapAll g fields = fields.map (map g) := by
  induction fields with
  | nil => rfl
  | cons f fields ih => rw [mapAll, ih, List.map_cons]

section Equality

variable [DecidableEq V]

mutual

def same : Field V → Field V → Bool
  | ⟨r, n, as, ss⟩, ⟨r', n', as', ss'⟩ => r = r' && n = n' && as = as' && sameAll ss ss'
termination_by structural f => f

def sameAll : List (Field V) → List (Field V) → Bool
  | [], [] => true
  | f :: fs, g :: gs => f.same g && sameAll fs gs
  | _, _ => false
termination_by structural fs => fs

end

mutual

theorem same_iff : (f g : Field V) → (f.same g = true ↔ f = g)
  | ⟨r, n, as, ss⟩, ⟨r', n', as', ss'⟩ => by simp [same, sameAll_iff ss, and_assoc]

theorem sameAll_iff : (fs gs : List (Field V)) → (sameAll fs gs = true ↔ fs = gs)
  | [], gs => by cases gs <;> simp [sameAll]
  | f :: fs, gs => by cases gs <;> simp [sameAll, same_iff f, sameAll_iff fs]

end

instance : DecidableEq (Field V) := fun f g => decidable_of_iff _ (same_iff f g)

end Equality

end Field

def VariableDefinition.map (g : V → W) (d : VariableDefinition V) : VariableDefinition W :=
  ⟨d.name, d.type, d.default.map g⟩

structure Operation (V : Type) where
  kind : OperationKind
  name : Option String := none
  definitions : List (VariableDefinition V) := []
  selections : List (Field V) := []
deriving DecidableEq

def Operation.map (g : V → W) (op : Operation V) : Operation W :=
  ⟨op.kind, op.name, op.definitions.map (·.map g), op.selections.map (·.map g)⟩

structure Document (V : Type) where
  operations : List (Operation V) := []
deriving DecidableEq

namespace Document

def map (g : V → W) (d : Document V) : Document W := ⟨d.operations.map (·.map g)⟩

/-- Where the operation to execute stands: the first one with the given name, or, without a name,
the only one. -/
def position (d : Document V) : Option String → Except Error (Fin d.operations.length)
  | some name =>
    match d.operations.findFinIdx? (·.name = some name) with
    | some i => .ok i
    | none => .error (.unknownOperation name)
  | none =>
    if h : d.operations.length = 1 then .ok ⟨0, by omega⟩
    else if d.operations.length = 0 then .error .noOperation
    else .error .severalOperations

def operation (d : Document V) (name : Option String) : Except Error (Operation V) :=
  (d.position name).map fun i => d.operations[i]

end Document

end QueryDoc
