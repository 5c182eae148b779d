import QueryDoc.Document
import QueryDoc.Store

/-!
Any part of a request, as one type. Two parts of a store's documents are equal when they agree up to
the objects that they hold, and these have the same fields. Objects inside those fields are told
apart by their identity alone, so that comparing ends also on objects that contain themselves.
-/

namespace QueryDoc

inductive Node (V : Type) where
  | value (v : V)
  /-- A field of an input object, or an argument. -/
  | entry (e : Entry V)
  | arguments (arguments : List (Entry V))
  | selectionSet (fields : List (Field V))
  | field (f : Field V)
  | typeRef (t : TypeRef)
  | variableDefinition (d : VariableDefinition V)
  | variableDefinitions (ds : List (VariableDefinition V))
  | operation (op : Operation V)
  | document (d : Document V)
deriving DecidableEq

namespace Node

variable {V W : Type}

def map (g : V → W) : Node V → Node W
  | .value v => .value (g v)
  | .entry e => .entry (e.map g)
  | .arguments as => .arguments (as.map (·.map g))
  | .selectionSet fs => .selectionSet (fs.map (·.map g))
  | .field f => .field (f.map g)
  | .typeRef t => .typeRef t
  | .variableDefinition d => .variableDefinition (d.map g)
  | .variableDefinitions ds => .variableDefinitions (ds.map (·.map g))
  | .operation op => .operation (op.map g)
  | .document d => .document (d.map g)

/-- The parts of a node that has parts in a row. -/
def items? : Node (Value ObjectId) → Option (List (Node (Value ObjectId)))
  | .value (.list vs) => some (vs.map .value)
  | .value (.objects os) => some (os.map fun o => .value (.object o))
  | .arguments as => some (as.map .entry)
  | .selectionSet fs => some (fs.map .field)
  | .variableDefinitions ds => some (ds.map .variableDefinition)
  | .document d => some (d.operations.map .operation)
  | _ => none

/-- Whether a node with parts in a row has none; for an object the parts are its fields. -/
def isEmpty? (s : Store) : Node (Value ObjectId) → Option Bool
  | .value (.bytes content) => some content.isEmpty
  | .value (.object o) => some (s.fields o).isEmpty
  | n => n.items?.map List.isEmpty

end Node

namespace Store

/-- The node with every object replaced by its fields. -/
def contents (s : Store) (n : Node (Value ObjectId)) : Node (Value (List InputField)) :=
  n.map (·.map s.fields)

def Equates (s : Store) (a b : Node (Value ObjectId)) : Prop := s.contents a = s.contents b

instance (s : Store) (a b : Node (Value ObjectId)) : Decidable (s.Equates a b) :=
  inferInstanceAs (Decidable (_ = _))

end Store

end QueryDoc
