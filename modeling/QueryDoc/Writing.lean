import QueryDoc.Layout
import QueryDoc.Trail

/-!
Writing layouts to a buffer. An object is written in full at every place where it stands, unless
that place is inside the object itself. The buffer takes each piece of text whole or refuses it, and
the first refusal ends the run, as the first cycle does.
-/

namespace QueryDoc

/-- Text that grows up to a limit on its size in UTF-8, if there is one. -/
structure Buffer where
  text : String := ""
  limit : Option Nat := none
deriving DecidableEq

namespace Buffer

/-- Whether so many more bytes stay within the limit. -/
def hasRoom (b : Buffer) (size : Nat) : Bool :=
  match b.limit with
  | some limit => b.text.utf8ByteSize + size ≤ limit
  | none => true

def add? (b : Buffer) (text : String) : Option Buffer :=
  if b.hasRoom text.utf8ByteSize then some { b with text := b.text ++ text } else none

def lineBreak (level : Nat) : String := "\n" ++ String.ofList (List.replicate (2 * level) ' ')

/-- Adds a line break, which is made up only if there is room for it. -/
def addLineBreak? (b : Buffer) (level : Nat) : Option Buffer :=
  if b.hasRoom (1 + 2 * level) then some { b with text := b.text ++ lineBreak level } else none

end Buffer

/-- The end of a run: the buffer as it is then, and what ended the run early. -/
structure Run where
  buffer : Buffer
  failure : Option Failure := none
deriving DecidableEq

/-- The trail that a run leaves behind when it was started on the given one. -/
def Run.trail (r : Run) (trail : Trail) : Trail :=
  match r.failure with
  | some f => f.entered ++ trail
  | none => trail

/-- The number of pieces, where an object counts for the two braces that it has at least. -/
def Layout.weight {Ref : Type} : Layout Ref → Nat
  | [] => 0
  | .object _ :: rest => weight rest + 3
  | .text _ :: rest | .lineBreak _ :: rest => weight rest + 1

namespace Store

/-- The layout of an object's fields, in braces. -/
def objectLayout (s : Store) (o : ObjectId) : Layout ObjectId :=
  Layout.ofFields Layout.ofValue (s.fields o)

/-- Writes a layout to the buffer, inside the objects of the trail. -/
def write (s : Store) (trail : Trail) : Layout ObjectId → Buffer → Run
  | [], b => { buffer := b }
  | .text t :: rest, b =>
    match b.add? t with
    | some b => s.write trail rest b
    | none => { buffer := b, failure := some { error := .bufferFull } }
  | .lineBreak level :: rest, b =>
    match b.addLineBreak? level with
    | some b => s.write trail rest b
    | none => { buffer := b, failure := some { error := .bufferFull } }
  | .object o :: rest, b =>
    if o ∈ trail then { buffer := b, failure := some (s.cycleAt o) }
    else
      match s.write (o :: trail) (s.objectLayout o) b with
      | { buffer := b, failure := none } => s.write trail rest b
      | { buffer := b, failure := some f } => { buffer := b, failure := some (f.inside o) }
termination_by layout => (s.unvisited trail, Layout.weight layout)
decreasing_by
  · exact Prod.Lex.right _ (Nat.lt_succ_self _)
  · exact Prod.Lex.right _ (Nat.lt_succ_self _)
  · rename_i fresh
    by_cases h : s.Has o
    · exact Prod.Lex.left _ _ (unvisited_cons_lt h fresh)
    · rw [unvisited_cons_of_not_has h, objectLayout, fields_of_not_has h]
      exact Prod.Lex.right _ (Nat.lt_add_left _ (Nat.lt_succ_self 2))
  · exact Prod.Lex.right _ (Nat.lt_add_of_pos_right (Nat.succ_pos 2))

/-- Writes a node that starts on a line of the given level. As for the layout, a level is a number
of any size, and stands for a word of 64 bits as long as the level and the depth of the nesting in
the node stay below `2 ^ 64` together. -/
def writeNode (s : Store) (trail : Trail) (level : Nat) (n : Node (Value ObjectId)) (b : Buffer) :
    Run :=
  s.write trail (Layout.ofNode Layout.ofValue level n) b

/-- The text of a node, all of it or none. -/
def print (s : Store) (n : Node (Value ObjectId)) : Except Error String :=
  match s.writeNode [] 0 n {} with
  | { buffer := b, failure := none } => .ok b.text
  | { failure := some f, .. } => .error f.error

end Store

end QueryDoc
