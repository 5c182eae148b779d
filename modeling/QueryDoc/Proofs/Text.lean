import QueryDoc.Proofs.Tree
import QueryDoc.Proofs.Writing

/-!
The text that writing leaves in a buffer. A layout has a text once its objects have one. Trees have
a text without a store and without a trail, by recursion on the tree alone; it is what writing makes
of an object from which no cycle can be reached, at every place where the object stands.
-/

namespace QueryDoc

variable {Ref V : Type}

/-- Parts in brackets, with a comma and a blank between each two of them. -/
def bracketed (opening closing : String) (parts : List String) : String :=
  opening ++ ", ".intercalate parts ++ closing

namespace Value

mutual

/-- The text of a value whose objects are texts already. -/
def text : Value String → String
  | .null => "null"
  | .bool b => if b then "true" else "false"
  | .int text | .float text => text
  | .string text => StringLiteral.encode text
  | .enumerator name => name
  | .var name => "$" ++ name
  | .bytes content => bracketed "[" "]" (content.map fun b => Nat.repr b.toNat)
  | .list items => bracketed "[" "]" (itemTexts items)
  | .objects texts => bracketed "[" "]" texts
  | .object text => text
termination_by structural v => v

def itemTexts : List (Value String) → List String
  | [] => []
  | v :: items => v.text :: itemTexts items
termination_by structural items => items

end

theorem itemTexts_eq (items : List (Value String)) : itemTexts items = items.map text := by
  induction items with
  | nil => rfl
  | cons v items ih => rw [itemTexts, ih, List.map_cons]

end Value

/-- The text of an argument or of an object's field. -/
def Entry.text (e : Entry (Value String)) : String := e.name ++ ": " ++ e.value.text

def ObjectTree.text : ObjectTree → String :=
  fold fun fields => bracketed "\x7b" "\x7d" (fields.map Entry.text)

namespace Layout

variable (object : Ref → String)

/-- The text of a layout whose objects have the given texts. -/
def text : Layout Ref → String
  | [] => ""
  | .text t :: rest => t ++ text rest
  | .lineBreak level :: rest => Buffer.lineBreak level ++ text rest
  | .object ref :: rest => object ref ++ text rest

@[simp]
theorem text_append (a b : Layout Ref) : text object (a ++ b) = text object a ++ text object b := by
  induction a with
  | nil => simp [text]
  | cons p a ih => cases p <;> simp [text, ih, String.append_assoc]

theorem text_separated (separator : String) (parts : List (Layout Ref)) :
    text object (separated separator parts) =
      separator.intercalate (parts.map (text object)) := by
  induction parts with
  | nil => rfl
  | cons part parts ih =>
      cases parts with
      | nil => simp [separated]
      | cons next parts =>
          rw [separated, text_append, text, ih]
          simp only [List.map_cons, String.intercalate_cons_cons, String.append_assoc]

@[simp]
theorem text_enclosed (opening closing : String) (parts : List (Layout Ref)) :
    text object (enclosed opening closing parts) =
      bracketed opening closing (parts.map (text object)) := by
  rw [enclosed, List.cons_append, text, text_append, text_separated, text, text]
  simp [bracketed, String.append_assoc]

theorem text_ofValue (v : Value Ref) : text object (ofValue v) = (v.map object).text := by
  induction v using Value.induct with
  | null | bool _ | int _ | float _ | string _ | enumerator _ | var _ | object _ =>
      exact String.append_empty
  | bytes content =>
      rw [ofValue, text_enclosed, List.map_map]
      refine congrArg (bracketed "[" "]") (List.map_congr_left fun b _ => ?_)
      exact String.append_empty
  | list items ih =>
      rw [ofValue, ofItems_eq, text_enclosed, Value.map_list, Value.text, Value.itemTexts_eq,
        List.map_map, List.map_map]
      exact congrArg (bracketed "[" "]") (List.map_congr_left ih)
  | objects refs =>
      rw [ofValue, text_enclosed, List.map_map]
      refine congrArg (bracketed "[" "]") (List.map_congr_left fun r _ => ?_)
      exact String.append_empty

theorem text_ofEntry (e : Entry (Value Ref)) :
    text object (ofEntry ofValue e) = (e.map (Value.map object)).text := by
  rw [ofEntry, text, text_ofValue]
  rfl

theorem text_ofFields (fields : List (Entry (Value Ref))) :
    text object (ofFields ofValue fields) =
      bracketed "\x7b" "\x7d" ((fields.map (Entry.map (Value.map object))).map Entry.text) := by
  rw [ofFields, text_enclosed, List.map_map, List.map_map]
  exact congrArg (bracketed _ _) (List.map_congr_left fun e _ => text_ofEntry object e)

end Layout

namespace Buffer

variable {b b' : Buffer}

theorem add_eq (unlimited : b.limit = none) (t : String) :
    b.add? t = some { b with text := b.text ++ t } := by
  rw [add?, hasRoom, unlimited, if_pos rfl]

theorem addLineBreak_eq (unlimited : b.limit = none) (level : Nat) :
    b.addLineBreak? level = some { b with text := b.text ++ lineBreak level } := by
  rw [addLineBreak?, hasRoom, unlimited, if_pos rfl]

end Buffer

namespace Store

variable {s : Store} {trail : Trail} {o : ObjectId}

/-- The text of an object that contains neither itself nor anything that does. -/
def objectText (s : Store) (o : ObjectId) : String := (s.tree o).text

theorem objectText_eq (h : s.Clear trail o) :
    s.objectText o = (s.objectLayout o).text s.objectText := by
  rw [objectText, ObjectTree.text, fold_tree _ h, objectLayout, Layout.text_ofFields]
  rfl

theorem clear_objectLayout (h : s.Clear trail o) :
    ∀ p ∈ (s.objectLayout o).refs, s.Clear (o :: trail) p := by
  rw [refs_objectLayout]
  exact (clear_iff.mp h).2

/-- Writing adds the text of the layout, if nothing on the trail or on a cycle is in reach. -/
theorem write_text (s : Store) (trail : Trail) (layout : Layout ObjectId) (b : Buffer)
    (unlimited : b.limit = none) (clear : ∀ o ∈ layout.refs, s.Clear trail o) :
    s.write trail layout b =
      { buffer := { b with text := b.text ++ layout.text s.objectText } } := by
  revert unlimited clear
  induction trail, layout, b using write_induct (s := s) with
  | done trail b =>
      intro _ _
      rw [Layout.text, String.append_empty]
  | text trail t rest b b' added ih =>
      intro unlimited clear
      rw [Buffer.add_eq unlimited, Option.some.injEq] at added
      subst added
      rw [ih unlimited clear, Layout.text, String.append_assoc]
  | lineBreak trail level rest b b' added ih =>
      intro unlimited clear
      rw [Buffer.addLineBreak_eq unlimited, Option.some.injEq] at added
      subst added
      rw [ih unlimited clear, Layout.text, String.append_assoc]
  | textRefused trail t rest b refused =>
      intro unlimited _
      cases refused.symm.trans (Buffer.add_eq unlimited t)
  | lineBreakRefused trail level rest b refused =>
      intro unlimited _
      cases refused.symm.trans (Buffer.addLineBreak_eq unlimited level)
  | met trail o rest b h =>
      intro _ clear
      exact absurd h (clear_iff.mp (clear o (List.mem_cons_self ..))).1
  | object trail o rest b b' h written ih ihrest =>
      intro unlimited clear
      have inner := clear o (List.mem_cons_self ..)
      have fields := ih unlimited (clear_objectLayout inner)
      rw [← objectText_eq inner, Run.mk.injEq] at fields
      obtain ⟨rfl, -⟩ := fields
      rw [ihrest unlimited fun p hp => clear p (List.mem_cons_of_mem o hp), Layout.text,
        String.append_assoc]
  | inside trail o rest b b' f h ih =>
      intro unlimited clear
      cases ih unlimited (clear_objectLayout (clear o (List.mem_cons_self ..)))

theorem print_text {n : Node (Value ObjectId)} (clear : ∀ o ∈ n.refs, s.Clear [] o) :
    s.print n = .ok ((Layout.ofNode Layout.ofValue 0 n).text s.objectText) := by
  have written := write_text s [] (Layout.ofNode Layout.ofValue 0 n) {} rfl
    (by rwa [refs_ofNode_ofValue])
  rw [print, writeNode, written]
  exact congrArg Except.ok (String.empty_append)

end Store

end QueryDoc
