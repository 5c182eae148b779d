import QueryDoc.Proofs.Grammar.Literal
import QueryDoc.Proofs.Numeric.Parts

/-!
Texts without line breaks. What is written of a value has none if the words in the value have none,
where a word is a text that is written as it is; the content of a string is none, since it is
escaped. The same goes for an object if it goes for the fields of all objects that can be reached.
-/

namespace QueryDoc

def LineFree (text : String) : Prop := '\n' ∉ text.toList

instance (text : String) : Decidable (LineFree text) := inferInstanceAs (Decidable (¬ _))

section Texts

variable {a b separator : String} {texts : List String}

@[simp]
theorem lineFree_append : LineFree (a ++ b) ↔ LineFree a ∧ LineFree b := by
  rw [LineFree, String.toList_append, List.mem_append, not_or]
  rfl

theorem lineFree_intercalate (hs : LineFree separator) (h : ∀ t ∈ texts, LineFree t) :
    LineFree (separator.intercalate texts) := by
  induction texts with
  | nil => exact List.not_mem_nil
  | cons t texts ih =>
      cases texts with
      | nil => exact h t (List.mem_cons_self ..)
      | cons u texts =>
          rw [String.intercalate_cons_cons, lineFree_append, lineFree_append]
          exact ⟨⟨h t (List.mem_cons_self ..), hs⟩, ih fun v hv => h v (List.mem_cons_of_mem t hv)⟩

theorem lineFree_bracketed (ha : LineFree a) (hb : LineFree b) (h : ∀ t ∈ texts, LineFree t) :
    LineFree (bracketed a b texts) := by
  rw [bracketed, lineFree_append, lineFree_append]
  exact ⟨⟨ha, lineFree_intercalate (by decide) h⟩, hb⟩

theorem lineFree_repr (n : Nat) : LineFree (Nat.repr n) := by
  intro h
  rw [Nat.toList_repr] at h
  exact absurd (List.all_eq_true.mp (NumeralParts.isDigits_toDigits n).2 _ h) (by decide)

theorem lineFree_encode (text : String) : LineFree (StringLiteral.encode text) :=
  fun h => absurd (Grammar.isControl_of_mem_encode h) (by decide)

end Texts

namespace Value

variable {Ref : Type}

mutual

/-- The texts in a value that are written as they are. -/
def words : Value Ref → List String
  | .int text | .float text => [text]
  | .enumerator name | .var name => [name]
  | .list items => itemWords items
  | _ => []
termination_by structural v => v

def itemWords : List (Value Ref) → List String
  | [] => []
  | v :: items => v.words ++ itemWords items
termination_by structural items => items

end

theorem words_list (items : List (Value Ref)) : (Value.list items).words = items.flatMap words := by
  rw [words]
  induction items with
  | nil => rfl
  | cons v items ih => rw [itemWords, ih, List.flatMap_cons]

theorem lineFree_text {object : Ref → String} (v : Value Ref) (words : ∀ w ∈ v.words, LineFree w)
    (objects : ∀ r ∈ v.refs, LineFree (object r)) : LineFree (v.map object).text := by
  induction v using induct with
  | null => exact (by decide : LineFree "null")
  | bool b =>
      cases b with
      | false => exact (by decide : LineFree "false")
      | true => exact (by decide : LineFree "true")
  | int text | float text => exact words text (List.mem_singleton_self text)
  | string text => exact lineFree_encode text
  | enumerator name => exact words name (List.mem_singleton_self name)
  | var name => exact lineFree_append.mpr ⟨by decide, words name (List.mem_singleton_self name)⟩
  | bytes content =>
      refine lineFree_bracketed (by decide) (by decide) fun t ht => ?_
      obtain ⟨b, -, rfl⟩ := List.mem_map.mp ht
      exact lineFree_repr b.toNat
  | list items ih =>
      rw [words_list] at words
      rw [refs_list] at objects
      rw [map_list, text, itemTexts_eq]
      refine lineFree_bracketed (by decide) (by decide) fun t ht => ?_
      simp only [List.mem_map, exists_exists_and_eq_and] at ht
      obtain ⟨v, hv, rfl⟩ := ht
      exact ih v hv (fun w hw => words w (List.mem_flatMap_of_mem hv hw))
        fun r hr => objects r (List.mem_flatMap_of_mem hv hr)
  | objects refs =>
      refine lineFree_bracketed (by decide) (by decide) fun t ht => ?_
      obtain ⟨r, hr, rfl⟩ := List.mem_map.mp ht
      exact objects r hr
  | object ref => exact objects ref (List.mem_singleton_self ref)

end Value

namespace Store

variable {s : Store} {trail : Trail} {o : ObjectId}

/-- The words in the fields of an object have no line breaks. -/
def LineFreeFields (s : Store) (o : ObjectId) : Prop :=
  ∀ f ∈ s.fields o, LineFree f.name ∧ ∀ w ∈ f.value.words, LineFree w

theorem lineFree_objectText (clear : s.Clear trail o)
    (h : ∀ p, s.Reaches o p → s.LineFreeFields p) : LineFree (s.objectText o) := by
  revert h
  refine clear.induct fun trail o clear ih h => ?_
  obtain ⟨-, below⟩ := clear_iff.mp clear
  rw [objectText_eq clear, objectLayout, Layout.text_ofFields]
  refine lineFree_bracketed (by decide) (by decide) fun t ht => ?_
  simp only [List.mem_map, exists_exists_and_eq_and] at ht
  obtain ⟨f, hf, rfl⟩ := ht
  obtain ⟨name, words⟩ := h o .refl f hf
  refine lineFree_append.mpr ⟨lineFree_append.mpr ⟨name, by decide⟩, ?_⟩
  refine f.value.lineFree_text words fun p hp => ?_
  have inside := mem_objectRefs hf hp
  exact ih p inside (below p inside) fun q hq => h q (.head inside hq)

/-- The text of a value of the store. -/
def valueText (s : Store) (v : Value ObjectId) : String := (v.map s.objectText).text

end Store

end QueryDoc
