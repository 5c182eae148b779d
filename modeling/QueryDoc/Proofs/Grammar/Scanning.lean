import QueryDoc.Proofs.Grammar.Lexing
import QueryDoc.Proofs.Grammar.Spelling
import QueryDoc.Proofs.Text

/-!
The text of every part of a document gives the tokens of that part, if the texts of the values in it
do. A part that ends with a closing punctuator is closed; the others end in a name, a number, a
string or a type, and what the layout puts after them separates them from the next part.
-/

namespace QueryDoc.Grammar

variable {Ref V α : Type}

section Rows

variable {text : α → String} {tokens : α → List Token} {xs : List α}

theorem scans_intercalate {separator : String} (closed : Closed separator [])
    (apart : Apart separator) (h : ∀ x ∈ xs, Scans (text x) (tokens x)) :
    Scans (separator.intercalate (xs.map text)) (xs.flatMap tokens) := by
  induction xs with
  | nil => exact (closed_ignored (by simp)).scans
  | cons x xs ih =>
      have first := h x (List.mem_cons_self ..)
      have others := ih fun y hy => h y (List.mem_cons_of_mem x hy)
      cases xs with
      | nil => simpa using first
      | cons y ys =>
          rw [List.map_cons, List.map_cons, String.intercalate_cons_cons, ← List.map_cons,
            List.flatMap_cons]
          have front := first.append_closed closed apart
          rw [List.append_nil] at front
          exact front.append_scans others

theorem closed_comma : Closed ", " [] := closed_ignored (by decide)

theorem apart_comma : Apart ", " := apart_of_cons rfl (by decide)

/-- Texts that are a punctuator each, of which the second one ends what stands before it. -/
structure Encloses (opening closing : String) (o c : Char) : Prop where
  opens : opening.toList = [o]
  closes : closing.toList = [c]
  opening_isPunctuator : isPunctuator o
  closing_isPunctuator : isPunctuator c
  apart : isNameContinue c = false ∧ c ≠ '.' ∧ c ≠ '"'

theorem encloses_brackets : Encloses "[" "]" '[' ']' := by constructor <;> decide

theorem encloses_parentheses : Encloses "(" ")" '(' ')' := by constructor <;> decide

theorem encloses_braces : Encloses "\x7b" "\x7d" '\x7b' '\x7d' := by constructor <;> decide

variable {opening closing : String} {o c : Char}

theorem Encloses.closed (pair : Encloses opening closing o c) {inner : String} {ts : List Token}
    (h : Scans inner ts) : Closed (opening ++ inner ++ closing) (between o c ts) := by
  have front := (closed_punctuator pair.opens pair.opening_isPunctuator).append_scans h
  exact front.append_closed (closed_punctuator pair.closes pair.closing_isPunctuator)
    (apart_of_cons pair.closes pair.apart)

theorem Encloses.bracketed (pair : Encloses opening closing o c)
    (h : ∀ x ∈ xs, Scans (text x) (tokens x)) :
    Closed (bracketed opening closing (xs.map text)) (between o c (xs.flatMap tokens)) :=
  pair.closed (scans_intercalate closed_comma apart_comma h)

end Rows

section Values

variable {object : Ref → String} {objects : Ref → List Token} {constant : Bool}

theorem scans_value {v : Value Ref} (form : IsValue constant v)
    (h : ∀ r ∈ v.refs, Scans (object r) (objects r)) :
    Scans (v.map object).text (valueTokens (v.map objects)) := by
  induction v using Value.induct with
  | null =>
      have word : IsName "null" := by decide
      exact scans_name word
  | bool b =>
      have words : IsName "true" ∧ IsName "false" := by decide
      cases b with
      | true => exact scans_name words.1
      | false => exact scans_name words.2
  | int text => exact scans_int form
  | float text => exact scans_float form
  | string text => exact scans_string text
  | enumerator name => exact scans_name form.1
  | var name =>
      exact (closed_punctuator rfl (by decide)).append_scans (scans_name form.2)
  | bytes content =>
      have row := encloses_brackets.bracketed fun (b : UInt8) (_ : b ∈ content) =>
        scans_int (isInt_repr b.toNat)
      rw [← List.map_eq_flatMap] at row
      exact row.scans
  | list items ih =>
      have row := encloses_brackets.bracketed fun v hv =>
        ih v hv (isValue_list.mp form v hv) fun r hr =>
          h r (by rw [Value.refs_list]; exact List.mem_flatMap_of_mem hv hr)
      rw [Value.map_list, Value.map_list, Value.text, Value.itemTexts_eq, valueTokens,
        itemTokens_eq, List.map_map, List.flatMap_map]
      exact row.scans
  | objects refs =>
      have row := encloses_brackets.bracketed h
      rw [List.flatMap_def] at row
      exact row.scans
  | object ref => exact h ref (List.mem_singleton_self ref)

end Values

section Nodes

variable {value : V → Layout Ref} {object : Ref → String} {tokens : V → List Token}
  {good : V → Prop} (values : ∀ v, good v → Scans ((value v).text object) (tokens v))

theorem closed_colon : Closed ": " [.punctuator ':'] := by
  have colon : Closed ":" [.punctuator ':'] := closed_punctuator rfl (by decide)
  have blank : Closed " " [] := closed_ignored (by decide)
  exact colon.append blank

theorem apart_colon : Apart ": " := apart_of_cons rfl (by decide)

include values in
theorem scans_entry {e : Entry V} (form : IsEntry good e) :
    Scans ((Layout.ofEntry value e).text object) (entryTokens tokens e) := by
  have name := (scans_name form.name).append_closed closed_colon apart_colon
  rw [Layout.ofEntry, Layout.text]
  exact name.append_scans (values e.value form.value)

include values in
theorem attaches_arguments {arguments : List (Entry V)}
    (form : ∀ e ∈ arguments, IsEntry good e) :
    Attaches ((Layout.ofArguments value arguments).text object)
      (parenthesized (entryTokens tokens) arguments) := by
  cases arguments with
  | nil => exact .inl ⟨rfl, rfl⟩
  | cons e es =>
      have row := encloses_parentheses.bracketed fun e he => scans_entry values (form e he)
      rw [Layout.ofArguments, Layout.text_enclosed, List.map_map, parenthesized,
        if_neg (List.cons_ne_nil e es)]
      · exact .inr ⟨row.scans, (Apart.append (apart_of_cons rfl (by decide)) _).append _⟩
      · exact List.cons_ne_nil e es

theorem scans_head {f : Field V} (aliasName : ∀ n ∈ f.aliasName, IsName n)
    (name : IsName f.name) : Scans (Layout.fieldHead f) (headTokens f) := by
  rw [Layout.fieldHead, headTokens]
  cases e : f.aliasName with
  | none => exact scans_name name
  | some n =>
      have front := (scans_name (aliasName n e)).append_closed closed_colon apart_colon
      exact front.append_scans (scans_name name)

theorem closed_lineBreak (level : Nat) : Closed (Buffer.lineBreak level) [] := by
  apply closed_ignored
  rw [Buffer.lineBreak, String.toList_append, List.all_append, Bool.and_eq_true]
  refine ⟨by decide, List.all_eq_true.mpr fun c hc => ?_⟩
  rw [String.toList_ofList] at hc
  have blank : c = ' ' := List.eq_of_mem_replicate hc
  rw [blank]
  decide

theorem apart_lineBreak (level : Nat) : Apart (Buffer.lineBreak level) :=
  Apart.append (apart_of_cons rfl (by decide)) _

theorem attaches_lines {fields : List (Field V)} (level : Nat)
    (h : ∀ f ∈ fields, ∀ level, Scans ((Layout.ofField value level f).text object)
      (fieldTokens tokens f)) :
    Attaches ((Layout.ofLines value level fields).text object)
      (fields.flatMap (fieldTokens tokens)) := by
  induction fields with
  | nil => exact .inl ⟨rfl, rfl⟩
  | cons f fields ih =>
      have line := (closed_lineBreak level).append_scans (h f (List.mem_cons_self ..) level)
      have attached : Attaches _ _ := .inr ⟨line, (apart_lineBreak level).append _⟩
      have others := ih fun g hg => h g (List.mem_cons_of_mem f hg)
      rw [Layout.ofLines, Layout.text_append, Layout.text, List.flatMap_cons]
      exact attached.attach others

theorem closed_selections {fields : List (Field V)} (level : Nat) (nonempty : fields ≠ [])
    (h : ∀ f ∈ fields, ∀ level, Scans ((Layout.ofField value level f).text object)
      (fieldTokens tokens f)) :
    Closed ((Layout.ofSelections value level fields).text object)
      (between '\x7b' '\x7d' (fields.flatMap (fieldTokens tokens))) := by
  have lines := (attaches_lines (level + 1) h).scans.append_closed (closed_lineBreak level)
    (apart_lineBreak level)
  rw [List.append_nil] at lines
  have braces := encloses_braces.closed lines.scans
  rw [Layout.ofSelections]
  · simpa [Layout.text, String.append_assoc] using braces
  · exact nonempty

include values in
theorem scans_field {f : Field V} (form : IsField good f) (level : Nat) :
    Scans ((Layout.ofField value level f).text object) (fieldTokens tokens f) := by
  induction f using Field.induct generalizing level with
  | mk aliasName name arguments selections ih =>
      obtain ⟨isAlias, isName, isArguments, isSelections⟩ := form
      have head := scans_head isAlias isName
      have arguments := attaches_arguments values isArguments
      rw [Layout.ofField_eq, Layout.text, Layout.text_append, fieldTokens_eq]
      refine head.attach (arguments.attach ?_)
      by_cases empty : selections = []
      · rw [if_pos empty, if_pos empty]
        exact .inl ⟨rfl, rfl⟩
      · have inner := closed_selections level empty fun g hg level =>
          ih g hg (isSelections g hg) level
        have blank : Closed " " [] := closed_ignored (by decide)
        rw [if_neg empty, if_neg empty, Layout.text]
        exact .inr ⟨blank.append_scans inner.scans, Apart.append (apart_of_cons rfl (by decide)) _⟩

theorem scans_type (object : Ref → String) {t : TypeRef} (form : IsType t) :
    Scans ((Layout.ofTypeRef t).text object) (typeTokens t) := by
  induction t with
  | named name =>
      rw [Layout.ofTypeRef, Layout.text, Layout.text, String.append_empty]
      exact scans_name form
  | list item ih =>
      have brackets := encloses_brackets.closed (ih form)
      rw [Layout.ofTypeRef, List.cons_append, Layout.text, Layout.text_append]
      simpa [Layout.text, typeTokens, String.append_assoc] using brackets.scans
  | nonNull inner ih =>
      have mark : Closed "!" [.punctuator '!'] := closed_punctuator rfl (by decide)
      have apart : Apart "!" := apart_of_cons rfl (by decide)
      rw [Layout.ofTypeRef, Layout.text_append]
      simpa [Layout.text, typeTokens] using ((ih form.1).append_closed mark apart).scans

include values in
theorem scans_variableDefinition {d : VariableDefinition V}
    (form : IsVariableDefinition good d) :
    Scans ((Layout.ofVariableDefinition value d).text object) (definitionTokens tokens d) := by
  have dollar : Closed "$" [.punctuator '$'] := closed_punctuator rfl (by decide)
  have name := (dollar.append_scans (scans_name form.name)).append_closed closed_colon apart_colon
  have typed := name.append_scans (scans_type object form.type)
  obtain ⟨n, t, default⟩ := d
  cases default with
  | none =>
      simpa [Layout.ofVariableDefinition, Layout.text, definitionTokens, defaultTokens] using typed
  | some v =>
      have blank : Closed " " [] := closed_ignored (by decide)
      have sign : Closed "=" [.punctuator '='] := closed_punctuator rfl (by decide)
      have equals : Closed " = " [.punctuator '='] := (blank.append sign).append blank
      have apart : Apart " = " := apart_of_cons rfl (by decide)
      have default := equals.append_scans (values v (form.default v rfl))
      rw [Layout.ofVariableDefinition, List.cons_append, Layout.text, Layout.text_append,
        ← String.append_assoc]
      exact typed.append default (apart.append _)

include values in
theorem attaches_definitions {ds : List (VariableDefinition V)}
    (form : ∀ d ∈ ds, IsVariableDefinition good d) :
    Attaches ((Layout.ofVariableDefinitions value ds).text object)
      (parenthesized (definitionTokens tokens) ds) := by
  by_cases empty : ds = []
  · rw [empty]
    exact .inl ⟨rfl, rfl⟩
  · have row := encloses_parentheses.bracketed fun d hd =>
      scans_variableDefinition values (form d hd)
    rw [Layout.ofVariableDefinitions, Layout.text_enclosed, List.map_map, parenthesized,
      if_neg empty]
    · exact .inr ⟨row.scans, (Apart.append (apart_of_cons rfl (by decide)) _).append _⟩
    · exact empty

theorem attaches_name (object : Ref → String) {op : Operation V}
    (form : ∀ n ∈ op.name, IsName n) :
    Attaches (Layout.text object (Layout.ofOperationName op)) (op.name.toList.map .name) := by
  have blank : Closed " " [] := closed_ignored (by decide)
  have apart : Apart " " := apart_of_cons rfl (by decide)
  rw [Layout.ofOperationName]
  cases e : op.name with
  | none =>
      by_cases empty : op.definitions = []
      · simp only [if_pos empty]
        exact .inl ⟨rfl, rfl⟩
      · simp only [if_neg empty]
        exact .inr ⟨blank.scans, apart⟩
  | some n =>
      simp only [Layout.text, String.append_empty]
      exact .inr ⟨blank.append_scans (scans_name (form n e)), apart.append n⟩

end Nodes

section Documents

variable {value : V → Layout Ref} {object : Ref → String} {tokens : V → List Token}
  {good : Bool → V → Prop}
  (values : ∀ constant v, good constant v → Scans ((value v).text object) (tokens v))

theorem isName_keyword (kind : OperationKind) : IsName kind.keyword := by
  cases kind <;> decide

include values in
theorem scans_operation {op : Operation V} (form : IsOperation good op) (level : Nat) :
    Scans ((Layout.ofOperation value level op).text object) (operationTokens tokens op) := by
  have keyword := scans_name (isName_keyword op.kind)
  have name := attaches_name object form.name
  have definitions := attaches_definitions (values true) form.definitions
  have inner := closed_selections level form.nonempty fun f hf level =>
    scans_field (values false) (form.selections f hf) level
  have blank : Closed " " [] := closed_ignored (by decide)
  have body : Attaches (" " ++ (Layout.ofSelections value level op.selections).text object)
      (between '\x7b' '\x7d' (op.selections.flatMap (fieldTokens tokens))) :=
    .inr ⟨blank.append_scans inner.scans, Apart.append (apart_of_cons rfl (by decide)) _⟩
  rw [Layout.ofOperation_eq, Layout.text, Layout.text_append, Layout.text_append, Layout.text,
    Layout.ofOperationBody, if_neg form.nonempty]
  exact keyword.attach (name.attach (definitions.attach body))

include values in
theorem scans_document {d : Document V} (form : IsDocument good d) (level : Nat) :
    Scans ((Layout.ofDocument value level d).text object) (documentTokens tokens d) := by
  have lines : Closed "\n\n" [] := closed_ignored (by decide)
  have apart : Apart "\n\n" := apart_of_cons rfl (by decide)
  rw [Layout.ofDocument, Layout.text_separated, List.map_map]
  exact scans_intercalate lines apart fun op hop =>
    scans_operation values (form.operations op hop) level

end Documents

end QueryDoc.Grammar
