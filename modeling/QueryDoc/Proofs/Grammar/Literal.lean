import QueryDoc.Proofs.Grammar.Lexing
import QueryDoc.Proofs.Text

/-!
String literals on their own. A literal is read as the text that it was made from, and what follows
it stays, whatever that is; no part of a literal is one by itself. A control character or a line
break never stands in a literal, and every character but these, quotes and backslashes stands for
itself.
-/

namespace QueryDoc

namespace Grammar

open StringLiteral (escape encode isControl)

variable {cs rest : List Char} {c d : Char}

/-- The content of the string literal in front, which is no block string, and what follows it. -/
def stringLiteral? : List Char → Option (String × List Char)
  | '"' :: cs => do
    let (parts, rest) ← stringParts? cs
    let content ← StringPart.join? parts
    return (String.ofList content, rest)
  | _ => none

def isPlain (c : Char) : Bool := !isControl c && c ≠ '"' && c ≠ '\\'

/-- A plain character is written as it is, any other one as an escape. -/
def Spells (c : Char) (cs : List Char) : Prop :=
  if isPlain c then cs = [c] else ∃ e more, cs = '\\' :: e :: more

theorem spells_escape (c : Char) : Spells c (escape c) := by
  fun_cases escape c with
  | case1 | case2 | case3 | case4 | case5 | case6 | case7 => exact ⟨_, _, rfl⟩
  | case8 _ _ _ _ _ _ _ _ control =>
      rw [Spells, if_neg (by simp [isPlain, control])]
      exact ⟨_, _, rfl⟩
  | case9 _ _ _ _ _ _ quote backslash plain =>
      rw [Spells, if_pos (by simpa [isPlain, plain] using And.intro quote backslash)]

theorem forall₂_spells (content : List Char) :
    List.Forall₂ Spells content (content.map escape) := by
  induction content with
  | nil => exact .nil
  | cons c content ih => exact .cons (spells_escape c) ih

theorem isControl_hexPair : ∀ n : Fin 256,
    (StringLiteral.hexPair n).all fun c => !isControl c := by
  decide +kernel

theorem isControl_of_mem_escape (h : d ∈ escape c) : isControl d = false := by
  revert h
  fun_cases escape c with
  | case1 | case2 | case3 | case4 | case5 | case6 | case7 =>
      intro h
      simp only [List.mem_cons, List.not_mem_nil, or_false] at h
      rcases h with rfl | rfl <;> rfl
  | case8 _ _ _ _ _ _ _ _ control =>
      intro h
      have bound : c.toNat < 256 := by
        simp only [isControl, Bool.or_eq_true, decide_eq_true_eq] at control
        omega
      have pair := isControl_hexPair ⟨c.toNat, bound⟩
      simp only [List.all_eq_true, Bool.not_eq_true'] at pair
      simp only [List.mem_cons] at h
      rcases h with rfl | rfl | rfl | rfl | h
      · rfl
      · rfl
      · rfl
      · rfl
      · exact pair d h
  | case9 _ _ _ _ _ _ _ _ plain =>
      intro h
      rw [List.mem_singleton.mp h]
      simpa using plain

/-- What stands in a literal can be seen, and does not end its line. -/
theorem isControl_of_mem_encode {text : String} (h : c ∈ (encode text).toList) :
    isControl c = false := by
  rw [encode, String.toList_ofList, List.cons_append, List.mem_cons, List.mem_append,
    List.mem_singleton, List.mem_flatMap] at h
  rcases h with rfl | ⟨d, -, hd⟩ | rfl
  · rfl
  · exact isControl_of_mem_escape hd
  · rfl

theorem stringLiteral?_encode (text : String) (rest : List Char) :
    stringLiteral? ((encode text).toList ++ rest) = some (text, rest) := by
  obtain ⟨parts, join, read⟩ := stringParts?_encode text.toList rest
  rw [encode, String.toList_ofList, List.cons_append, List.cons_append, List.append_assoc,
    List.cons_append, List.nil_append, stringLiteral?, read]
  simp only [Option.bind_eq_bind, Option.bind_some, join, String.ofList_toList]
  rfl

/-- Reading stops at the closing quote, so that more text behind it makes no difference. -/
theorem stringParts?_append {parts : List StringPart} (h : stringParts? cs = some (parts, rest))
    (more : List Char) : stringParts? (cs ++ more) = some (parts, rest ++ more) := by
  fun_induction stringParts? cs generalizing parts with
  | case1 cs =>
      cases h
      rw [List.cons_append, stringParts?]
  | case2 a b c d cs ih =>
      simp only [Option.bind_eq_bind, Option.bind_eq_some_iff] at h
      obtain ⟨part, unit, ⟨parts', rest'⟩, read, e⟩ := h
      cases e
      simp only [List.cons_append, stringParts?, unit, ih read]
      rfl
  | case3 e cs noUnit ih =>
      simp only [Option.bind_eq_bind, Option.bind_eq_some_iff] at h
      obtain ⟨c, named, ⟨parts', rest'⟩, read, eq⟩ := h
      cases eq
      have notUnit : e ≠ 'u' := by
        rintro rfl
        cases named
      rw [List.cons_append, List.cons_append, stringParts?, named]
      · simp only [ih read]
        rfl
      · rintro _ _ _ _ _ rfl
        exact absurd rfl notUnit
  | case4 => cases h
  | case5 c cs quote noUnit noEscape plain ih =>
      rw [Option.map_eq_some_iff] at h
      obtain ⟨⟨parts', rest'⟩, read, e⟩ := h
      cases e
      have backslash : c ≠ '\\' := by
        rintro rfl
        exact plain rfl
      rw [List.cons_append, stringParts?, if_neg plain, ih read]
      · rfl
      · exact quote
      · rintro _ _ _ _ _ rfl
        exact absurd rfl backslash
      · rintro _ _ rfl
        exact absurd rfl backslash
  | case6 => cases h

theorem stringLiteral?_append {content : String}
    (h : stringLiteral? cs = some (content, rest)) (more : List Char) :
    stringLiteral? (cs ++ more) = some (content, rest ++ more) := by
  cases cs with
  | nil => cases h
  | cons c cs =>
      by_cases quote : c = '"'
      · subst quote
        simp only [stringLiteral?, Option.bind_eq_bind, Option.bind_eq_some_iff] at h
        obtain ⟨⟨parts, rest'⟩, read, content', join, e⟩ := h
        cases e
        simp only [List.cons_append, stringLiteral?, stringParts?_append read more,
          Option.bind_eq_bind, Option.bind_some, join]
        rfl
      · rw [stringLiteral?] at h
        · cases h
        · rintro _ ⟨⟩
          exact quote rfl

/-- A literal that is not empty is not taken for the start of a block string. -/
theorem not_block_prefix {text : String} (nonempty : text ≠ "") (rest : List Char) :
    ¬ ['"', '"', '"'] <+: (encode text).toList ++ rest := by
  cases content : text.toList with
  | nil => exact absurd (String.toList_eq_nil_iff.mp content) nonempty
  | cons c cs =>
      obtain ⟨d, ds, first, noQuote⟩ := head?_escape c
      rw [encode, String.toList_ofList, content, List.flatMap_cons, first]
      rintro ⟨more, e⟩
      simp only [List.cons_append, List.cons.injEq, true_and] at e
      exact noQuote e.1.symm

end Grammar

namespace Store

open Grammar StringLiteral

/-- What is written for a string is one literal, which gives back the string and leaves all that
follows it. No more and no less than a whole literal can be read as one, so strings with different
content have different literals, and no content ends its literal early. -/
theorem literal_holds_its_content (s : Store) (trail : Trail) (level : Nat) (before text : String) :
    let literal := encode text
    s.print (.value (.string text)) = .ok literal ∧
    s.writeNode trail level (.value (.string text)) { text := before } =
      { buffer := { text := before ++ literal } } ∧
    (∀ after : String, stringLiteral? (literal ++ after).toList = some (text, after.toList)) ∧
    (text = "" ∨ ∀ after : String, ¬ "\"\"\"".toList <+: (literal ++ after).toList) ∧
    (∀ c ∈ literal.toList, 0x1F < c.toNat ∧ c.toNat ≠ 0x7F) ∧
    (∃ parts, List.Forall₂ Spells text.toList parts ∧
      literal.toList = '"' :: parts.flatten ++ ['"']) ∧
    (∀ other after after' : String, encode other ++ after' = literal ++ after →
      other = text ∧ after' = after) ∧
    (∀ front back, literal.toList = front ++ back → back ≠ [] → stringLiteral? front = none) := by
  intro literal
  have written (trail : Trail) (level : Nat) (before : String) :
      s.writeNode trail level (.value (.string text)) { text := before } =
        { buffer := { text := before ++ literal } } := by
    rw [writeNode, Layout.ofNode, Layout.ofValue, write, Buffer.add_eq rfl]
    simp only [write]
    rfl
  have read (content after : String) :
      stringLiteral? (encode content ++ after).toList = some (content, after.toList) := by
    rw [String.toList_append, stringLiteral?_encode]
  refine ⟨?_, written trail level before, read text, ?_, ?_, ?_, ?_, ?_⟩
  · rw [print, written]
    exact congrArg Except.ok String.empty_append
  · refine or_iff_not_imp_left.mpr fun nonempty after => ?_
    rw [String.toList_append]
    exact not_block_prefix nonempty after.toList
  · intro c hc
    have visible := isControl_of_mem_encode hc
    simp only [isControl, Bool.or_eq_false_iff, decide_eq_false_iff_not] at visible
    omega
  · refine ⟨text.toList.map escape, forall₂_spells text.toList, ?_⟩
    rw [← List.flatMap_def]
    exact String.toList_ofList
  · intro other after after' same
    have both := (read other after').symm.trans (same ▸ read text after)
    simp only [Option.some.injEq, Prod.mk.injEq, String.toList_inj] at both
    exact both
  · intro front back split more
    cases part : stringLiteral? front with
    | none => rfl
    | some result =>
        obtain ⟨content, rest⟩ := result
        have whole := stringLiteral?_encode text []
        rw [List.append_nil, split, stringLiteral?_append part back] at whole
        simp only [Option.some.injEq, Prod.mk.injEq, List.append_eq_nil_iff] at whole
        exact absurd whole.2.2 more

end Store

end QueryDoc
