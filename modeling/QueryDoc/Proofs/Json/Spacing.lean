import Mathlib.Data.List.Forall2
import QueryDoc.Proofs.Json.Reading

/-!
The texts of JSON values. Blanks may stand around every token, any character of a string may be
escaped, and a number may be written in any way that is read as it. However a value is written, its
text is taken apart into tokens of that value; one of its texts is the one without blanks.
-/

namespace QueryDoc

open Grammar (Separates)

section Numbers

variable {cs rest left : List Char} {n : Numeral} {k : Option Int}

theorem leadingDigits_in_front (sep : Separates rest) (cs : List Char) :
    leadingDigits (cs ++ rest) = ((leadingDigits cs).1, (leadingDigits cs).2 ++ rest) := by
  induction cs with
  | nil => exact Grammar.leadingDigits_eq rfl (Grammar.isDigit_eq_false_of_head sep)
  | cons c cs ih =>
      rw [List.cons_append, leadingDigits, leadingDigits, ih]
      split <;> rfl

theorem leadingFraction_in_front (sep : Separates rest) (cs : List Char) :
    Numeral.leadingFraction (cs ++ rest) =
      ((Numeral.leadingFraction cs).1, (Numeral.leadingFraction cs).2 ++ rest) := by
  cases cs with
  | nil => exact Grammar.leadingFraction_none fun point => (sep '.' point).2.1 rfl
  | cons c cs =>
      by_cases point : c = '.'
      · subst point
        rw [List.cons_append, Numeral.leadingFraction, Numeral.leadingFraction,
          leadingDigits_in_front sep]
      · have other (cs : List Char) : (c :: cs).head? ≠ some '.' :=
          fun h => point (Option.some.inj h)
        rw [List.cons_append, Grammar.leadingFraction_none (other _),
          Grammar.leadingFraction_none (other _)]
        rfl

theorem leadingSign_in_front (nonempty : cs ≠ []) (rest : List Char) :
    leadingSign (cs ++ rest) = ((leadingSign cs).1, (leadingSign cs).2 ++ rest) := by
  fun_cases leadingSign cs with
  | case1 cs => rfl
  | case2 cs => rfl
  | case3 cs noMinus noPlus =>
      cases cs with
      | nil => exact absurd rfl nonempty
      | cons c cs =>
          rw [List.cons_append, leadingSign]
          · rintro _ ⟨⟩
            exact noMinus _ rfl
          · rintro _ ⟨⟩
            exact noPlus _ rfl

theorem leadingMinus_in_front (nonempty : cs ≠ []) (rest : List Char) :
    Numeral.leadingMinus (cs ++ rest) =
      ((Numeral.leadingMinus cs).1, (Numeral.leadingMinus cs).2 ++ rest) := by
  fun_cases Numeral.leadingMinus cs with
  | case1 cs => rfl
  | case2 cs noMinus =>
      cases cs with
      | nil => exact absurd rfl nonempty
      | cons c cs =>
          rw [List.cons_append, Numeral.leadingMinus]
          rintro _ ⟨⟩
          exact noMinus _ rfl

theorem leadingExponent_in_front (sep : Separates rest)
    (h : Numeral.leadingExponent cs = some (k, left)) :
    Numeral.leadingExponent (cs ++ rest) = some (k, left ++ rest) := by
  cases cs with
  | nil =>
      cases h
      exact Grammar.leadingExponent_none fun c hc => (sep c hc).1
  | cons c cs =>
      rw [List.cons_append, Numeral.leadingExponent]
      rw [Numeral.leadingExponent] at h
      by_cases letter : c = 'e' ∨ c = 'E'
      · rw [if_pos letter] at h ⊢
        have nonempty : cs ≠ [] := by
          rintro rfl
          cases h
        rw [leadingSign_in_front nonempty]
        generalize leadingSign cs = signed at h ⊢
        obtain ⟨negative, body⟩ := signed
        simp only [leadingDigits_in_front sep] at h ⊢
        generalize leadingDigits body = read at h ⊢
        obtain ⟨_ | ⟨d, digits⟩, after⟩ := read
        · cases h
        · cases h
          rfl
      · rw [if_neg letter] at h ⊢
        cases h
        rfl

/-- A numeral is taken whole in front of what may follow it. -/
theorem leading?_in_front (sep : Separates rest) (h : Numeral.leading? cs = some (n, left)) :
    Numeral.leading? (cs ++ rest) = some (n, left ++ rest) := by
  have nonempty : cs ≠ [] := by
    rintro rfl
    cases h
  rw [Numeral.leading?, leadingMinus_in_front nonempty]
  simp only [leadingDigits_in_front sep, leadingFraction_in_front sep]
  rw [Numeral.leading?] at h
  simp only at h
  split at h
  · cases h
  · rename_i allowed
    rw [if_neg allowed]
    split at h
    · rename_i exponent after read
      cases h
      rw [leadingExponent_in_front sep read]
    · cases h

theorem leading?_starts (h : Numeral.leading? cs = some (n, left)) :
    ∃ c tail, cs = c :: tail ∧ (c = '-' ∨ c.isDigit) := by
  cases cs with
  | nil => cases h
  | cons c tail =>
      refine ⟨c, tail, rfl, ?_⟩
      by_contra other
      rw [not_or] at other
      have unsigned : Numeral.leadingMinus (c :: tail) = (false, c :: tail) := by
        rw [Numeral.leadingMinus]
        rintro _ ⟨⟩
        exact other.1 rfl
      have noDigits : leadingDigits (c :: tail) = ([], c :: tail) := by
        rw [leadingDigits, if_neg other.2]
      rw [Numeral.leading?, unsigned] at h
      simp only [noDigits, true_or, if_true, reduceCtorEq] at h

end Numbers

section Strings

variable {c : Char} {cs : List Char}

/-- The ways to write a character in a string: as it is, by the letter of an escape, and by one
number of sixteen bits or two. -/
inductive SpelledChar : Char → List Char → Prop
  | itself {c : Char} : c ≠ '"' → c ≠ '\\' → ¬ c.toNat < 32 → SpelledChar c [c]
  | named {c e : Char} : StringPart.escaped? e = some c → SpelledChar c ['\\', e]
  | unit {a b c d : Char} {n : Nat} : StringPart.unit? a b c d = some (.unit n) →
      StringPart.isLeading n = false → StringPart.isTrailing n = false →
      SpelledChar (Char.ofNat n) ['\\', 'u', a, b, c, d]
  | pair {a b c d a' b' c' d' : Char} {n m : Nat} : StringPart.unit? a b c d = some (.unit n) →
      StringPart.unit? a' b' c' d' = some (.unit m) →
      StringPart.isLeading n = true → StringPart.isTrailing m = true →
      SpelledChar (Char.ofNat (0x10000 + (n - 0xD800) * 0x400 + (m - 0xDC00)))
        ['\\', 'u', a, b, c, d, '\\', 'u', a', b', c', d']

theorem join?_unit_of_single {n : Nat} (noLeading : StringPart.isLeading n = false)
    (noTrailing : StringPart.isTrailing n = false) (parts : List StringPart) :
    StringPart.join? (.unit n :: parts) =
      (StringPart.join? parts).map (Char.ofNat n :: ·) := by
  cases parts with
  | nil => simp [StringPart.join?, noLeading, noTrailing]
  | cons part parts => cases part <;> simp [StringPart.join?, noLeading, noTrailing]

/-- However a character is written, it is scanned as parts that stand for it. -/
theorem SpelledChar.scan (h : SpelledChar c cs) :
    ∃ parts, (∀ more, StringPart.join? (parts ++ more) = (StringPart.join? more).map (c :: ·)) ∧
      ∀ done rest,
        StringPart.scan done (cs ++ rest) = StringPart.scan (parts.reverse ++ done) rest := by
  cases h with
  | itself quote backslash noControl =>
      obtain ⟨part, join, scan⟩ := Json.scansAs_itself quote backslash noControl
      exact ⟨[part], join, scan⟩
  | named letter =>
      obtain ⟨part, join, scan⟩ := Json.scansAs_named letter
      exact ⟨[part], join, scan⟩
  | @unit a b c d n unit noLeading noTrailing =>
      refine ⟨[.unit n], join?_unit_of_single noLeading noTrailing, fun done rest => ?_⟩
      simp only [List.cons_append, List.nil_append, StringPart.scan, unit]
      rfl
  | @pair a b c d a' b' c' d' n m unit unit' leading trailing =>
      refine ⟨[.unit n, .unit m], fun more => ?_, fun done rest => ?_⟩
      · simp only [List.cons_append, List.nil_append, StringPart.join?, leading, trailing, if_true]
      · simp only [List.cons_append, List.nil_append, StringPart.scan, unit, unit']
        rfl

theorem scan_spelled {content : List Char} {pieces : List (List Char)}
    (h : List.Forall₂ SpelledChar content pieces) (done : List StringPart) (rest : List Char) :
    ∃ parts, StringPart.join? parts = some content ∧
      StringPart.scan done (pieces.flatten ++ '"' :: rest) =
        some (done.reverse ++ parts, rest) := by
  induction h generalizing done with
  | nil =>
      refine ⟨[], rfl, ?_⟩
      rw [List.flatten_nil, List.nil_append, StringPart.scan, List.append_nil]
  | cons first _ ih =>
      obtain ⟨front, joinFront, scanFront⟩ := first.scan
      obtain ⟨parts, join, scanned⟩ := ih (front.reverse ++ done)
      refine ⟨front ++ parts, ?_, ?_⟩
      · rw [joinFront, join, Option.map_some]
      · rw [List.flatten_cons, List.append_assoc, scanFront, scanned, List.reverse_append,
          List.reverse_reverse, List.append_assoc]

theorem spelledChar_escape (c : Char) : SpelledChar c (Json.escape c) := by
  fun_cases Json.escape c with
  | case1 | case2 | case3 | case4 | case5 | case6 | case7 => exact .named rfl
  | case8 _ _ _ _ _ _ _ _ control =>
      have unit := Json.unit?_control ⟨c.toNat, control⟩
      have single : ∀ n : Fin 32,
          StringPart.isLeading n = false ∧ StringPart.isTrailing n = false := by
        decide
      have spelled := SpelledChar.unit unit (single ⟨c.toNat, control⟩).1
        (single ⟨c.toNat, control⟩).2
      rwa [Char.ofNat_toNat] at spelled
  | case9 _ quote backslash _ _ _ _ _ noControl => exact .itself quote backslash noControl

end Strings

section Texts

variable {t : Token} {ts us : List Token} {cs rest : List Char} {j : Json} {text : String}

/-- The ways to write a token. -/
inductive Token.Spelled : Token → List Char → Prop
  | openArray : Spelled .openArray ['[']
  | closeArray : Spelled .closeArray [']']
  | openObject : Spelled .openObject ['\x7b']
  | closeObject : Spelled .closeObject ['\x7d']
  | comma : Spelled .comma [',']
  | colon : Spelled .colon [':']
  | null : Spelled .null ['n', 'u', 'l', 'l']
  | boolTrue : Spelled (.bool true) ['t', 'r', 'u', 'e']
  | boolFalse : Spelled (.bool false) ['f', 'a', 'l', 's', 'e']
  | string {content : List Char} {pieces : List (List Char)} :
      List.Forall₂ SpelledChar content pieces →
        Spelled (.string (some (String.ofList content))) ('"' :: (pieces.flatten ++ ['"']))
  | number {n : Numeral} {cs : List Char} : Numeral.leading? cs = some (n, []) →
      Spelled (.number n) cs

/-- Tokens with blanks anywhere around them. After a number stands what is no part of it. -/
inductive Spaced : List Token → List Char → Prop
  | nil : Spaced [] []
  | blank {c : Char} {ts : List Token} {cs : List Char} : Token.isBlank c = true → Spaced ts cs →
      Spaced ts (c :: cs)
  | token {t : Token} {ts : List Token} {spelling cs : List Char} : t.Spelled spelling →
      (∀ n, t = .number n → Separates cs) → Spaced ts cs → Spaced (t :: ts) (spelling ++ cs)

theorem Token.Spelled.scan (h : t.Spelled cs) (apart : ∀ n, t = .number n → Separates rest) :
    Token.scan (cs ++ rest) = t :: Token.scan rest := by
  cases h with
  | @string content pieces spelled =>
      obtain ⟨parts, join, scanned⟩ := scan_spelled spelled [] rest
      rw [List.cons_append, List.append_assoc, List.singleton_append]
      refine Json.scan_token rfl ?_
      simp only [Token.leading?, scanned, Option.map_some, List.reverse_nil, List.nil_append, join]
  | @number n cs read =>
      have read' := leading?_in_front (apart n rfl) read
      obtain ⟨c, tail, rfl, start⟩ := leading?_starts read
      rw [List.cons_append] at read' ⊢
      refine Json.scan_token (Json.isBlank_of_number start) ?_
      rw [Json.leading?_of_number start, read', Option.map_some, List.nil_append]
  | _ => exact Json.scan_token rfl rfl

theorem Spaced.scan (h : Spaced ts cs) : Token.scan cs = ts := by
  induction h with
  | nil => rw [Token.scan]
  | blank blank _ ih => rw [Token.scan, if_pos blank, ih]
  | token spelled apart _ ih => rw [spelled.scan apart, ih]

/-- The text is one of those of the value. -/
def Json.IsText (j : Json) (text : String) : Prop := ∃ ts, j.WrittenAs ts ∧ Spaced ts text.toList

theorem Json.IsText.scan (h : j.IsText text) : j.WrittenAs (Token.scan text.toList) := by
  obtain ⟨ts, written, spaced⟩ := h
  rwa [spaced.scan]

end Texts

section Compact

open Json (row entryText entryTokens stringText)

variable {us : List Token} {rest : List Char}

/-- The text without blanks is one of those of the value, in front of others as well. -/
def InFront (ts : List Token) (cs : List Char) : Prop :=
  ∀ us rest, Separates rest → Spaced us rest → Spaced (ts ++ us) (cs ++ rest)

theorem Token.Spelled.inFront {t : Token} {cs : List Char} (h : t.Spelled cs) : InFront [t] cs :=
  fun _ _ sep others => .token h (fun _ _ => sep) others

theorem inFront_string (text : String) :
    InFront [.string (some text)] (stringText text).toList := by
  have pieces : List.Forall₂ SpelledChar text.toList (text.toList.map Json.escape) :=
    List.forall₂_map_right_iff.mpr (List.forall₂_same.mpr fun c _ => spelledChar_escape c)
  have spelled := Token.Spelled.string pieces
  rw [String.ofList_toList, ← List.flatMap_def] at spelled
  rw [stringText, String.toList_ofList]
  exact spelled.inFront

theorem spaced_mark {t : Token} {c : Char} {us : List Token} {rest : List Char}
    (mark : t.Spelled [c]) (noNumber : ∀ n, t ≠ .number n) (others : Spaced us rest) :
    Spaced (t :: us) (c :: rest) :=
  .token mark (fun n number => absurd number (noNumber n)) others

theorem inFront_row {α : Type} {text : α → List Char} {parts : α → List Token} {xs : List α}
    {o c : Char} {t u : Token} (h : ∀ x ∈ xs, InFront (parts x) (text x)) (opens : t.Spelled [o])
    (closes : u.Spelled [c]) (noNumber : ∀ n, t ≠ .number n ∧ u ≠ .number n)
    (ends : Grammar.isNameContinue c = false ∧ c ≠ '.' ∧ c ≠ '"') :
    InFront (t :: (row .comma parts xs ++ [u])) (o :: (row ',' text xs ++ [c])) := by
  intro us rest _ others
  rw [List.cons_append, List.cons_append, List.append_assoc, List.append_assoc]
  exact Json.row_in_front h (fun _ _ => spaced_mark .comma nofun)
    (fun _ _ => spaced_mark opens fun n => (noNumber n).1)
    (fun _ _ => spaced_mark closes fun n => (noNumber n).2) ends us rest others

theorem inFront_entry {m : Entry Json} (h : InFront m.value.tokens m.value.text.toList) :
    InFront (entryTokens m) (entryText m) := by
  intro us rest sep others
  have value := spaced_mark .colon nofun (h us rest sep others)
  have name := inFront_string m.name _ _ (Json.separates_cons (by decide) _) value
  rw [entryText, List.append_assoc]
  exact name

theorem inFront_text (j : Json) : InFront j.tokens j.text.toList := by
  induction j using Json.induct with
  | null => exact Token.Spelled.null.inFront
  | bool b =>
      cases b with
      | true => exact Token.Spelled.boolTrue.inFront
      | false => exact Token.Spelled.boolFalse.inFront
  | number n => exact (Token.Spelled.number n.leading?_text_all).inFront
  | string text => exact inFront_string text
  | array items ih =>
      rw [Json.tokens_array, Json.toList_text_array]
      exact inFront_row ih .openArray .closeArray (by simp) (by decide)
  | object members ih =>
      rw [Json.tokens_object, Json.toList_text_object]
      exact inFront_row (fun m hm => inFront_entry (ih m hm)) .openObject .closeObject (by simp)
        (by decide)

/-- What is written for a value is one of its texts, if its floats are read as the nearest ones. -/
theorem Json.isText_text (j : Json) (nearest : ∀ n ∈ j.numbers, n.ReadAsNearest) :
    j.IsText j.text := by
  have spaced := inFront_text j [] [] NumeralParts.separates_nil .nil
  rw [List.append_nil, List.append_nil] at spaced
  exact ⟨_, writtenAs_tokens j nearest, spaced⟩

end Compact

end QueryDoc
