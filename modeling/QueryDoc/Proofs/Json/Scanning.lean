import QueryDoc.Proofs.Grammar.Lexing
import QueryDoc.Proofs.Json.Canonical
import QueryDoc.Proofs.Json.Number

/-!
The tokens of JSON texts. The text of a value is taken apart into the tokens of that value, whatever
follows it, if this does not go on with a number.
-/

namespace QueryDoc.Json

open Grammar (Separates)

section Tokens

mutual

/-- The tokens that a value is written with. -/
def tokens : Json → List Token
  | .null => [.null]
  | .bool b => [.bool b]
  | .number n => [.number n.parts.numeral]
  | .string text => [.string (some text)]
  | .array items => .openArray :: (itemTokens items ++ [.closeArray])
  | .object members => .openObject :: (memberTokens members ++ [.closeObject])
termination_by structural j => j

def itemTokens : List Json → List Token
  | [] => []
  | j :: items => j.tokens ++ moreItems items
termination_by structural items => items

/-- Items after the first one. -/
def moreItems : List Json → List Token
  | [] => []
  | j :: items => .comma :: (j.tokens ++ moreItems items)
termination_by structural items => items

def memberTokens : List (Entry Json) → List Token
  | [] => []
  | ⟨name, j⟩ :: members => .string (some name) :: .colon :: (j.tokens ++ moreMembers members)
termination_by structural members => members

/-- Members after the first one. -/
def moreMembers : List (Entry Json) → List Token
  | [] => []
  | ⟨name, j⟩ :: members =>
    .comma :: .string (some name) :: .colon :: (j.tokens ++ moreMembers members)
termination_by structural members => members

end

/-- The tokens of a member: its name, a colon and its value. -/
def entryTokens (m : Entry Json) : List Token := .string (some m.name) :: .colon :: m.value.tokens

/-- Parts in a row, with a separator between them. -/
def row {α β : Type} (separator : β) (part : α → List β) : List α → List β
  | [] => []
  | x :: xs => part x ++ xs.flatMap fun y => separator :: part y

theorem row_singleton {α β : Type} (separator : β) (part : α → List β) (x : α) :
    row separator part [x] = part x :=
  List.append_nil _

theorem row_cons_cons {α β : Type} (separator : β) (part : α → List β) (x y : α) (xs : List α) :
    row separator part (x :: y :: xs) = part x ++ separator :: row separator part (y :: xs) := rfl

theorem itemTokens_eq (items : List Json) : itemTokens items = row .comma tokens items := by
  have more (items : List Json) : moreItems items = items.flatMap fun j => .comma :: j.tokens := by
    induction items with
    | nil => rfl
    | cons j items ih => rw [moreItems, ih, List.flatMap_cons, List.cons_append]
  cases items with
  | nil => rfl
  | cons j items => rw [itemTokens, more, row]

theorem memberTokens_eq (members : List (Entry Json)) :
    memberTokens members = row .comma entryTokens members := by
  have more (members : List (Entry Json)) :
      moreMembers members = members.flatMap fun m => .comma :: entryTokens m := by
    induction members with
    | nil => rfl
    | cons m members ih =>
        rw [moreMembers, ih, List.flatMap_cons]
        rfl
  cases members with
  | nil => rfl
  | cons m members =>
      rw [memberTokens, more, row]
      rfl

theorem tokens_array (items : List Json) :
    tokens (.array items) = .openArray :: (row .comma tokens items ++ [.closeArray]) := by
  rw [tokens, itemTokens_eq]

theorem tokens_object (members : List (Entry Json)) :
    tokens (.object members) =
      .openObject :: (row .comma entryTokens members ++ [.closeObject]) := by
  rw [tokens, memberTokens_eq]

end Tokens

section Strings

variable {c e : Char}

/-- What is written for a character is scanned as a part that stands for it. -/
def ScansAs (cs : List Char) (c : Char) : Prop :=
  ∃ part, (∀ parts, StringPart.join? (part :: parts) = (StringPart.join? parts).map (c :: ·)) ∧
    ∀ done rest, StringPart.scan done (cs ++ rest) = StringPart.scan (part :: done) rest

theorem unit?_control : ∀ n : Fin 32,
    StringPart.unit? '0' '0' (Nat.digitChar (n / 16)) (Nat.digitChar (n % 16)) =
      some (.unit n) := by
  decide +kernel

theorem scansAs_named (named : StringPart.escaped? e = some c) : ScansAs ['\\', e] c := by
  refine ⟨.char c, fun parts => rfl, fun done rest => ?_⟩
  have notUnit : e ≠ 'u' := by
    rintro rfl
    cases named
  rw [List.cons_append, List.cons_append, List.nil_append, StringPart.scan, named]
  rintro _ _ _ _ _ rfl
  exact absurd rfl notUnit

theorem scansAs_control (h : c.toNat < 32) :
    ScansAs ['\\', 'u', '0', '0', Nat.digitChar (c.toNat / 16), Nat.digitChar (c.toNat % 16)]
      c := by
  refine ⟨.unit c.toNat, fun parts => ?_, fun done rest => ?_⟩
  · rw [Grammar.join?_unit (Nat.lt_trans h (by decide)), Char.ofNat_toNat]
  · have unit := unit?_control ⟨c.toNat, h⟩
    simp only [List.cons_append, List.nil_append, StringPart.scan]
    rw [unit]

theorem scansAs_itself (quote : c ≠ '"') (backslash : c ≠ '\\') (noControl : ¬ c.toNat < 32) :
    ScansAs [c] c := by
  refine ⟨.char c, fun parts => rfl, fun done rest => ?_⟩
  rw [List.cons_append, List.nil_append, StringPart.scan, if_neg (by simp [backslash, noControl])]
  · exact fun e => absurd e quote
  · rintro _ _ _ _ _ rfl
    exact absurd rfl backslash
  · rintro _ _ rfl
    exact absurd rfl backslash

theorem scansAs_escape (c : Char) : ScansAs (escape c) c := by
  fun_cases escape c with
  | case1 | case2 | case3 | case4 | case5 | case6 | case7 => exact scansAs_named rfl
  | case8 _ _ _ _ _ _ _ _ control => exact scansAs_control control
  | case9 _ quote backslash _ _ _ _ _ noControl => exact scansAs_itself quote backslash noControl

/-- The characters up to the closing quote are those of the text. -/
theorem scan_content (content rest : List Char) (done : List StringPart) :
    ∃ parts, StringPart.join? parts = some content ∧
      StringPart.scan done (content.flatMap escape ++ '"' :: rest) =
        some (done.reverse ++ parts, rest) := by
  induction content generalizing done with
  | nil =>
      refine ⟨[], rfl, ?_⟩
      rw [List.flatMap_nil, List.nil_append, StringPart.scan, List.append_nil]
  | cons c content ih =>
      obtain ⟨part, joinPart, scanPart⟩ := scansAs_escape c
      obtain ⟨parts, join, scanned⟩ := ih (part :: done)
      refine ⟨part :: parts, ?_, ?_⟩
      · rw [joinPart, join, Option.map_some]
      · rw [List.flatMap_cons, List.append_assoc, scanPart, scanned, List.reverse_cons,
          List.append_assoc, List.singleton_append]

end Strings

section Texts

variable {cs rest : List Char} {c : Char} {t : Token} {items : List Json}
  {members : List (Entry Json)}

theorem scan_token (counts : Token.isBlank c = false)
    (read : Token.leading? c cs = some (t, rest)) :
    Token.scan (c :: cs) = t :: Token.scan rest := by
  rw [Token.scan, counts, if_neg Bool.false_ne_true]
  split
  · rename_i read'
    rw [read] at read'
    cases read'
    rfl
  · rename_i none
    rw [read] at none
    cases none

theorem scan_string (text : String) (rest : List Char) :
    Token.scan ((stringText text).toList ++ rest) = .string (some text) :: Token.scan rest := by
  obtain ⟨parts, join, scanned⟩ := scan_content text.toList rest []
  rw [stringText, String.toList_ofList, List.cons_append, List.cons_append, List.append_assoc,
    List.cons_append, List.nil_append]
  refine scan_token rfl ?_
  simp only [Token.leading?, scanned, Option.map_some, List.reverse_nil, List.nil_append, join,
    String.ofList_toList]

theorem numeral_starts {p : NumeralParts} (h : p.WellFormed) (plusSign : Bool) :
    ∃ c cs, p.text plusSign = c :: cs ∧ (c = '-' ∨ c.isDigit) := by
  have whole : Grammar.IsIntegerPart (NumeralParts.signText p.negative ++ p.whole) := by
    refine ⟨_, p.whole, rfl, ?_, h.whole, h.first⟩
    cases p.negative with
    | true => exact .inr rfl
    | false => exact .inl rfl
  rw [NumeralParts.text, NumeralParts.body, ← List.append_assoc]
  exact Grammar.integerPart_starts whole _

/-- A minus sign or a digit starts nothing but a number. -/
theorem leading?_of_number (start : c = '-' ∨ c.isDigit) (cs : List Char) :
    Token.leading? c cs =
      (Numeral.leading? (c :: cs)).map fun (n, rest) => (.number n, rest) := by
  rw [Token.leading?]
  all_goals
    intros
    subst_vars
    exact absurd start (by decide)

theorem isBlank_of_number (start : c = '-' ∨ c.isDigit) : Token.isBlank c = false := by
  rw [Bool.eq_false_iff]
  intro blank
  simp only [Token.isBlank, Bool.or_eq_true, decide_eq_true_eq] at blank
  rcases blank with ((rfl | rfl) | rfl) | rfl <;> exact absurd start (by decide)

theorem scan_number (n : Number) (sep : Separates rest) :
    Token.scan (n.text.toList ++ rest) = .number n.parts.numeral :: Token.scan rest := by
  have read := n.leading?_text sep
  obtain ⟨c, cs, e, start⟩ := numeral_starts n.wellFormed_parts true
  rw [n.toList_text, e, List.cons_append] at read ⊢
  exact scan_token (isBlank_of_number start)
    (by rw [leading?_of_number start, read, Option.map_some])

theorem separates_cons (h : Grammar.isNameContinue c = false ∧ c ≠ '.' ∧ c ≠ '"')
    (cs : List Char) : Separates (c :: cs) := by
  rintro _ ⟨⟩
  exact h

/-- Tokens and texts that belong together still do with a row of parts between brackets in front, if
they do with any part in front that is separated from what follows. -/
theorem row_in_front {R : List Token → List Char → Prop} {α : Type} {text : α → List Char}
    {parts : α → List Token} {xs : List α} {o : Char} {u : Token}
    (h : ∀ x ∈ xs, ∀ us rest, Separates rest → R us rest → R (parts x ++ us) (text x ++ rest))
    (comma : ∀ us rest, R us rest → R (.comma :: us) (',' :: rest))
    (opens : ∀ us rest, R us rest → R (u :: us) (o :: rest))
    (closes : ∀ us rest, R us rest → R (t :: us) (c :: rest))
    (ends : Grammar.isNameContinue c = false ∧ c ≠ '.' ∧ c ≠ '"') (us : List Token)
    (rest : List Char) (others : R us rest) :
    R (u :: (row .comma parts xs ++ t :: us)) (o :: (row ',' text xs ++ c :: rest)) := by
  have closed : R (t :: us) (c :: rest) := closes us rest others
  refine opens _ _ ?_
  cases xs with
  | nil => exact closed
  | cons x xs =>
      induction xs generalizing x with
      | nil =>
          rw [row_singleton, row_singleton]
          exact h x (List.mem_singleton_self x) _ _ (separates_cons ends rest) closed
      | cons y ys ih =>
          have more := comma _ _ (ih y fun z hz => h z (List.mem_cons_of_mem x hz))
          rw [row_cons_cons, row_cons_cons, List.append_assoc, List.append_assoc]
          exact h x (List.mem_cons_self ..) _ _ (separates_cons (by decide) _) more

/-- Parts in a row between brackets, where each part gives its tokens if it is separated from what
follows. -/
theorem scan_row {α : Type} {text : α → List Char} {parts : α → List Token} {xs : List α}
    {o : Char} {u : Token} (h : ∀ x ∈ xs, ∀ rest, Separates rest →
      Token.scan (text x ++ rest) = parts x ++ Token.scan rest)
    (opens : ∀ cs, Token.scan (o :: cs) = u :: Token.scan cs)
    (closes : ∀ cs, Token.scan (c :: cs) = t :: Token.scan cs)
    (ends : Grammar.isNameContinue c = false ∧ c ≠ '.' ∧ c ≠ '"') (rest : List Char) :
    Token.scan (o :: (row ',' text xs ++ c :: rest)) =
      u :: (row .comma parts xs ++ t :: Token.scan rest) := by
  have comma (cs : List Char) : Token.scan (',' :: cs) = .comma :: Token.scan cs :=
    scan_token rfl rfl
  refine row_in_front (R := fun us cs => Token.scan cs = us) ?_ ?_ ?_ ?_ ends _ rest rfl
  · rintro x hx _ rest sep rfl
    exact h x hx rest sep
  · rintro _ rest rfl
    exact comma rest
  · rintro _ rest rfl
    exact opens rest
  · rintro _ rest rfl
    exact closes rest

/-- The text of the value gives its tokens, in front of what may follow a value. -/
def Scans (j : Json) : Prop :=
  ∀ rest, Separates rest → Token.scan (j.text.toList ++ rest) = j.tokens ++ Token.scan rest

def entryText (m : Entry Json) : List Char :=
  (stringText m.name).toList ++ ':' :: m.value.text.toList

theorem toList_itemsText (items : List Json) :
    (itemsText items).toList = row ',' (fun j => j.text.toList) items := by
  have comma : ",".toList = [','] := rfl
  cases items with
  | nil => rfl
  | cons j items =>
      induction items generalizing j with
      | nil => rw [itemsText, row, List.flatMap_nil, List.append_nil]
      | cons k items ih =>
          simp only [itemsText, String.toList_append, ih, comma, row, List.flatMap_cons,
            List.append_assoc, List.cons_append, List.nil_append]

theorem toList_membersText (members : List (Entry Json)) :
    (membersText members).toList = row ',' entryText members := by
  have colon : ":".toList = [':'] := rfl
  have comma : ",".toList = [','] := rfl
  cases members with
  | nil => rfl
  | cons m members =>
      induction members generalizing m with
      | nil =>
          simp only [membersText, String.toList_append, colon, row, entryText, List.flatMap_nil,
            List.append_nil, List.append_assoc, List.singleton_append]
      | cons n members ih =>
          simp only [membersText, String.toList_append, ih, colon, comma, row, entryText,
            List.flatMap_cons, List.append_assoc, List.cons_append, List.nil_append]

theorem scan_entry {m : Entry Json} (h : m.value.Scans) (rest : List Char)
    (sep : Separates rest) :
    Token.scan (entryText m ++ rest) = entryTokens m ++ Token.scan rest := by
  have colon (cs : List Char) : Token.scan (':' :: cs) = .colon :: Token.scan cs :=
    scan_token rfl rfl
  rw [entryText, List.append_assoc, scan_string, List.cons_append, colon, h rest sep, entryTokens,
    List.cons_append, List.cons_append]

theorem toList_text_array (items : List Json) :
    (text (.array items)).toList = '[' :: (row ',' (fun j => j.text.toList) items ++ [']']) := by
  rw [text, String.toList_append, String.toList_append, toList_itemsText]
  rfl

theorem toList_text_object (members : List (Entry Json)) :
    (text (.object members)).toList = '\x7b' :: (row ',' entryText members ++ ['\x7d']) := by
  rw [text, String.toList_append, String.toList_append, toList_membersText]
  rfl

theorem scans_array (h : ∀ j ∈ items, j.Scans) : Scans (.array items) := by
  intro rest _
  rw [toList_text_array, tokens_array, List.cons_append, List.cons_append, List.append_assoc,
    List.append_assoc, List.singleton_append, List.singleton_append]
  exact scan_row h (fun _ => scan_token rfl rfl) (fun _ => scan_token rfl rfl) (by decide) rest

theorem scans_object (h : ∀ m ∈ members, m.value.Scans) : Scans (.object members) := by
  intro rest _
  rw [toList_text_object, tokens_object, List.cons_append, List.cons_append, List.append_assoc,
    List.append_assoc, List.singleton_append, List.singleton_append]
  exact scan_row (fun m hm => scan_entry (h m hm)) (fun _ => scan_token rfl rfl)
    (fun _ => scan_token rfl rfl) (by decide) rest

/-- The text of every value is taken apart into its tokens. -/
theorem scans (j : Json) : Scans j := by
  induction j using Json.induct with
  | null => exact fun rest _ => scan_token rfl rfl
  | bool b => cases b <;> exact fun rest _ => scan_token rfl rfl
  | number n => exact fun rest sep => scan_number n sep
  | string text => exact fun rest _ => scan_string text rest
  | array items ih => exact scans_array ih
  | object members ih => exact scans_object ih

end Texts

end QueryDoc.Json
