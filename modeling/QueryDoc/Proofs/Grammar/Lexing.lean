import QueryDoc.Proofs.Grammar.Number
import QueryDoc.Text.StringLiteral

/-!
How texts are taken apart into tokens. A closed text gives its tokens whatever follows it; a text
that ends in a name, a number or a string gives them if what follows separates it from more of the
same. Texts in a row give their tokens in a row.
-/

namespace QueryDoc.Grammar

variable {a b text : String} {ts us : List Token} {cs rest : List Char} {c : Char}

section Tokens

theorem takeWhile_append {p : Char → Bool} (h : ∀ c ∈ cs, p c)
    (stop : ∀ c ∈ rest.head?, p c = false) :
    (cs ++ rest).takeWhile p = cs ∧ (cs ++ rest).dropWhile p = rest := by
  rw [List.takeWhile_append_of_pos h, List.dropWhile_append_of_pos h]
  cases rest with
  | nil => simp
  | cons c rest => simp [stop c rfl]

theorem token?_cons (point : c ≠ '.') (quote : c ≠ '"') (cs : List Char) :
    token? (c :: cs) =
      if isPunctuator c then some (.punctuator c, cs)
      else if isNameStart c then
        some (.name (String.ofList (c :: cs.takeWhile isNameContinue)),
          cs.dropWhile isNameContinue)
      else number? (c :: cs) := by
  rw [token?]
  · rintro cs rfl
    exact absurd rfl point
  · rintro cs rfl
    exact absurd rfl quote
  · rintro rfl
    exact absurd rfl quote

theorem isAlpha_of_isDigit (h : c.isDigit) : c.isAlpha = false := by
  have digit : '0'.val ≤ c.val ∧ c.val ≤ '9'.val := by
    rwa [Char.isDigit, Bool.and_eq_true, decide_eq_true_eq, decide_eq_true_eq] at h
  have alpha : c.isAlpha = (decide ('A'.val ≤ c.val ∧ c.val ≤ 'Z'.val) ||
      (decide ('a'.val ≤ c.val) && decide (c.val ≤ 'z'.val))) := rfl
  rw [alpha]
  grind

/-- No punctuator starts a name or a number. -/
theorem isPunctuator_of_start (h : isNameStart c ∨ c = '-' ∨ c.isDigit) :
    isPunctuator c = false := by
  rw [Bool.eq_false_iff]
  intro member
  simp only [isPunctuator, List.contains_iff_mem, List.mem_cons, List.not_mem_nil, or_false]
    at member
  rcases member with rfl | rfl | rfl | rfl | rfl | rfl | rfl | rfl | rfl | rfl | rfl | rfl | rfl <;>
    exact absurd h (by decide)

theorem token?_name (h : IsName text) (sep : Separates rest) :
    token? (text.toList ++ rest) = some (.name text, rest) := by
  obtain ⟨c, cs, e, start, more⟩ := h.cons
  have word := takeWhile_append more fun d hd => (sep d hd).1
  have point : c ≠ '.' := by
    rintro rfl
    cases start
  have quote : c ≠ '"' := by
    rintro rfl
    cases start
  rw [e, List.cons_append, token?_cons point quote, isPunctuator_of_start (.inl start), start,
    if_neg Bool.false_ne_true, if_pos rfl, word.1, word.2, ← e, String.ofList_toList]

theorem integerPart_starts {whole : List Char} (h : IsIntegerPart whole) (cs : List Char) :
    ∃ c cs', whole ++ cs = c :: cs' ∧ (c = '-' ∨ c.isDigit) := by
  obtain ⟨sign, digits, rfl, rfl | rfl, ⟨nonempty, all⟩, -⟩ := h
  · cases digits with
    | nil => exact absurd rfl nonempty
    | cons d digits =>
        rw [List.all_cons, Bool.and_eq_true] at all
        exact ⟨d, digits ++ cs, rfl, .inr all.1⟩
  · exact ⟨'-', digits ++ cs, rfl, .inl rfl⟩

/-- A minus sign or a digit starts nothing but a number. -/
theorem token?_of_number {whole : List Char} (h : IsIntegerPart whole) (cs : List Char) :
    token? (whole ++ cs) = number? (whole ++ cs) := by
  obtain ⟨c, cs', e, hc⟩ := integerPart_starts h cs
  have notName : isNameStart c = false := by
    rcases hc with rfl | digit
    · rfl
    · rw [isNameStart, isAlpha_of_isDigit digit, Bool.false_or, decide_eq_false_iff_not]
      rintro rfl
      cases digit
  have point : c ≠ '.' := by
    rintro rfl
    exact absurd hc (by decide)
  have quote : c ≠ '"' := by
    rintro rfl
    exact absurd hc (by decide)
  rw [e, token?_cons point quote, isPunctuator_of_start (.inr hc), notName,
    if_neg Bool.false_ne_true, if_neg Bool.false_ne_true]

theorem token?_number {whole fraction exponent : List Char} (hw : IsIntegerPart whole)
    (hf : fraction = [] ∨ IsFraction fraction) (he : exponent = [] ∨ IsExponent exponent)
    (sep : Separates rest) (e : text.toList = whole ++ (fraction ++ exponent)) :
    token? (text.toList ++ rest) =
      some (if fraction = [] ∧ exponent = [] then .int text else .float text, rest) := by
  obtain ⟨n, read, isWhole⟩ := leading?_append hw hf he sep
  have split : text.toList ++ rest = whole ++ (fraction ++ (exponent ++ rest)) := by
    rw [e, List.append_assoc, List.append_assoc]
  have stop : ¬ (rest.head?.any fun c => isNameContinue c || c = '.') = true := by
    cases rest with
    | nil => simp
    | cons c rest => simp [(sep c rfl).1, (sep c rfl).2.1]
  rw [split, token?_of_number hw, ← split, number?, split, read, ← split]
  simp only [if_neg stop, List.length_append, Nat.add_sub_cancel, List.take_left,
    String.ofList_toList, isWhole]
  simp

end Tokens

section Strings

theorem unit?_hexPair : ∀ n : Fin 256,
    StringPart.unit? '0' '0' (Nat.digitChar (n / 16)).toUpper (Nat.digitChar (n % 16)).toUpper =
      some (.unit n) := by
  decide +kernel

theorem join?_unit {n : Nat} (h : n < 0xD800) (parts : List StringPart) :
    StringPart.join? (.unit n :: parts) =
      (StringPart.join? parts).map (Char.ofNat n :: ·) := by
  have leading : StringPart.isLeading n = false := by
    simp only [StringPart.isLeading, Bool.and_eq_false_iff, decide_eq_false_iff_not]
    omega
  have trailing : StringPart.isTrailing n = false := by
    simp only [StringPart.isTrailing, Bool.and_eq_false_iff, decide_eq_false_iff_not]
    omega
  cases parts with
  | nil => simp [StringPart.join?, leading, trailing]
  | cons part parts => cases part <;> simp [StringPart.join?, leading, trailing]

/-- A part of a literal stands for a character, whatever comes before and after it. -/
def StandsFor (cs : List Char) (c : Char) : Prop :=
  ∃ part, (∀ parts, StringPart.join? (part :: parts) = (StringPart.join? parts).map (c :: ·)) ∧
    ∀ rest, stringParts? (cs ++ rest) =
      (stringParts? rest).map fun (parts, rest) => (part :: parts, rest)

theorem standsFor_named {e : Char} (named : StringPart.escaped? e = some c) :
    StandsFor ['\\', e] c := by
  refine ⟨.char c, fun parts => rfl, fun rest => ?_⟩
  have notUnit : e ≠ 'u' := by
    rintro rfl
    cases named
  rw [List.cons_append, List.cons_append, List.nil_append, stringParts?, named]
  · cases stringParts? rest <;> rfl
  · rintro _ _ _ _ _ rfl
    exact absurd rfl notUnit

theorem standsFor_unit (h : c.toNat < 256) :
    StandsFor ('\\' :: 'u' :: '0' :: '0' :: StringLiteral.hexPair c.toNat) c := by
  refine ⟨.unit c.toNat, fun parts => ?_, fun rest => ?_⟩
  · rw [join?_unit (Nat.lt_trans h (by decide)), Char.ofNat_toNat]
  · have unit := unit?_hexPair ⟨c.toNat, h⟩
    simp only [StringLiteral.hexPair, List.cons_append, List.nil_append, stringParts?]
    rw [unit]
    cases stringParts? rest <;> rfl

theorem standsFor_itself (quote : c ≠ '"') (backslash : c ≠ '\\') (inLine : endsLine c = false) :
    StandsFor [c] c := by
  refine ⟨.char c, fun parts => rfl, fun rest => ?_⟩
  rw [List.cons_append, List.nil_append, stringParts?, inLine, Bool.or_false,
    if_neg (by simp [backslash])]
  · exact fun e => absurd e quote
  · rintro _ _ _ _ _ rfl
    exact absurd rfl backslash
  · rintro _ _ rfl
    exact absurd rfl backslash

/-- What is written for a character is read as that character. -/
theorem standsFor_escape (c : Char) : StandsFor (StringLiteral.escape c) c := by
  fun_cases StringLiteral.escape c with
  | case1 | case2 | case3 | case4 | case5 | case6 | case7 => exact standsFor_named rfl
  | case8 _ _ _ _ _ _ _ _ control =>
      apply standsFor_unit
      simp only [StringLiteral.isControl, Bool.or_eq_true, decide_eq_true_eq] at control
      omega
  | case9 _ carriageReturn lineFeed _ _ _ quote backslash _ =>
      refine standsFor_itself quote backslash ?_
      rw [endsLine, Bool.or_eq_false_iff, decide_eq_false_iff_not, decide_eq_false_iff_not]
      exact ⟨lineFeed, carriageReturn⟩

/-- The characters up to the closing quote are those of the text. -/
theorem stringParts?_encode (content rest : List Char) :
    ∃ parts, StringPart.join? parts = some content ∧
      stringParts? (content.flatMap StringLiteral.escape ++ '"' :: rest) = some (parts, rest) := by
  induction content with
  | nil => exact ⟨[], rfl, by rw [List.flatMap_nil, List.nil_append, stringParts?]⟩
  | cons c content ih =>
      obtain ⟨parts, join, read⟩ := ih
      obtain ⟨part, joinPart, readPart⟩ := standsFor_escape c
      refine ⟨part :: parts, ?_, ?_⟩
      · rw [joinPart, join, Option.map_some]
      · rw [List.flatMap_cons, List.append_assoc, readPart, read, Option.map_some]

/-- The first character of what is written for a character is no quote. -/
theorem head?_escape (c : Char) : ∃ d cs, StringLiteral.escape c = d :: cs ∧ d ≠ '"' := by
  fun_cases StringLiteral.escape c with
  | case1 | case2 | case3 | case4 | case5 | case6 | case7 | case8 => exact ⟨'\\', _, rfl, by decide⟩
  | case9 _ _ _ _ _ _ quote _ _ => exact ⟨c, [], rfl, quote⟩

/-- A literal does not start as a block string does. -/
theorem literal_ne_block (content : List Char) (sep : Separates rest) (cs : List Char) :
    content.flatMap StringLiteral.escape ++ '"' :: rest ≠ '"' :: '"' :: cs := by
  cases content with
  | nil =>
      intro e
      obtain ⟨-, e⟩ := List.cons.inj e
      exact (sep '"' (by rw [e]; rfl)).2.2 rfl
  | cons c content =>
      obtain ⟨d, ds, e, first⟩ := head?_escape c
      rw [List.flatMap_cons, e]
      exact fun h => first (List.cons.inj h).1

theorem token?_string (text : String) (sep : Separates rest) :
    token? ((StringLiteral.encode text).toList ++ rest) = some (.string text, rest) := by
  obtain ⟨parts, join, read⟩ := stringParts?_encode text.toList rest
  rw [StringLiteral.encode, String.toList_ofList, List.cons_append, List.cons_append,
    List.append_assoc, List.cons_append, List.nil_append, token?, read]
  · simp only [Option.bind_eq_bind, Option.bind_some, join, String.ofList_toList]
    rfl
  · exact literal_ne_block text.toList sep

end Strings

section Texts

theorem tokens?_token {t : Token} (read : token? (c :: cs) = some (t, rest))
    (counts : isIgnored c = false) (noComment : c ≠ '#') (shorter : rest.length ≤ cs.length) :
    tokens? (c :: cs) = (tokens? rest).map (t :: ·) := by
  rw [tokens?, counts, if_neg Bool.false_ne_true, if_neg noComment, read]
  exact if_pos shorter

theorem tokens?_ignored (h : isIgnored c) (cs : List Char) : tokens? (c :: cs) = tokens? cs := by
  rw [tokens?, if_pos h]

/-- Nothing that is left out starts a token. -/
theorem isIgnored_of_start (h : isNameStart c ∨ c = '-' ∨ c.isDigit ∨ c = '"' ∨ isPunctuator c) :
    isIgnored c = false ∧ c ≠ '#' := by
  constructor
  · rw [Bool.eq_false_iff]
    intro ignored
    simp only [isIgnored, isBlank, endsLine, Bool.or_eq_true, decide_eq_true_eq] at ignored
    rcases ignored with (((rfl | rfl) | (rfl | rfl)) | rfl) | rfl <;> exact absurd h (by decide)
  · rintro rfl
    exact absurd h (by decide)

/-- The text gives these tokens in front of what is allowed to follow. -/
def Gives (allowed : List Char → Prop) (text : String) (ts : List Token) : Prop :=
  ∀ rest, allowed rest → tokens? (text.toList ++ rest) = (tokens? rest).map (ts ++ ·)

/-- The text gives these tokens, whatever follows. -/
def Closed : String → List Token → Prop := Gives fun _ => True

/-- The text gives these tokens, if it is separated from what follows. -/
def Scans : String → List Token → Prop := Gives Separates

/-- The text separates what is before it from all that follows. -/
def Apart (text : String) : Prop := ∀ rest, Separates (text.toList ++ rest)

theorem apart_of_cons (e : text.toList = c :: cs)
    (h : isNameContinue c = false ∧ c ≠ '.' ∧ c ≠ '"') : Apart text := by
  intro rest d hd
  rw [e, List.cons_append, List.head?_cons, Option.mem_some_iff] at hd
  exact hd ▸ h

theorem Apart.append (h : Apart a) (b : String) : Apart (a ++ b) := by
  intro rest
  rw [String.toList_append, List.append_assoc]
  exact h _

theorem Gives.append {allowed allowed' : List Char → Prop} (ha : Gives allowed a ts)
    (hb : Gives allowed' b us) (h : ∀ rest, allowed' rest → allowed (b.toList ++ rest)) :
    Gives allowed' (a ++ b) (ts ++ us) := by
  intro rest follows
  rw [String.toList_append, List.append_assoc, ha _ (h rest follows), hb rest follows,
    Option.map_map]
  cases tokens? rest with
  | none => rfl
  | some vs => exact congrArg some (List.append_assoc ts us vs).symm

theorem Closed.scans (h : Closed text ts) : Scans text ts := fun rest _ => h rest trivial

theorem Closed.append (ha : Closed a ts) (hb : Closed b us) : Closed (a ++ b) (ts ++ us) :=
  Gives.append ha hb fun _ _ => trivial

theorem Closed.append_scans (ha : Closed a ts) (hb : Scans b us) : Scans (a ++ b) (ts ++ us) :=
  Gives.append ha hb fun _ _ => trivial

theorem Scans.append_closed (ha : Scans a ts) (hb : Closed b us) (apart : Apart b) :
    Closed (a ++ b) (ts ++ us) :=
  Gives.append ha hb fun rest _ => apart rest

theorem Scans.append (ha : Scans a ts) (hb : Scans b us) (apart : Apart b) :
    Scans (a ++ b) (ts ++ us) :=
  Gives.append ha hb fun rest _ => apart rest

/-- Blanks, line ends and commas give no tokens. -/
theorem closed_ignored (h : text.toList.all isIgnored) : Closed text [] := by
  intro rest _
  have none : ∀ cs : List Char, cs.all isIgnored → tokens? (cs ++ rest) = tokens? rest := by
    intro cs ignored
    induction cs with
    | nil => rfl
    | cons c cs ih =>
        rw [List.all_cons, Bool.and_eq_true] at ignored
        rw [List.cons_append, tokens?_ignored ignored.1, ih ignored.2]
  rw [none text.toList h]
  cases tokens? rest <;> rfl

/-- The text can be put after every other one. -/
def Attaches (text : String) (ts : List Token) : Prop :=
  text = "" ∧ ts = [] ∨ Scans text ts ∧ Apart text

theorem Attaches.scans (h : Attaches text ts) : Scans text ts := by
  rcases h with ⟨rfl, rfl⟩ | ⟨h, -⟩
  · exact (closed_ignored (by simp)).scans
  · exact h

theorem Scans.attach (ha : Scans a ts) (hb : Attaches b us) : Scans (a ++ b) (ts ++ us) := by
  rcases hb with ⟨rfl, rfl⟩ | ⟨hb, apart⟩
  · rwa [String.append_empty, List.append_nil]
  · exact ha.append hb apart

theorem Attaches.attach (ha : Attaches a ts) (hb : Attaches b us) :
    Attaches (a ++ b) (ts ++ us) := by
  rcases ha with ⟨rfl, rfl⟩ | ⟨ha, apart⟩
  · rwa [String.empty_append, List.nil_append]
  · exact .inr ⟨ha.attach hb, apart.append b⟩

theorem closed_punctuator (e : text.toList = [c]) (h : isPunctuator c) :
    Closed text [.punctuator c] := by
  intro rest _
  have point : c ≠ '.' := by
    rintro rfl
    cases h
  have quote : c ≠ '"' := by
    rintro rfl
    cases h
  obtain ⟨counts, noComment⟩ := isIgnored_of_start (.inr (.inr (.inr (.inr h))))
  rw [e, List.cons_append, List.nil_append]
  exact tokens?_token (by rw [token?_cons point quote, if_pos h]) counts noComment (Nat.le_refl _)

theorem scans_token {t : Token} (e : text.toList = c :: cs)
    (start : isNameStart c ∨ c = '-' ∨ c.isDigit ∨ c = '"')
    (read : ∀ rest, Separates rest → token? (text.toList ++ rest) = some (t, rest)) :
    Scans text [t] := by
  intro rest sep
  have token := read rest sep
  rw [e, List.cons_append] at token ⊢
  obtain ⟨counts, noComment⟩ := isIgnored_of_start
    (start.imp_right fun h => h.imp_right fun h => h.imp_right .inl)
  exact tokens?_token token counts noComment (by simp)

theorem scans_name (h : IsName text) : Scans text [.name text] := by
  obtain ⟨c, cs, e, start, -⟩ := h.cons
  exact scans_token e (.inl start) fun rest sep => token?_name h sep

theorem scans_number {whole fraction exponent : List Char} (hw : IsIntegerPart whole)
    (hf : fraction = [] ∨ IsFraction fraction) (he : exponent = [] ∨ IsExponent exponent)
    (e : text.toList = whole ++ (fraction ++ exponent)) :
    Scans text [if fraction = [] ∧ exponent = [] then .int text else .float text] := by
  obtain ⟨c, cs, first, start⟩ := integerPart_starts hw (fraction ++ exponent)
  exact scans_token (e.trans first) (.inr (start.imp_right .inl))
    fun rest sep => token?_number hw hf he sep e

theorem scans_int (h : IsInt text) : Scans text [.int text] :=
  scans_number h (.inl rfl) (.inl rfl) (List.append_nil _).symm

theorem scans_float (h : IsFloat text) : Scans text [.float text] := by
  obtain ⟨whole, fraction, exponent, e, hw, hf, he, notInt⟩ := h
  have scans := scans_number hw hf he e
  rwa [if_neg notInt] at scans

theorem scans_string (text : String) : Scans (StringLiteral.encode text) [.string text] :=
  scans_token (String.toList_ofList ..) (.inr (.inr (.inr rfl))) fun _ => token?_string text

end Texts

end QueryDoc.Grammar
