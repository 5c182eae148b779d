import QueryDoc.Json.Token

/-!
The lexical grammar of the query language. Blanks, line ends, commas, a byte order mark and comments
stand between tokens and count for nothing. A name goes on as long as it can, and a number has to
end where no name, digit or point follows. Numbers have the form that they have in JSON, and so do
the escapes in strings; every character that no rule excludes may be part of a string.
-/

namespace QueryDoc.Grammar

inductive Token where
  | punctuator (c : Char)
  /-- Three points in a row. -/
  | spread
  | name (text : String)
  | int (text : String)
  | float (text : String)
  | string (content : String)
deriving DecidableEq

def isNameStart (c : Char) : Bool := c.isAlpha || c = '_'

def isNameContinue (c : Char) : Bool := c.isAlphanum || c = '_'

def isPunctuator (c : Char) : Bool :=
  ['!', '$', '&', '(', ')', ':', '=', '@', '[', ']', '\x7b', '|', '\x7d'].contains c

def endsLine (c : Char) : Bool := c = '\n' || c = '\r'

def isBlank (c : Char) : Bool := c = ' ' || c = '\t'

def isIgnored (c : Char) : Bool := isBlank c || endsLine c || c = ',' || c = '\uFEFF'

section Strings

/-- The parts of a string up to its closing quote, and what follows it. -/
def stringParts? : List Char → Option (List StringPart × List Char)
  | '"' :: cs => some ([], cs)
  | '\\' :: 'u' :: a :: b :: c :: d :: cs => do
    let part ← StringPart.unit? a b c d
    let (parts, rest) ← stringParts? cs
    return (part :: parts, rest)
  | '\\' :: e :: cs => do
    let c ← StringPart.escaped? e
    let (parts, rest) ← stringParts? cs
    return (.char c :: parts, rest)
  | c :: cs =>
    if c = '\\' || endsLine c then none
    else (stringParts? cs).map fun (parts, rest) => (.char c :: parts, rest)
  | [] => none

/-- The characters of a block string up to its three closing quotes, and what follows these. -/
def blockChars? : List Char → Option (List Char × List Char)
  | '"' :: '"' :: '"' :: cs => some ([], cs)
  | '\\' :: '"' :: '"' :: '"' :: cs =>
    (blockChars? cs).map fun (raw, rest) => ('"' :: '"' :: '"' :: raw, rest)
  | c :: cs => (blockChars? cs).map fun (raw, rest) => (c :: raw, rest)
  | [] => none

def lines : List Char → List (List Char)
  | [] => [[]]
  | '\r' :: '\n' :: cs => [] :: lines cs
  | c :: cs =>
    if endsLine c then [] :: lines cs
    else
      match lines cs with
      | line :: rest => (c :: line) :: rest
      | [] => [[c]]

def isBlankLine (line : List Char) : Bool := line.all isBlank

/-- How far all lines are indented, if any of them is more than blanks. -/
def commonIndent (lines : List (List Char)) : Nat :=
  let indents := (lines.filter fun line => !isBlankLine line).map fun line =>
    (line.takeWhile isBlank).length
  indents.min?.getD 0

/-- What a block string stands for: its lines without the indentation that all after the first one
share, and without the lines of blanks at either end. -/
def blockContent (raw : List Char) : List Char :=
  let unindented := match lines raw with
    | first :: rest => first :: rest.map (List.drop (commonIndent rest))
    | [] => []
  let trimmed := (unindented.dropWhile isBlankLine).reverse.dropWhile isBlankLine
  ['\n'].intercalate trimmed.reverse

end Strings

/-- A number, unless what follows it goes on as a name or with a point. -/
def number? (cs : List Char) : Option (Token × List Char) :=
  match Numeral.leading? cs with
  | some (n, rest) =>
    if rest.head?.any fun c => isNameContinue c || c = '.' then none
    else
      let text := String.ofList (cs.take (cs.length - rest.length))
      some (if n.isWhole then .int text else .float text, rest)
  | none => none

/-- The token in front, and what follows it. -/
def token? : List Char → Option (Token × List Char)
  | '.' :: '.' :: '.' :: cs => some (.spread, cs)
  | '"' :: '"' :: '"' :: cs =>
    (blockChars? cs).map fun (raw, rest) => (.string (String.ofList (blockContent raw)), rest)
  | '"' :: cs => do
    let (parts, rest) ← stringParts? cs
    let content ← StringPart.join? parts
    return (.string (String.ofList content), rest)
  | c :: cs =>
    if isPunctuator c then some (.punctuator c, cs)
    else if isNameStart c then
      some (.name (String.ofList (c :: cs.takeWhile isNameContinue)), cs.dropWhile isNameContinue)
    else number? (c :: cs)
  | [] => none

/-- The tokens of a text, if it consists of tokens. A token takes at least one character. -/
def tokens? : List Char → Option (List Token)
  | [] => some []
  | c :: cs =>
    if isIgnored c then tokens? cs
    else if c = '#' then tokens? (cs.dropWhile fun c => !endsLine c)
    else
      match token? (c :: cs) with
      | some (t, rest) => if rest.length ≤ cs.length then (tokens? rest).map (t :: ·) else none
      | none => none
termination_by cs => cs.length
decreasing_by
  · exact Nat.lt_succ_self _
  · exact Nat.lt_succ_of_le (List.dropWhile_sublist _).length_le
  · exact Nat.lt_succ_of_le ‹_›

section Forms

/-- A letter or an underscore, then letters, digits and underscores. -/
def IsName (text : String) : Prop :=
  text.toList.head?.any isNameStart ∧ text.toList.tail.all isNameContinue

instance (text : String) : Decidable (IsName text) := inferInstanceAs (Decidable (_ ∧ _))

theorem IsName.cons {text : String} (h : IsName text) :
    ∃ c cs, text.toList = c :: cs ∧ isNameStart c ∧ ∀ d ∈ cs, isNameContinue d := by
  obtain ⟨start, more⟩ := h
  cases e : text.toList with
  | nil => simp [e] at start
  | cons c cs => exact ⟨c, cs, rfl, by simpa [e] using start, by simpa [e] using more⟩

def IsDigits (cs : List Char) : Prop := cs ≠ [] ∧ cs.all Char.isDigit

instance (cs : List Char) : Decidable (IsDigits cs) := inferInstanceAs (Decidable (_ ∧ _))

/-- An optional minus sign, then zero or digits that do not start with one. -/
def IsIntegerPart (cs : List Char) : Prop :=
  ∃ sign digits, cs = sign ++ digits ∧ (sign = [] ∨ sign = ['-']) ∧ IsDigits digits ∧
    (digits = ['0'] ∨ digits.head? ≠ some '0')

def IsFraction (cs : List Char) : Prop := ∃ digits, cs = '.' :: digits ∧ IsDigits digits

def IsExponent (cs : List Char) : Prop :=
  ∃ e sign digits, cs = e :: (sign ++ digits) ∧ (e = 'e' ∨ e = 'E') ∧
    (sign = [] ∨ sign = ['+'] ∨ sign = ['-']) ∧ IsDigits digits

def IsInt (text : String) : Prop := IsIntegerPart text.toList

/-- An integer part, then a fraction, an exponent or both. -/
def IsFloat (text : String) : Prop :=
  ∃ whole fraction exponent, text.toList = whole ++ (fraction ++ exponent) ∧
    IsIntegerPart whole ∧ (fraction = [] ∨ IsFraction fraction) ∧
    (exponent = [] ∨ IsExponent exponent) ∧ ¬ (fraction = [] ∧ exponent = [])

end Forms

end QueryDoc.Grammar
