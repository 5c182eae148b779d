import QueryDoc.Numeric.Numeral

/-!
The tokens of a JSON text. Scanning takes the whole text apart; where the text cannot be scanned
any further, a token that fits nowhere ends the list. A string may name half of a surrogate pair by
its escapes: such a string is a token without content.
-/

namespace QueryDoc

inductive Token where
  | openArray
  | closeArray
  | openObject
  | closeObject
  | comma
  | colon
  | null
  | bool (b : Bool)
  | string (content : Option String)
  | number (n : Numeral)
  /-- The text cannot be scanned from here on. -/
  | fault
deriving DecidableEq, Repr

/-- A piece of a string: a character, or sixteen bits that an escape gives. -/
inductive StringPart where
  | char (c : Char)
  | unit (n : Nat)
deriving DecidableEq, Repr

namespace StringPart

def hexValue? (c : Char) : Option Nat :=
  if c.isDigit then some (c.toNat - '0'.toNat)
  else if 'a' ≤ c ∧ c ≤ 'f' then some (c.toNat - 'a'.toNat + 10)
  else if 'A' ≤ c ∧ c ≤ 'F' then some (c.toNat - 'A'.toNat + 10)
  else none

def unit? (a b c d : Char) : Option StringPart := do
  let a ← hexValue? a
  let b ← hexValue? b
  let c ← hexValue? c
  let d ← hexValue? d
  return .unit (((a * 16 + b) * 16 + c) * 16 + d)

def escaped? : Char → Option Char
  | '"' => some '"'
  | '\\' => some '\\'
  | '/' => some '/'
  | 'b' => some '\x08'
  | 'f' => some '\x0c'
  | 'n' => some '\n'
  | 'r' => some '\r'
  | 't' => some '\t'
  | _ => none

/-- Reads a string up to its closing quote, and gives back what follows. The parts before are in
`done`, the last one first. -/
def scan (done : List StringPart) : List Char → Option (List StringPart × List Char)
  | '"' :: cs => some (done.reverse, cs)
  | '\\' :: 'u' :: a :: b :: c :: d :: cs =>
    match unit? a b c d with
    | some part => scan (part :: done) cs
    | none => none
  | '\\' :: e :: cs =>
    match escaped? e with
    | some c => scan (.char c :: done) cs
    | none => none
  | c :: cs => if c = '\\' ∨ c.toNat < 0x20 then none else scan (.char c :: done) cs
  | [] => none

def isLeading (n : Nat) : Bool := 0xD800 ≤ n && n < 0xDC00

def isTrailing (n : Nat) : Bool := 0xDC00 ≤ n && n < 0xE000

/-- Joins the parts to characters; the two halves of a surrogate pair have to stand together. -/
def join? : List StringPart → Option (List Char)
  | [] => some []
  | .char c :: parts => (join? parts).map (c :: ·)
  | .unit n :: .unit m :: parts =>
    if isLeading n then
      if isTrailing m then
        (join? parts).map (Char.ofNat (0x10000 + (n - 0xD800) * 0x400 + (m - 0xDC00)) :: ·)
      else none
    else if isTrailing n then none
    else (join? (.unit m :: parts)).map (Char.ofNat n :: ·)
  | .unit n :: parts =>
    if isLeading n || isTrailing n then none else (join? parts).map (Char.ofNat n :: ·)

theorem scan_length {done parts : List StringPart} {cs rest : List Char}
    (h : scan done cs = some (parts, rest)) : rest.length ≤ cs.length := by
  fun_induction scan done cs with
  | case1 done cs =>
    simp only [Option.some.injEq, Prod.mk.injEq] at h
    obtain ⟨-, rfl⟩ := h
    simp
  | case2 done a b c d cs part hpart ih =>
    have := ih h
    simp only [List.length_cons]
    omega
  | case4 done e cs hcs c hc ih =>
    have := ih h
    simp only [List.length_cons]
    omega
  | case7 done c cs hquote hunit hescape hc ih =>
    have := ih h
    simp only [List.length_cons]
    omega
  | _ => cases h

end StringPart

def Numeral.leadingMinus : List Char → Bool × List Char
  | '-' :: cs => (true, cs)
  | cs => (false, cs)

theorem Numeral.leadingMinus_length (cs : List Char) :
    (leadingMinus cs).2.length ≤ cs.length := by
  unfold leadingMinus
  split <;> simp

/-- A number in front: no plus sign, no zero before other digits of the whole part, and a digit on
each side of a point. -/
def Numeral.leading? (cs : List Char) : Option (Numeral × List Char) :=
  let (negative, body) := leadingMinus cs
  let (whole, afterWhole) := leadingDigits body
  let (fraction, afterFraction) := leadingFraction afterWhole
  if whole = [] ∨ 1 < whole.length ∧ whole.head? = some '0' ∨ fraction = some [] then none
  else
    match leadingExponent afterFraction with
    | some (exponent, rest) => some (.ofParts negative whole fraction exponent, rest)
    | none => none

theorem Numeral.leading?_length {cs rest : List Char} {n : Numeral}
    (h : Numeral.leading? cs = some (n, rest)) : rest.length < cs.length := by
  unfold Numeral.leading? at h
  simp only at h
  split at h
  · cases h
  · rename_i hparts
    split at h
    · rename_i exponent rest' he
      simp only [Option.some.injEq, Prod.mk.injEq] at h
      obtain ⟨-, rfl⟩ := h
      have he := leadingExponent_length he
      have hf := leadingFraction_length (leadingDigits (leadingMinus cs).2).2
      have hd := leadingDigits_length (leadingMinus cs).2
      have hm := leadingMinus_length cs
      have hw := List.length_pos_iff.mpr fun hw => hparts (.inl hw)
      omega
    · cases h

namespace Token

def isBlank (c : Char) : Bool := c = ' ' || c = '\t' || c = '\n' || c = '\r'

/-- The token that starts with `c`, and what follows it. -/
def leading? (c : Char) (cs : List Char) : Option (Token × List Char) :=
  match c, cs with
  | '[', cs => some (.openArray, cs)
  | ']', cs => some (.closeArray, cs)
  | '\x7b', cs => some (.openObject, cs)
  | '\x7d', cs => some (.closeObject, cs)
  | ',', cs => some (.comma, cs)
  | ':', cs => some (.colon, cs)
  | 'n', 'u' :: 'l' :: 'l' :: cs => some (.null, cs)
  | 't', 'r' :: 'u' :: 'e' :: cs => some (.bool true, cs)
  | 'f', 'a' :: 'l' :: 's' :: 'e' :: cs => some (.bool false, cs)
  | '"', cs =>
    (StringPart.scan [] cs).map fun (parts, rest) =>
      (.string ((StringPart.join? parts).map String.ofList), rest)
  | c, cs => (Numeral.leading? (c :: cs)).map fun (n, rest) => (.number n, rest)

theorem leading?_length {c : Char} {cs rest : List Char} {t : Token}
    (h : leading? c cs = some (t, rest)) : rest.length ≤ cs.length := by
  unfold leading? at h
  split at h
  case h_10 =>
    simp only [Option.map_eq_some_iff, Prod.mk.injEq, Prod.exists] at h
    obtain ⟨parts, rest', hscan, -, rfl⟩ := h
    exact StringPart.scan_length hscan
  case h_11 =>
    simp only [Option.map_eq_some_iff, Prod.mk.injEq, Prod.exists] at h
    obtain ⟨n, rest', hn, -, rfl⟩ := h
    exact Nat.le_of_lt_succ (Numeral.leading?_length hn)
  all_goals
    simp only [Option.some.injEq, Prod.mk.injEq] at h
    obtain ⟨-, rfl⟩ := h
    grind

def scan : List Char → List Token
  | [] => []
  | c :: cs =>
    if isBlank c then scan cs
    else
      match _h : leading? c cs with
      | some (t, rest) => t :: scan rest
      | none => [.fault]
termination_by cs => cs.length
decreasing_by
  · exact Nat.lt_succ_self _
  · exact Nat.lt_succ_of_le (leading?_length _h)

end Token

end QueryDoc
