/-!
String literals of the query language. Quotes, backslashes and control characters are escaped, so
that a literal ends where its closing quote stands; every other character stands for itself.
-/

namespace QueryDoc.StringLiteral

def isControl (c : Char) : Bool := c.toNat < 0x20 || c.toNat = 0x7F

/-- The two hexadecimal digits of a number below 256, in upper case. -/
def hexPair (n : Nat) : List Char :=
  [(Nat.digitChar (n / 16)).toUpper, (Nat.digitChar (n % 16)).toUpper]

def escape (c : Char) : List Char :=
  match c with
  | '\r' => ['\\', 'r']
  | '\n' => ['\\', 'n']
  | '\t' => ['\\', 't']
  | '\x08' => ['\\', 'b']
  | '\x0c' => ['\\', 'f']
  | '"' => ['\\', '"']
  | '\\' => ['\\', '\\']
  | c => if isControl c then '\\' :: 'u' :: '0' :: '0' :: hexPair c.toNat else [c]

def encode (text : String) : String :=
  String.ofList ('"' :: text.toList.flatMap escape ++ ['"'])

end QueryDoc.StringLiteral
