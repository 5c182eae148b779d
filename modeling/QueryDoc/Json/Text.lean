import QueryDoc.Json.Basic
import QueryDoc.Numeric.Layout
import QueryDoc.Numeric.Shortest

/-!
The text of a JSON value, without blanks between its parts.
-/

namespace QueryDoc

/-- Up to sixteen places before the point, and up to four zeros after it, are written out. -/
def Number.layout : NumberLayout :=
  { least := -5, greatest := 15, alwaysFraction := false, plusSign := true, signedZero := true }

def Number.text : Number → String
  | .int n _ => integerText n
  | .float x _ => Number.layout.write x.negative (x.shortest {})

namespace Json

def escape (c : Char) : List Char :=
  match c with
  | '"' => ['\\', '"']
  | '\\' => ['\\', '\\']
  | '\x08' => ['\\', 'b']
  | '\x0c' => ['\\', 'f']
  | '\n' => ['\\', 'n']
  | '\r' => ['\\', 'r']
  | '\t' => ['\\', 't']
  | c =>
    if c.toNat < 0x20 then
      ['\\', 'u', '0', '0', Nat.digitChar (c.toNat / 16), Nat.digitChar (c.toNat % 16)]
    else [c]

def stringText (text : String) : String :=
  String.ofList ('"' :: text.toList.flatMap escape ++ ['"'])

mutual

def text : Json → String
  | .null => "null"
  | .bool true => "true"
  | .bool false => "false"
  | .number n => n.text
  | .string s => stringText s
  | .array items => "[" ++ itemsText items ++ "]"
  | .object members => "\x7b" ++ membersText members ++ "\x7d"
termination_by structural j => j

def itemsText : List Json → String
  | [] => ""
  | [j] => j.text
  | j :: k :: items => j.text ++ "," ++ itemsText (k :: items)
termination_by structural items => items

def membersText : List (Entry Json) → String
  | [] => ""
  | [⟨name, j⟩] => stringText name ++ ":" ++ j.text
  | ⟨name, j⟩ :: m :: members =>
    stringText name ++ ":" ++ j.text ++ "," ++ membersText (m :: members)
termination_by structural members => members

end

end Json

end QueryDoc
