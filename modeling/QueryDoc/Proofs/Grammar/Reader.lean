import QueryDoc.Document
import QueryDoc.Proofs.Grammar.Token
import QueryDoc.Proofs.Tree

/-!
The grammar of documents that consist of operations, and of fields as selections. Every reader takes
the tokens of one part from the front and gives back those that follow. A list of parts ends where
its closing token stands; each part takes at least one token.
-/

namespace QueryDoc.Grammar

section Lists

variable {α : Type}

/-- The parts in front of the closing token. The reader for a part is given lists of limited length
only, so that readers may use themselves for what they contain. -/
def many (limit : Nat) (part? : (ts : List Token) → ts.length ≤ limit → Option (α × List Token))
    (closing : Char) : (ts : List Token) → ts.length ≤ limit → Option (List α × List Token)
  | [], _ => none
  | t :: ts, within =>
    if t = .punctuator closing then some ([], ts)
    else
      match part? (t :: ts) within with
      | some (a, rest) =>
        if shorter : rest.length ≤ ts.length then
          (many limit part? closing rest
            (Nat.le_trans shorter (Nat.le_of_succ_le within))).map
            fun (as, rest) => (a :: as, rest)
        else none
      | none => none
termination_by ts => ts.length
decreasing_by exact Nat.lt_succ_of_le shorter

/-- At least one part. -/
def nonempty? : Option (List α × List Token) → Option (List α × List Token)
  | some ([], _) => none
  | parts => parts

end Lists

section Values

/-- A name where a value is expected. -/
def valueOfName (name : String) : Value ObjectTree :=
  if name = "null" then .null
  else if name = "true" then .bool true
  else if name = "false" then .bool false
  else .enumerator name

/-- The value that one token is. -/
def scalar? : Token → Option (Value ObjectTree)
  | .int text => some (.int text)
  | .float text => some (.float text)
  | .string content => some (.string content)
  | .name name => some (valueOfName name)
  | .punctuator _ | .spread => none

/-- A field of an object or an argument, given a reader for its value. -/
def pair? (limit : Nat)
    (value? : (ts : List Token) → ts.length ≤ limit → Option (Value ObjectTree × List Token)) :
    (ts : List Token) → ts.length ≤ limit → Option (Entry (Value ObjectTree) × List Token)
  | .name name :: .punctuator ':' :: ts, within =>
    (value? ts (Nat.le_trans (Nat.le_add_right _ 2) within)).map fun (v, ts) => (⟨name, v⟩, ts)
  | _, _ => none

/-- A value; a constant one has no variables. -/
def value? (constant : Bool) : List Token → Option (Value ObjectTree × List Token)
  | .punctuator '$' :: .name name :: ts => if constant then none else some (.var name, ts)
  | .punctuator '[' :: ts =>
    (many ts.length (fun ts' _ => value? constant ts') ']' ts (Nat.le_refl _)).map
      fun (vs, ts) => (.list vs, ts)
  | .punctuator '\x7b' :: ts =>
    (many ts.length (pair? ts.length fun ts' _ => value? constant ts') '\x7d' ts
      (Nat.le_refl _)).map fun (es, ts) => (.object (.node es), ts)
  | t :: ts => (scalar? t).map fun v => (v, ts)
  | [] => none
termination_by ts => ts.length

def argument? (ts : List Token) : Option (Entry (Value ObjectTree) × List Token) :=
  pair? ts.length (fun ts' _ => value? false ts') ts (Nat.le_refl _)

/-- Arguments in parentheses, or nothing. -/
def arguments? : List Token → Option (List (Entry (Value ObjectTree)) × List Token)
  | .punctuator '(' :: ts =>
    nonempty? (many ts.length (fun ts' _ => argument? ts') ')' ts (Nat.le_refl _))
  | ts => some ([], ts)

end Values

section Selections

/-- A field without its selections. -/
def fieldHead? : List Token → Option (Field (Value ObjectTree) × List Token)
  | .name aliasName :: .punctuator ':' :: .name name :: ts =>
    (arguments? ts).map fun (as, ts) =>
      ({ aliasName := some aliasName, name := name, arguments := as }, ts)
  | .name name :: ts =>
    (arguments? ts).map fun (as, ts) => ({ name := name, arguments := as }, ts)
  | _ => none

def field? (ts : List Token) : Option (Field (Value ObjectTree) × List Token) :=
  match fieldHead? ts with
  | some (f, .punctuator '\x7b' :: rest) =>
    if _ : rest.length < ts.length then
      (nonempty? (many rest.length (fun ts' _ => field? ts') '\x7d' rest (Nat.le_refl _))).map
        fun (selections, rest) => ({ f with selections := selections }, rest)
    else none
  | head => head
termination_by ts.length

def selections? : List Token → Option (List (Field (Value ObjectTree)) × List Token)
  | .punctuator '\x7b' :: ts =>
    nonempty? (many ts.length (fun ts' _ => field? ts') '\x7d' ts (Nat.le_refl _))
  | _ => none

end Selections

section Definitions

/-- A type that is required if an exclamation mark follows. -/
def required (t : TypeRef) : List Token → TypeRef × List Token
  | .punctuator '!' :: ts => (.nonNull t, ts)
  | ts => (t, ts)

def typeRef? : List Token → Option (TypeRef × List Token)
  | .name name :: ts => some (required (.named name) ts)
  | .punctuator '[' :: ts =>
    match typeRef? ts with
    | some (t, .punctuator ']' :: ts) => some (required (.list t) ts)
    | _ => none
  | _ => none

def default? : List Token → Option (Option (Value ObjectTree) × List Token)
  | .punctuator '=' :: ts => (value? true ts).map fun (v, ts) => (some v, ts)
  | ts => some (none, ts)

def variableDefinition? :
    List Token → Option (VariableDefinition (Value ObjectTree) × List Token)
  | .punctuator '$' :: .name name :: .punctuator ':' :: ts => do
    let (type, ts) ← typeRef? ts
    let (default, ts) ← default? ts
    return (⟨name, type, default⟩, ts)
  | _ => none

/-- Variable definitions in parentheses, or nothing. -/
def variableDefinitions? :
    List Token → Option (List (VariableDefinition (Value ObjectTree)) × List Token)
  | .punctuator '(' :: ts =>
    nonempty? (many ts.length (fun ts' _ => variableDefinition? ts') ')' ts (Nat.le_refl _))
  | ts => some ([], ts)

end Definitions

def operationName? : List Token → Option String × List Token
  | .name name :: ts => (some name, ts)
  | ts => (none, ts)

def operationKind? (keyword : String) : Option OperationKind :=
  if keyword = "query" then some .query
  else if keyword = "mutation" then some .mutation
  else if keyword = "subscription" then some .subscription
  else none

/-- An operation; selections alone are a query. -/
def operation? : List Token → Option (Operation (Value ObjectTree) × List Token)
  | .name keyword :: ts => do
    let kind ← operationKind? keyword
    let (name, ts) := operationName? ts
    let (definitions, ts) ← variableDefinitions? ts
    let (selections, ts) ← selections? ts
    return (⟨kind, name, definitions, selections⟩, ts)
  | ts => (selections? ts).map fun (selections, ts) => (⟨.query, none, [], selections⟩, ts)

def operations? : List Token → Option (List (Operation (Value ObjectTree)))
  | [] => some []
  | t :: ts =>
    match operation? (t :: ts) with
    | some (op, rest) =>
      if rest.length ≤ ts.length then (operations? rest).map (op :: ·) else none
    | none => none
termination_by ts => ts.length
decreasing_by exact Nat.lt_succ_of_le ‹_›

/-- The document that a text is, if the whole text is one. -/
def read (text : String) : Option (Document (Value ObjectTree)) :=
  match (tokens? text.toList).bind operations? with
  | some (op :: ops) => some ⟨op :: ops⟩
  | _ => none

end QueryDoc.Grammar
