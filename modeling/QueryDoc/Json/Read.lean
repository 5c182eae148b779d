import QueryDoc.Json.Numeral
import QueryDoc.Json.Token

/-!
Reading JSON values from tokens. The arrays and objects that are still open form a stack of frames,
so every step takes a token. Objects may repeat a name: the last member counts. A value that is only
passed over has to be well-formed, but its numbers may be out of range, its strings may hold halves
of surrogate pairs, and it may nest to any depth.
-/

namespace QueryDoc

namespace Json

/-- An open array, or an open object with the name of the member that is being read. What has been
read of it is kept with the last part first. -/
inductive Frame where
  | array (done : List Json)
  | object (done : List (Entry Json)) (name : String)

mutual

/-- Reads a value inside the given frames, which may nest `limit` deep, and gives back the tokens
after the outermost one. -/
def readValue (limit : Nat) (frames : List Frame) : List Token → Option (Json × List Token)
  | .null :: ts => readNext limit .null frames ts
  | .bool b :: ts => readNext limit (.bool b) frames ts
  | .number n :: ts =>
    match n.toNumber? with
    | some n => readNext limit (.number n) frames ts
    | none => none
  | .string (some text) :: ts => readNext limit (.string text) frames ts
  | .openArray :: .closeArray :: ts =>
    if frames.length < limit then readNext limit (.array []) frames ts else none
  | .openArray :: ts =>
    if frames.length < limit then readValue limit (.array [] :: frames) ts else none
  | .openObject :: .closeObject :: ts =>
    if frames.length < limit then readNext limit (.object []) frames ts else none
  | .openObject :: .string (some name) :: .colon :: ts =>
    if frames.length < limit then readValue limit (.object [] name :: frames) ts else none
  | _ => none
termination_by structural ts => ts

/-- Goes on after a value inside the given frames. -/
def readNext (limit : Nat) (j : Json) : List Frame → List Token → Option (Json × List Token)
  | [], ts => some (j, ts)
  | .array done :: frames, .comma :: ts => readValue limit (.array (j :: done) :: frames) ts
  | .array done :: frames, .closeArray :: ts =>
    readNext limit (.array (j :: done).reverse) frames ts
  | .object done name :: frames, .comma :: .string (some next) :: .colon :: ts =>
    readValue limit (.object (⟨name, j⟩ :: done) next :: frames) ts
  | .object done name :: frames, .closeObject :: ts =>
    readNext limit (.ofEntries (⟨name, j⟩ :: done).reverse) frames ts
  | _, _ => none
termination_by structural _ ts => ts

end

mutual

/-- Passes over a value; the frames are the brackets around it, true for those of objects. -/
def skipValue (frames : List Bool) : List Token → Option (List Token)
  | .null :: ts | .bool _ :: ts | .number _ :: ts | .string _ :: ts => skipNext frames ts
  | .openArray :: .closeArray :: ts => skipNext frames ts
  | .openArray :: ts => skipValue (false :: frames) ts
  | .openObject :: .closeObject :: ts => skipNext frames ts
  | .openObject :: .string _ :: .colon :: ts => skipValue (true :: frames) ts
  | _ => none
termination_by structural ts => ts

def skipNext : List Bool → List Token → Option (List Token)
  | [], ts => some ts
  | false :: frames, .comma :: ts => skipValue (false :: frames) ts
  | false :: frames, .closeArray :: ts => skipNext frames ts
  | true :: frames, .comma :: .string _ :: .colon :: ts => skipValue (true :: frames) ts
  | true :: frames, .closeObject :: ts => skipNext frames ts
  | _, _ => none
termination_by structural _ ts => ts

end

theorem read_length (limit n : Nat) :
    (∀ frames ts j rest, ts.length ≤ n → readValue limit frames ts = some (j, rest) →
      rest.length < ts.length) ∧
    (∀ j frames ts k rest, ts.length ≤ n → readNext limit j frames ts = some (k, rest) →
      rest.length ≤ ts.length) := by
  induction n with
  | zero =>
    refine ⟨fun frames ts j rest hn h => ?_, fun j frames ts k rest hn h => ?_⟩
    · rw [List.eq_nil_of_length_eq_zero (Nat.le_zero.mp hn)] at h
      simp [readValue] at h
    · rw [List.eq_nil_of_length_eq_zero (Nat.le_zero.mp hn)] at h ⊢
      cases frames with
      | nil => simp_all [readNext]
      | cons frame frames => cases frame <;> simp [readNext] at h
  | succ n ih =>
    obtain ⟨ihv, ihn⟩ := ih
    refine ⟨fun frames ts j rest hn h => ?_, fun j frames ts k rest hn h => ?_⟩
    · unfold readValue at h
      grind
    · unfold readNext at h
      grind

theorem skip_length (n : Nat) :
    (∀ frames ts rest, ts.length ≤ n → skipValue frames ts = some rest →
      rest.length < ts.length) ∧
    (∀ frames ts rest, ts.length ≤ n → skipNext frames ts = some rest →
      rest.length ≤ ts.length) := by
  induction n with
  | zero =>
    refine ⟨fun frames ts rest hn h => ?_, fun frames ts rest hn h => ?_⟩
    · rw [List.eq_nil_of_length_eq_zero (Nat.le_zero.mp hn)] at h
      simp [skipValue] at h
    · rw [List.eq_nil_of_length_eq_zero (Nat.le_zero.mp hn)] at h ⊢
      cases frames with
      | nil => simp_all [skipNext]
      | cons frame frames => cases frame <;> simp [skipNext] at h
  | succ n ih =>
    obtain ⟨ihv, ihn⟩ := ih
    refine ⟨fun frames ts rest hn h => ?_, fun frames ts rest hn h => ?_⟩
    · unfold skipValue at h
      grind
    · unfold skipNext at h
      grind

theorem readValue_length {limit : Nat} {frames : List Frame} {ts rest : List Token} {j : Json}
    (h : readValue limit frames ts = some (j, rest)) : rest.length < ts.length :=
  (read_length limit ts.length).1 frames ts j rest (Nat.le_refl _) h

theorem skipValue_length {frames : List Bool} {ts rest : List Token}
    (h : skipValue frames ts = some rest) : rest.length < ts.length :=
  (skip_length ts.length).1 frames ts rest (Nat.le_refl _) h

/-- How deep arrays and objects may nest in a text. -/
def depthLimit : Nat := 127

/-- Reads a text that holds one value and nothing else. -/
def ofText? (text : String) : Option Json :=
  match readValue depthLimit [] (Token.scan text.toList) with
  | some (j, []) => some j
  | _ => none

end Json

end QueryDoc
