import QueryDoc.Json.Read
import QueryDoc.Proofs.Json.Scanning

/-!
Reading JSON values from their tokens. A value that nests as deep as the limit allows is read,
whatever is open around it, with all its objects in order, so one whose objects are in order is read
as itself. What is read can be passed over as well.
-/

namespace QueryDoc.Json

section Depth

mutual

/-- How deep arrays and objects nest in a value. -/
def depth : Json → Nat
  | .array items => itemDepth items + 1
  | .object members => memberDepth members + 1
  | .null | .bool _ | .number _ | .string _ => 0
termination_by structural j => j

def itemDepth : List Json → Nat
  | [] => 0
  | j :: items => max j.depth (itemDepth items)
termination_by structural items => items

def memberDepth : List (Entry Json) → Nat
  | [] => 0
  | ⟨_, j⟩ :: members => max j.depth (memberDepth members)
termination_by structural members => members

end

theorem memberDepth_cons (m : Entry Json) (members : List (Entry Json)) :
    memberDepth (m :: members) = max m.value.depth (memberDepth members) := by
  rw [memberDepth]

theorem depth_le_itemDepth {j : Json} {items : List Json} (h : j ∈ items) :
    j.depth ≤ itemDepth items := by
  induction items with
  | nil => nomatch h
  | cons k items ih =>
      rw [itemDepth]
      rcases List.mem_cons.mp h with rfl | h
      · exact Nat.le_max_left ..
      · exact Nat.le_trans (ih h) (Nat.le_max_right ..)

theorem depth_le_memberDepth {m : Entry Json} {members : List (Entry Json)} (h : m ∈ members) :
    m.value.depth ≤ memberDepth members := by
  induction members with
  | nil => nomatch h
  | cons n members ih =>
      rw [memberDepth_cons]
      rcases List.mem_cons.mp h with rfl | h
      · exact Nat.le_max_left ..
      · exact Nat.le_trans (ih h) (Nat.le_max_right ..)

end Depth

section Ordered

mutual

/-- The value with the map of its members for every object: of members with one name the last one
counts. -/
def ordered : Json → Json
  | .array items => .array (orderedItems items)
  | .object members => .ofEntries (orderedMembers members)
  | .null => .null
  | .bool b => .bool b
  | .number n => .number n
  | .string text => .string text
termination_by structural j => j

def orderedItems : List Json → List Json
  | [] => []
  | j :: items => j.ordered :: orderedItems items
termination_by structural items => items

def orderedMembers : List (Entry Json) → List (Entry Json)
  | [] => []
  | ⟨name, j⟩ :: members => ⟨name, j.ordered⟩ :: orderedMembers members
termination_by structural members => members

end

theorem orderedItems_eq (items : List Json) : orderedItems items = items.map ordered := by
  induction items with
  | nil => rfl
  | cons j items ih => rw [orderedItems, ih, List.map_cons]

theorem orderedMembers_eq (members : List (Entry Json)) :
    orderedMembers members = members.map (Entry.map ordered) := by
  induction members with
  | nil => rfl
  | cons m members ih =>
      rw [orderedMembers, ih, List.map_cons]
      rfl

theorem ordered_of_canonical (j : Json) (canonical : j.Canonical) : j.ordered = j := by
  induction j using Json.induct with
  | null | bool _ | number _ | string _ => rfl
  | array items ih =>
      rw [Canonical, canonicalItems_iff] at canonical
      rw [ordered, orderedItems_eq, List.map_congr_left fun j hj => ih j hj (canonical j hj),
        List.map_id']
  | object members ih =>
      rw [Canonical, canonicalMembers_iff] at canonical
      have values : members.map (Entry.map ordered) = members := by
        refine (List.map_congr_left fun m hm => ?_).trans (List.map_id members)
        exact congrArg (Entry.mk m.name) (ih m hm (canonical.2 m hm))
      rw [ordered, orderedMembers_eq, values, ofEntries, NameMap.ofEntries_of_sorted canonical.1]

end Ordered

variable {limit levels levels' : Nat} {frames : List Frame} {ts rest : List Token} {j : Json}
  {items : List Json} {members : List (Entry Json)}

/-- The tokens are read as the value wherever there is room for so many levels. -/
def ReadsAs (ts : List Token) (levels : Nat) (j : Json) : Prop :=
  ∀ limit frames rest, frames.length + levels ≤ limit →
    readValue limit frames (ts ++ rest) = readNext limit j frames rest

theorem ReadsAs.mono (h : ReadsAs ts levels j) (more : levels ≤ levels') : ReadsAs ts levels' j :=
  fun limit frames rest room => h limit frames rest (by omega)

theorem ReadsAs.start (h : ReadsAs ts levels j) : ∃ t us, ts = t :: us ∧ t ≠ .closeArray := by
  have read := h levels [] [] (by rw [List.length_nil, Nat.zero_add])
  cases ts with
  | nil => cases read
  | cons t us =>
      refine ⟨t, us, rfl, ?_⟩
      rintro rfl
      cases read

section Rows

variable {α : Type} {xs : List α} {value : α → Json} {member : α → Entry Json}
  {parts : α → List Token}

theorem readNext_items (h : ∀ x ∈ xs, ReadsAs (parts x) levels (value x)) (j : Json)
    (done : List Json) (room : frames.length + 1 + levels ≤ limit) :
    readNext limit j (.array done :: frames)
        ((xs.flatMap fun x => .comma :: parts x) ++ .closeArray :: ts) =
      readNext limit (.array (done.reverse ++ j :: xs.map value)) frames ts := by
  induction xs generalizing j done with
  | nil => rw [List.flatMap_nil, List.nil_append, readNext, List.reverse_cons, List.map_nil]
  | cons x xs ih =>
      have read := h x (List.mem_cons_self ..) limit (.array (j :: done) :: frames)
        ((xs.flatMap fun x => .comma :: parts x) ++ .closeArray :: ts) room
      rw [List.flatMap_cons, List.cons_append, List.cons_append, List.append_assoc, readNext, read,
        ih (fun y hy => h y (List.mem_cons_of_mem x hy)), List.reverse_cons, List.append_assoc,
        List.singleton_append, List.map_cons]

theorem readsAs_array (h : ∀ x ∈ xs, ReadsAs (parts x) levels (value x)) :
    ReadsAs (.openArray :: (row .comma parts xs ++ [.closeArray])) (levels + 1)
      (.array (xs.map value)) := by
  intro limit frames ts room
  have inside : frames.length < limit := by omega
  cases xs with
  | nil =>
      rw [row, List.nil_append, List.cons_append, List.singleton_append, readValue, if_pos inside]
      rfl
  | cons x xs =>
      have first := h x (List.mem_cons_self ..)
      obtain ⟨t, us, start, notClose⟩ := first.start
      have opened (rest : List Token) : readValue limit frames (.openArray :: (parts x ++ rest)) =
          readValue limit (.array [] :: frames) (parts x ++ rest) := by
        rw [start, List.cons_append, readValue, if_pos inside]
        rintro _ ⟨⟩
        exact notClose rfl
      rw [row, List.cons_append, List.append_assoc, List.append_assoc, List.singleton_append,
        opened, first limit _ _ (by rw [List.length_cons]; omega),
        readNext_items (fun y hy => h y (List.mem_cons_of_mem x hy)) _ [] (by omega)]
      rfl

/-- The tokens of a member, given those of its value. -/
def namedTokens (member : α → Entry Json) (parts : α → List Token) (x : α) : List Token :=
  .string (some (member x).name) :: .colon :: parts x

theorem readNext_members (h : ∀ x ∈ xs, ReadsAs (parts x) levels (member x).value)
    (m : Entry Json) (done : List (Entry Json)) (room : frames.length + 1 + levels ≤ limit) :
    readNext limit m.value (.object done m.name :: frames)
        ((xs.flatMap fun x => .comma :: namedTokens member parts x) ++ .closeObject :: ts) =
      readNext limit (.ofEntries (done.reverse ++ m :: xs.map member)) frames ts := by
  induction xs generalizing m done with
  | nil => rw [List.flatMap_nil, List.nil_append, readNext, List.reverse_cons, List.map_nil]
  | cons x xs ih =>
      have read := h x (List.mem_cons_self ..) limit (.object (m :: done) (member x).name :: frames)
        ((xs.flatMap fun x => .comma :: namedTokens member parts x) ++ .closeObject :: ts) room
      rw [List.flatMap_cons, List.cons_append, List.cons_append, List.append_assoc, namedTokens,
        List.cons_append, List.cons_append, readNext, read,
        ih (fun y hy => h y (List.mem_cons_of_mem x hy)), List.reverse_cons, List.append_assoc,
        List.singleton_append, List.map_cons]

/-- Members in any order are read as the map of them. -/
theorem readsAs_object (h : ∀ x ∈ xs, ReadsAs (parts x) levels (member x).value) :
    ReadsAs (.openObject :: (row .comma (namedTokens member parts) xs ++ [.closeObject]))
      (levels + 1) (.ofEntries (xs.map member)) := by
  intro limit frames ts room
  have inside : frames.length < limit := by omega
  cases xs with
  | nil =>
      rw [row, List.nil_append, List.cons_append, List.singleton_append, readValue, if_pos inside]
      rfl
  | cons x xs =>
      rw [row, List.cons_append, List.append_assoc, List.append_assoc, namedTokens,
        List.cons_append, List.cons_append, List.singleton_append, readValue, if_pos inside,
        h x (List.mem_cons_self ..) limit _ _ (by rw [List.length_cons]; omega),
        readNext_members (fun y hy => h y (List.mem_cons_of_mem x hy)) _ [] (by omega)]
      rfl

end Rows

/-- The tokens are those of a text of the value. Numbers may be written in any way that is read as
them. -/
inductive WrittenAs : Json → List Token → Prop
  | null : WrittenAs .null [.null]
  | bool (b : Bool) : WrittenAs (.bool b) [.bool b]
  | number {n : Number} {m : Numeral} : m.toNumber? = some n → WrittenAs (.number n) [.number m]
  | string (text : String) : WrittenAs (.string text) [.string (some text)]
  | array {α : Type} {xs : List α} {value : α → Json} {parts : α → List Token} :
      (∀ x ∈ xs, WrittenAs (value x) (parts x)) →
        WrittenAs (.array (xs.map value)) (.openArray :: (row .comma parts xs ++ [.closeArray]))
  | object {α : Type} {xs : List α} {member : α → Entry Json} {parts : α → List Token} :
      (∀ x ∈ xs, WrittenAs (member x).value (parts x)) →
        WrittenAs (.object (xs.map member))
          (.openObject :: (row .comma (namedTokens member parts) xs ++ [.closeObject]))

/-- The value is read with all its objects in order. -/
theorem WrittenAs.readsAs (h : WrittenAs j ts) : ReadsAs ts j.depth j.ordered := by
  induction h with
  | null | bool _ | string _ =>
      intro limit frames rest _
      rw [List.singleton_append, readValue]
      rfl
  | number read =>
      intro limit frames rest _
      rw [List.singleton_append, readValue, read]
      rfl
  | @array _ xs value parts _ ih =>
      have items : ∀ x ∈ xs, ReadsAs (parts x) (itemDepth (xs.map value)) (value x).ordered :=
        fun x hx => (ih x hx).mono (depth_le_itemDepth (List.mem_map_of_mem hx))
      rw [depth, ordered, orderedItems_eq, List.map_map]
      exact readsAs_array items
  | @object _ xs member parts _ ih =>
      have values : ∀ x ∈ xs,
          ReadsAs (parts x) (memberDepth (xs.map member)) ((member x).map ordered).value :=
        fun x hx => (ih x hx).mono (depth_le_memberDepth (List.mem_map_of_mem hx))
      rw [depth, ordered, orderedMembers_eq, List.map_map]
      exact readsAs_object values

section Skipping

/-- Whether the frame is that of an object. -/
def Frame.isObject : Frame → Bool
  | .array _ => false
  | .object _ _ => true

/-- What is read is passed over likewise, between the same brackets. -/
theorem skip_of_read (limit : Nat) :
    (∀ frames ts, ∀ result, readValue limit frames ts = some result →
      skipValue (frames.map Frame.isObject) ts = some result.2) ∧
    (∀ j frames ts, ∀ result, readNext limit j frames ts = some result →
      skipNext (frames.map Frame.isObject) ts = some result.2) := by
  apply readValue.mutual_induct limit
    (fun frames ts => ∀ result, readValue limit frames ts = some result →
      skipValue (frames.map Frame.isObject) ts = some result.2)
    (fun j frames ts => ∀ result, readNext limit j frames ts = some result →
      skipNext (frames.map Frame.isObject) ts = some result.2)
  -- A value in no frames is the result.
  case case15 =>
    intro j ts result read
    rw [readNext] at read
    cases read
    rw [List.map_nil, skipNext]
  -- There is no room for another frame.
  case case7 | case9 | case11 | case13 =>
    intros
    rename_i read
    simp_all only [readValue, if_false, reduceCtorEq]
  -- The reader refuses the tokens.
  case case4 | case14 | case20 =>
    intros
    rename_i read
    simp_all [readValue, readNext]
  all_goals
    intros
    rename_i ih result read
    simp only [readValue, readNext, if_true, *] at read
    rw [← ih result read]
    simp only [skipValue, skipNext, List.map_cons, Frame.isObject, *]

theorem WrittenAs.skips (h : WrittenAs j ts) (rest : List Token) :
    skipValue [] (ts ++ rest) = some rest := by
  have read := h.readsAs j.depth [] rest (by rw [List.length_nil, Nat.zero_add])
  rw [readNext] at read
  exact (skip_of_read j.depth).1 [] _ _ read

end Skipping

/-- A value may be written with its own tokens, if its floats are read as the nearest ones. -/
theorem writtenAs_tokens (j : Json) (nearest : ∀ n ∈ j.numbers, n.ReadAsNearest) :
    WrittenAs j j.tokens := by
  induction j using Json.induct with
  | null => exact .null
  | bool b => exact .bool b
  | string text => exact .string text
  | number n => exact .number (n.toNumber?_parts (nearest n (List.mem_singleton_self n)))
  | array items ih =>
      simp only [numbers, itemNumbers_eq, List.mem_flatMap] at nearest
      have written := @WrittenAs.array Json items id tokens
        fun j hj => ih j hj fun n hn => nearest n ⟨j, hj, hn⟩
      rwa [List.map_id, ← tokens_array] at written
  | object members ih =>
      simp only [numbers, memberNumbers_eq, List.mem_flatMap] at nearest
      have written := @WrittenAs.object (Entry Json) members id (fun m => m.value.tokens)
        fun m hm => ih m hm fun n hn => nearest n ⟨m, hm, hn⟩
      rw [List.map_id] at written
      rwa [tokens_object]

/-- The value is read from its tokens wherever there is room for it. -/
def Reads (j : Json) : Prop :=
  ∀ limit frames ts, frames.length + j.depth ≤ limit →
    readValue limit frames (j.tokens ++ ts) = readNext limit j frames ts

theorem readValue_members (h : ∀ m ∈ members, m.value.Reads)
    (room : frames.length + depth (.object members) ≤ limit) (ts : List Token) :
    readValue limit frames (tokens (.object members) ++ ts) =
      readNext limit (.ofEntries members) frames ts := by
  have values : ∀ m ∈ members, ReadsAs m.value.tokens (memberDepth members) (id m).value :=
    fun m hm => ReadsAs.mono (h m hm) (depth_le_memberDepth hm)
  have read := readsAs_object values limit frames ts room
  rw [List.map_id] at read
  rwa [tokens_object]

theorem reads_string (text : String) : Reads (.string text) :=
  (WrittenAs.string text).readsAs

/-- Every value is read as itself, if its objects are in order and its floats are read as the
nearest ones. -/
theorem reads (j : Json) (canonical : j.Canonical) (nearest : ∀ n ∈ j.numbers, n.ReadAsNearest) :
    Reads j := by
  have read := (writtenAs_tokens j nearest).readsAs
  rwa [ordered_of_canonical j canonical] at read

end QueryDoc.Json
