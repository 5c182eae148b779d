/-!
Named values, and maps from names to values. A map is kept as a list of entries in increasing
order of their names, so equal maps are equal lists and iteration is in that order. Of two entries
with one name the later one is kept.
-/

namespace QueryDoc

/-- A value with a name: a field of an input object, an argument, a member of a JSON object. -/
structure Entry (α : Type) where
  name : String
  value : α
deriving DecidableEq, Repr

namespace Entry

variable {α β : Type}

def map (f : α → β) (e : Entry α) : Entry β := ⟨e.name, f e.value⟩

/-- The value of the first entry with the given name. -/
def find? (name : String) : List (Entry α) → Option α
  | [] => none
  | e :: es => if e.name = name then some e.value else find? name es

def names (es : List (Entry α)) : List String := es.map Entry.name

end Entry

/-- Entries in order of their names. -/
abbrev NameMap (α : Type) := List (Entry α)

namespace NameMap

variable {α : Type}

def Sorted (m : NameMap α) : Prop := m.Pairwise fun a b => a.name < b.name

def insert (e : Entry α) : NameMap α → NameMap α
  | [] => [e]
  | x :: m =>
    if e.name = x.name then e :: m
    else if e.name < x.name then e :: x :: m
    else x :: insert e m

/-- The map with all given entries, the last one for each name. -/
def ofEntries (es : List (Entry α)) : NameMap α := es.foldl (fun m e => insert e m) []

theorem find?_insert (e : Entry α) (m : NameMap α) (name : String) :
    Entry.find? name (insert e m) =
      if e.name = name then some e.value else Entry.find? name m := by
  induction m with
  | nil => simp [insert, Entry.find?]
  | cons x m ih =>
    rw [insert]
    split
    · rename_i h
      simp only [Entry.find?, ← h]
      split <;> rfl
    · split
      · rfl
      · simp only [Entry.find?, ih]
        split <;> split <;> simp_all

theorem mem_insert {e x : Entry α} {m : NameMap α} (h : x ∈ insert e m) : x = e ∨ x ∈ m := by
  induction m with
  | nil => simpa [insert] using h
  | cons y m ih =>
    rw [insert] at h
    split at h
    · simp only [List.mem_cons] at h ⊢
      exact h.imp_right .inr
    · split at h
      · simpa using h
      · simp only [List.mem_cons] at h ⊢
        rcases h with h | h
        · exact .inr (.inl h)
        · exact (ih h).imp_right .inr

theorem sorted_insert {e : Entry α} {m : NameMap α} (h : Sorted m) : Sorted (insert e m) := by
  induction m with
  | nil => simp [insert, Sorted]
  | cons x m ih =>
    obtain ⟨hx, hm⟩ := List.pairwise_cons.mp h
    rw [insert]
    split
    · rename_i he
      exact List.pairwise_cons.mpr ⟨fun y hy => he ▸ hx y hy, hm⟩
    · split
      · rename_i hlt
        refine List.pairwise_cons.mpr ⟨fun y hy => ?_, h⟩
        rcases List.mem_cons.mp hy with rfl | hy
        · exact hlt
        · exact String.lt_trans hlt (hx y hy)
      · rename_i hne hnlt
        refine List.pairwise_cons.mpr ⟨fun y hy => ?_, ih hm⟩
        rcases mem_insert hy with rfl | hy
        · exact Std.lt_of_le_of_ne (Std.not_lt.mp hnlt) (Ne.symm hne)
        · exact hx y hy

theorem sorted_ofEntries (es : List (Entry α)) : Sorted (ofEntries es) := by
  have step : ∀ (es : List (Entry α)) (m : NameMap α), Sorted m →
      Sorted (es.foldl (fun m e => insert e m) m) := by
    intro es
    induction es with
    | nil => exact fun _ h => h
    | cons e es ih => exact fun m h => ih _ (sorted_insert h)
  exact step es [] .nil

end NameMap

end QueryDoc
