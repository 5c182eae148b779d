import QueryDoc.Request.Update
import Mathlib.Data.List.Basic
import Mathlib.Data.String.Basic

/-!
Sequences of updates to the variables of a request. An update touches the variables that it sets,
which are all of them if it replaces the map. A variable is in the end what the last update that
touches it has set it to, and what it was before if there is none. Updates fail only for values that
cannot be serialized, the first of which fails the whole sequence.
-/

namespace QueryDoc

namespace NameMap

variable {α : Type} {e f : Entry α}

theorem insert_insert (same : e.name = f.name) (m : NameMap α) :
    insert f (insert e m) = insert f m := by
  induction m with
  | nil => simp [insert, same]
  | cons x m ih => grind [insert]

/-- Entries with different names may be inserted in any order. -/
theorem insert_comm (other : e.name ≠ f.name) (m : NameMap α) :
    insert e (insert f m) = insert f (insert e m) := by
  rcases lt_or_gt_of_ne other with before | before
  all_goals
    induction m with
    | nil => grind [insert]
    | cons x m ih => grind [insert]

end NameMap

theorem bind_eq_ok_iff {ε α β : Type} {x : Except ε α} {f : α → Except ε β} {b : β} :
    x >>= f = .ok b ↔ ∃ a, x = .ok a ∧ f a = .ok b := by
  cases x <;> simp [bind, Except.bind]

/-- A result that can only fail as serialization does, which gives its errors no context. -/
def FormatOnly {α : Type} (x : Except Error α) : Prop :=
  ∀ e, x = .error e → e.kind = .format ∧ e.context = none

namespace FormatOnly

variable {α β : Type} {x : Except Error α}

theorem ok (a : α) : FormatOnly (.ok a) := nofun

theorem bind {f : α → Except Error β} (hx : FormatOnly x) (hf : ∀ a, FormatOnly (f a)) :
    FormatOnly (x >>= f) := by
  cases x with
  | ok a => exact hf a
  | error e =>
      rintro _ ⟨⟩
      exact hx e rfl

theorem map (hx : FormatOnly x) (f : α → β) : FormatOnly (x.map f) :=
  hx.bind fun a => ok (f a)

end FormatOnly

namespace Payload

theorem formatOnly_key (p : Payload) : FormatOnly p.key := by
  intro e h
  unfold key at h
  split at h
  all_goals first | cases h | (split at h <;> cases h)
  all_goals exact ⟨rfl, rfl⟩

mutual

theorem formatOnly_toJson : (p : Payload) → FormatOnly p.toJson
  | .int n => by
      rw [toJson]
      split
      · exact .ok _
      · rintro _ ⟨⟩
        exact ⟨rfl, rfl⟩
  | .some p => formatOnly_toJson p
  | .seq items => (formatOnly_itemsJson items).map _
  | .map entries => (formatOnly_membersJson entries).map _
  | .fail reason => by
      rintro _ ⟨⟩
      exact ⟨rfl, rfl⟩
  | .json _ | .double _ | .single _ | .bool _ | .string _ | .none | .bytes _ => .ok _

theorem formatOnly_itemsJson : (items : List Payload) → FormatOnly (itemsJson items)
  | [] => .ok _
  | p :: items =>
      (formatOnly_toJson p).bind fun _ => (formatOnly_itemsJson items).bind fun _ => .ok _

theorem formatOnly_membersJson :
    (entries : List (Payload × Payload)) → FormatOnly (membersJson entries)
  | [] => .ok _
  | (k, p) :: entries =>
      (formatOnly_key k).bind fun _ => (formatOnly_toJson p).bind fun _ =>
        (formatOnly_membersJson entries).bind fun _ => .ok _

end

end Payload

namespace Update

/-- Whether the update comes through. -/
def Serializes : Update → Prop
  | .all _ => True
  | .one _ value => ∃ j, value.toJson = .ok j

/-- Whether the update sets the variable, be it to nothing. -/
def Touches (name : String) : Update → Prop
  | .all _ => True
  | .one other _ => other = name

instance (name : String) : DecidablePred (Touches name)
  | .all _ => .isTrue trivial
  | .one other _ => inferInstanceAs (Decidable (other = name))

end Update

namespace Request

variable {r t : Request} {u : Update} {us : List Update} {name : String}

/-- What a variable is set to in a request, if it is. -/
def binding? (r : Request) (name : String) : Option Json := r.bindings.bind (Entry.find? name)

theorem binding?_withBinding (r : Request) (name other : String) (j : Json) :
    (r.withBinding name j).binding? other =
      if name = other then some j else r.binding? other := by
  obtain ⟨query, operationName, bindings⟩ := r
  cases bindings <;> exact NameMap.find?_insert ..

section Steps

theorem update_error_iff {e : Error} :
    r.update u = .error e ↔ ∃ name value, u = .one name value ∧ value.toJson = .error e := by
  cases u with
  | all m => simp [update]
  | one name value => cases h : value.toJson <;> simp [update, h, Except.map]

theorem exists_update (h : u.Serializes) : ∃ t, r.update u = .ok t := by
  cases u with
  | all m => exact ⟨_, rfl⟩
  | one name value =>
      obtain ⟨j, json⟩ := h
      exact ⟨r.withBinding name j, by rw [update, json]; rfl⟩

/-- What an update does: it replaces the map, or sets one variable in it. -/
theorem update_cases (h : r.update u = .ok t) :
    (∃ m, u = .all m ∧ t = r.withBindings m) ∨
      ∃ name value j, u = .one name value ∧ value.toJson = .ok j ∧ t = r.withBinding name j := by
  cases u with
  | all m =>
      cases h
      exact .inl ⟨m, rfl, rfl⟩
  | one name value =>
      cases json : value.toJson with
      | error e => simp [update, json, Except.map] at h
      | ok j =>
          simp only [update, json, Except.map, Except.ok.injEq] at h
          exact .inr ⟨name, value, j, rfl, json, h.symm⟩

theorem update_keeps (h : r.update u = .ok t) :
    t.query = r.query ∧ t.operationName = r.operationName := by
  obtain ⟨m, -, rfl⟩ | ⟨name, value, j, -, -, rfl⟩ := update_cases h <;> exact ⟨rfl, rfl⟩

theorem update_bindings (h : r.update u = .ok t) : t.bindings ≠ none := by
  obtain ⟨m, -, rfl⟩ | ⟨name, value, j, -, -, rfl⟩ := update_cases h <;> exact nofun

theorem update_untouched (h : r.update u = .ok t) (untouched : ¬ u.Touches name) :
    t.binding? name = r.binding? name := by
  obtain ⟨m, rfl, rfl⟩ | ⟨other, value, j, rfl, -, rfl⟩ := update_cases h
  · exact absurd trivial untouched
  · exact (binding?_withBinding ..).trans (if_neg untouched)

end Steps

section Runs

theorem updateAll_cons (r : Request) (u : Update) (us : List Update) :
    r.updateAll (u :: us) = r.update u >>= fun t => t.updateAll us :=
  List.foldlM_cons

theorem updateAll_append (r : Request) (us vs : List Update) :
    r.updateAll (us ++ vs) = r.updateAll us >>= fun t => t.updateAll vs :=
  List.foldlM_append

theorem exists_updateAll (h : ∀ u ∈ us, u.Serializes) : ∃ t, r.updateAll us = .ok t := by
  induction us generalizing r with
  | nil => exact ⟨r, rfl⟩
  | cons u us ih =>
      obtain ⟨first, others⟩ := List.forall_mem_cons.mp h
      obtain ⟨r', updated⟩ := exists_update (r := r) first
      rw [updateAll_cons, updated]
      exact ih others

theorem updateAll_keeps (h : r.updateAll us = .ok t) :
    t.query = r.query ∧ t.operationName = r.operationName := by
  induction us generalizing r with
  | nil =>
      cases h
      exact ⟨rfl, rfl⟩
  | cons u us ih =>
      rw [updateAll_cons, bind_eq_ok_iff] at h
      obtain ⟨r', first, others⟩ := h
      obtain ⟨query, operationName⟩ := update_keeps first
      obtain ⟨query', operationName'⟩ := ih others
      exact ⟨query'.trans query, operationName'.trans operationName⟩

theorem bindings_eq_none_iff (h : r.updateAll us = .ok t) :
    t.bindings = none ↔ us = [] ∧ r.bindings = none := by
  rcases us.eq_nil_or_concat with rfl | ⟨before, u, rfl⟩
  · cases h
    simp
  · rw [List.concat_eq_append, updateAll_append, bind_eq_ok_iff] at h
    obtain ⟨r', -, last⟩ := h
    rw [updateAll_cons, bind_eq_ok_iff] at last
    obtain ⟨t', last, ⟨⟩⟩ := last
    simp [update_bindings last]

theorem updateAll_untouched (h : r.updateAll us = .ok t)
    (untouched : ∀ u ∈ us, ¬ u.Touches name) : t.binding? name = r.binding? name := by
  induction us generalizing r with
  | nil =>
      cases h
      rfl
  | cons u us ih =>
      rw [updateAll_cons, bind_eq_ok_iff] at h
      obtain ⟨r', first, others⟩ := h
      obtain ⟨fst, rest⟩ := List.forall_mem_cons.mp untouched
      exact (ih others rest).trans (update_untouched first fst)

/-- What a sequence of updates leaves a variable set to. It is what the last update that touches the
variable has set it to, or what it was set to before. -/
inductive LastSetting (r : Request) (name : String) : List Update → Option Json → Prop
  | one (before : List Update) {value after j} : value.toJson = .ok j → (∀ u ∈ after, ¬ u.Touches name) →
      LastSetting r name (before ++ .one name value :: after) (some j)
  | all (before : List Update) {m after} : (∀ u ∈ after, ¬ u.Touches name) →
      LastSetting r name (before ++ .all m :: after) (Entry.find? name m)
  | own {updates} : (∀ u ∈ updates, ¬ u.Touches name) →
      LastSetting r name updates (r.binding? name)

theorem LastSetting.eq {v : Option Json} (last : LastSetting r name us v)
    (h : r.updateAll us = .ok t) : t.binding? name = v := by
  cases last with
  | own untouched => exact updateAll_untouched h untouched
  | one before json untouched =>
      rw [updateAll_append, bind_eq_ok_iff] at h
      obtain ⟨r', -, h⟩ := h
      rw [updateAll_cons, update, json] at h
      exact (updateAll_untouched h untouched).trans ((binding?_withBinding ..).trans (if_pos rfl))
  | all before untouched =>
      rw [updateAll_append, bind_eq_ok_iff] at h
      obtain ⟨r', -, h⟩ := h
      rw [updateAll_cons] at h
      exact updateAll_untouched h untouched

theorem exists_lastSetting (h : ∀ u ∈ us, u.Serializes) (r : Request) (name : String) :
    ∃ v, LastSetting r name us v := by
  induction us with
  | nil => exact ⟨_, .own (List.forall_mem_nil _)⟩
  | cons u us ih =>
      obtain ⟨first, others⟩ := List.forall_mem_cons.mp h
      obtain ⟨v, last⟩ := ih others
      cases last with
      | one before json untouched => exact ⟨_, .one (u :: before) json untouched⟩
      | all before untouched => exact ⟨_, .all (u :: before) untouched⟩
      | own untouched =>
          cases u with
          | all m => exact ⟨_, .all [] untouched⟩
          | one other value =>
              by_cases same : other = name
              · obtain ⟨j, json⟩ := first
                subst same
                exact ⟨_, .one [] json untouched⟩
              · exact ⟨_, .own (List.forall_mem_cons.mpr ⟨same, untouched⟩)⟩

theorem lastSetting_iff {v : Option Json} (serialize : ∀ u ∈ us, u.Serializes)
    (h : r.updateAll us = .ok t) : LastSetting r name us v ↔ t.binding? name = v := by
  refine ⟨fun last => last.eq h, ?_⟩
  rintro rfl
  obtain ⟨v, last⟩ := exists_lastSetting serialize r name
  rwa [last.eq h]

end Runs

section Failures

variable {e : Error}

theorem formatOnly_updateAll (r : Request) (us : List Update) : FormatOnly (r.updateAll us) := by
  induction us generalizing r with
  | nil => exact .ok r
  | cons u us ih =>
      rw [updateAll_cons]
      refine FormatOnly.bind ?_ fun t => ih t
      cases u with
      | all m => exact .ok _
      | one name value => exact value.formatOnly_toJson.map _

/-- The first value that cannot be serialized gives the error. -/
theorem updateAll_error_iff :
    r.updateAll us = .error e ↔
      ∃ before name value after, us = before ++ .one name value :: after ∧
        (∀ u ∈ before, u.Serializes) ∧ value.toJson = .error e := by
  constructor
  · intro failed
    induction us generalizing r with
    | nil => cases failed
    | cons u us ih =>
        rw [updateAll_cons] at failed
        cases first : r.update u with
        | error f =>
            rw [first] at failed
            cases failed
            obtain ⟨name, value, rfl, json⟩ := update_error_iff.mp first
            exact ⟨[], name, value, us, rfl, List.forall_mem_nil _, json⟩
        | ok r' =>
            rw [first] at failed
            obtain ⟨before, name, value, after, rfl, serialize, json⟩ := ih failed
            have serializes : u.Serializes := by
              obtain ⟨m, rfl, -⟩ | ⟨name, value, j, rfl, json, -⟩ := update_cases first
              · trivial
              · exact ⟨j, json⟩
            exact ⟨u :: before, name, value, after, rfl,
              List.forall_mem_cons.mpr ⟨serializes, serialize⟩, json⟩
  · rintro ⟨before, name, value, after, rfl, serialize, json⟩
    obtain ⟨t, reached⟩ := exists_updateAll (r := r) serialize
    rw [updateAll_append, reached]
    exact congrArg (· >>= fun t => t.updateAll after)
      (update_error_iff.mpr ⟨name, value, rfl, json⟩)

end Failures

section Rearranging

variable {before between after : List Update} {other : String} {value value' : Payload} {j : Json}

theorem updateAll_one (json : value.toJson = .ok j) (r : Request) (us : List Update) :
    r.updateAll (.one name value :: us) = (r.withBinding name j).updateAll us := by
  rw [updateAll_cons, update, json]
  rfl

theorem updateAll_one_of_error {e : Error} (failed : value.toJson = .error e) (r : Request)
    (us : List Update) : r.updateAll (.one name value :: us) = .error e := by
  rw [updateAll_cons, update, failed]
  rfl

theorem updateAll_append_congr (before : List Update) {us vs : List Update}
    (same : ∀ r : Request, r.updateAll us = r.updateAll vs) (r : Request) :
    r.updateAll (before ++ us) = r.updateAll (before ++ vs) := by
  rw [updateAll_append, updateAll_append]
  exact congrArg _ (funext same)

theorem withBinding_comm (different : name ≠ other) (j k : Json) :
    (r.withBinding name j).withBinding other k = (r.withBinding other k).withBinding name j := by
  rw [withBinding, withBinding, withBinding, withBinding]
  exact congrArg (fun m => { r with bindings := some m })
    (NameMap.insert_comm (e := ⟨other, k⟩) (f := ⟨name, j⟩) different.symm _)

theorem withBinding_withBinding (r : Request) (name : String) (j k : Json) :
    (r.withBinding name j).withBinding name k = r.withBinding name k := by
  rw [withBinding, withBinding, withBinding]
  exact congrArg (fun m => { r with bindings := some m })
    (NameMap.insert_insert (e := ⟨name, j⟩) (f := ⟨name, k⟩) rfl _)

theorem updateAll_swap (different : name ≠ other) (first : (Update.one name value).Serializes)
    (second : (Update.one other value').Serializes) (r : Request) (before after : List Update) :
    r.updateAll (before ++ .one name value :: .one other value' :: after) =
      r.updateAll (before ++ .one other value' :: .one name value :: after) := by
  obtain ⟨j, json⟩ := first
  obtain ⟨k, json'⟩ := second
  refine updateAll_append_congr before (fun r => ?_) r
  rw [updateAll_one json, updateAll_one json', updateAll_one json', updateAll_one json,
    withBinding_comm different]

/-- Setting a variable has no effect if it is set again later. -/
theorem updateAll_set_again (r : Request) (name : String) (j : Json) (value : Payload)
    (between after : List Update) :
    (r.withBinding name j).updateAll (between ++ .one name value :: after) =
      r.updateAll (between ++ .one name value :: after) := by
  induction between generalizing r with
  | nil =>
      rw [List.nil_append]
      cases json : value.toJson with
      | error e => rw [updateAll_one_of_error json, updateAll_one_of_error json]
      | ok k => rw [updateAll_one json, updateAll_one json, withBinding_withBinding]
  | cons u between ih =>
      rw [List.cons_append]
      cases u with
      | all m => rfl
      | one other value' =>
          cases json : value'.toJson with
          | error e => rw [updateAll_one_of_error json, updateAll_one_of_error json]
          | ok k =>
              rw [updateAll_one json, updateAll_one json]
              by_cases same : name = other
              · rw [← same, withBinding_withBinding]
              · rw [withBinding_comm same, ih]

theorem updateAll_repeated (serializes : (Update.one name value).Serializes) (r : Request)
    (before between after : List Update) :
    r.updateAll (before ++ .one name value :: (between ++ .one name value' :: after)) =
      r.updateAll (before ++ (between ++ .one name value' :: after)) := by
  obtain ⟨j, json⟩ := serializes
  refine updateAll_append_congr before (fun r => ?_) r
  rw [updateAll_one json, updateAll_set_again]

/-- Replacing the map leaves nothing of the variables before. -/
theorem updateAll_replaced (serialize : ∀ u ∈ before, u.Serializes) (r : Request) (m : Bindings)
    (after : List Update) :
    r.updateAll (before ++ .all m :: after) = (r.withBindings m).updateAll after := by
  obtain ⟨t, reached⟩ := exists_updateAll (r := r) serialize
  obtain ⟨query, operationName⟩ := updateAll_keeps reached
  have replaced : t.withBindings m = r.withBindings m := by
    rw [withBindings, withBindings, query, operationName]
  rw [updateAll_append, reached, ← replaced]
  rfl

end Rearranging

/-- A sequence of updates whose values all serialize comes through, with the same query and
operation name, and leaves every variable as the last update that touches it has set it. Otherwise
the first value that does not serialize gives the error. -/
theorem last_setting_of_each_variable_stays (r : Request) (us : List Update) :
    ((∀ u ∈ us, u.Serializes) → ∃ t, r.updateAll us = .ok t ∧ t.query = r.query ∧
      t.operationName = r.operationName ∧ (t.bindings = none ↔ us = [] ∧ r.bindings = none) ∧
      ∀ name v, t.binding? name = v ↔ LastSetting r name us v) ∧
    (∀ before name value other value' after, name ≠ other →
      (Update.one name value).Serializes → (Update.one other value').Serializes →
      us = before ++ .one name value :: .one other value' :: after →
      r.updateAll us = r.updateAll (before ++ .one other value' :: .one name value :: after)) ∧
    (∀ before name value between value' after, (Update.one name value).Serializes →
      us = before ++ .one name value :: (between ++ .one name value' :: after) →
      r.updateAll us = r.updateAll (before ++ (between ++ .one name value' :: after))) ∧
    (∀ before m after, (∀ u ∈ before, u.Serializes) → us = before ++ .all m :: after →
      r.updateAll us = (r.withBindings m).updateAll after) ∧
    ∀ e, (r.updateAll us = .error e ↔
        ∃ before name value after, us = before ++ .one name value :: after ∧
          (∀ u ∈ before, u.Serializes) ∧ value.toJson = .error e) ∧
      (r.updateAll us = .error e → e.kind = .format ∧ e.context = none) := by
  refine ⟨fun serialize => ?_, ?_, ?_, ?_, fun e => ⟨updateAll_error_iff, ?_⟩⟩
  · obtain ⟨t, reached⟩ := exists_updateAll (r := r) serialize
    obtain ⟨query, operationName⟩ := updateAll_keeps reached
    exact ⟨t, reached, query, operationName, bindings_eq_none_iff reached,
      fun name v => (lastSetting_iff serialize reached).symm⟩
  · rintro before name value other value' after different first second rfl
    exact updateAll_swap different first second r before after
  · rintro before name value between value' after serializes rfl
    exact updateAll_repeated serializes r before between after
  · rintro before m after serialize rfl
    exact updateAll_replaced serialize r m after
  · exact formatOnly_updateAll r us e

example :
    Request.updateAll { query := "query \x7b\x7d" }
        [.one "page" (.bool true), .all [⟨"limit", .null⟩], .one "after" .none,
          .one "after" (.string "x")] =
      .ok { query := "query \x7b\x7d",
            bindings := some [⟨"after", .string "x"⟩, ⟨"limit", .null⟩] } := by
  rfl

end Request

end QueryDoc
