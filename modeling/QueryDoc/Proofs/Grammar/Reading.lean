import QueryDoc.Proofs.Grammar.Reader
import QueryDoc.Proofs.Grammar.Spelling

/-!
The tokens of every part of a document are read back as that part, if those of the values in it are.
Some parts may end where others of their kind go on, so that these have to be told which tokens do
not come next.
-/

namespace QueryDoc.Grammar

variable {Ref V α β : Type} {ts rest : List Token}

/-- None of these punctuators comes next. -/
def Avoids (cs : List Char) (ts : List Token) : Prop :=
  ∀ c ∈ cs, ts.head? ≠ some (.punctuator c)

theorem avoids_cons {cs : List Char} {t : Token} (h : ∀ c ∈ cs, t ≠ .punctuator c)
    (ts : List Token) : Avoids cs (t :: ts) :=
  fun c hc e => h c hc (Option.some.inj e)

theorem avoids_punctuator {cs : List Char} {c : Char} (h : c ∉ cs) (ts : List Token) :
    Avoids cs (.punctuator c :: ts) := by
  refine avoids_cons ?_ ts
  rintro d hd ⟨⟩
  exact h hd

/-- A name is no punctuator. -/
theorem avoids_name (cs : List Char) (name : String) (ts : List Token) :
    Avoids cs (.name name :: ts) := by
  refine avoids_cons ?_ ts
  exact fun c _ => nofun

theorem starts_of_name {cs : List Char} (h : ∃ name us, ts = .name name :: us) :
    ts ≠ [] ∧ Avoids cs ts := by
  obtain ⟨name, us, rfl⟩ := h
  exact ⟨List.cons_ne_nil _ _, avoids_name cs name us⟩

theorem Avoids.append {cs : List Char} (h : Avoids cs ts) (h' : Avoids cs rest) :
    Avoids cs (ts ++ rest) := by
  cases ts with
  | nil => exact h'
  | cons t ts => exact h

theorem Avoids.mono {cs ds : List Char} (h : Avoids cs ts) (sub : ds ⊆ cs) : Avoids ds ts :=
  fun c hc => h c (sub hc)

section Lists

variable {limit : Nat} {closing : Char} {avoided : List Char}
  {part? : (ts : List Token) → ts.length ≤ limit → Option (β × List Token)}

theorem many_cons {t : Token} {b : β} (within : (t :: ts).length ≤ limit)
    (goesOn : t ≠ .punctuator closing) (read : part? (t :: ts) within = some (b, rest))
    (shorter : rest.length ≤ ts.length) :
    many limit part? closing (t :: ts) within =
      (many limit part? closing rest
        (Nat.le_trans shorter (Nat.le_of_succ_le within))).map
        fun (bs, rest) => (b :: bs, rest) := by
  rw [many, if_neg goesOn, read]
  exact dif_pos shorter

variable {xs : List α} {tokens : α → List Token} {result : α → β}

theorem avoids_row (stops : closing ∉ avoided) (starts : ∀ x ∈ xs, Avoids avoided (tokens x))
    (rest : List Token) : Avoids avoided (xs.flatMap tokens ++ .punctuator closing :: rest) := by
  induction xs with
  | nil => exact avoids_punctuator stops rest
  | cons x xs ih =>
      rw [List.flatMap_cons, List.append_assoc]
      exact (starts x (List.mem_cons_self ..)).append
        (ih fun y hy => starts y (List.mem_cons_of_mem x hy))

/-- Parts that are read one by one are read in a row. Where a part ends must not depend on more than
that neither the next part nor the closing token starts with a token that goes on with it. -/
theorem many_eq (stops : closing ∉ avoided)
    (starts : ∀ x ∈ xs, tokens x ≠ [] ∧ Avoids (closing :: avoided) (tokens x))
    (reads : ∀ x ∈ xs, ∀ rest within, Avoids avoided rest →
      part? (tokens x ++ rest) within = some (result x, rest))
    (rest : List Token) :
    ∀ ts within, ts = xs.flatMap tokens ++ .punctuator closing :: rest →
      many limit part? closing ts within = some (xs.map result, rest) := by
  induction xs with
  | nil =>
      rintro _ within rfl
      rw [List.flatMap_nil, List.nil_append] at within
      exact (many.eq_2 ..).trans (if_pos rfl)
  | cons x xs ih =>
      intro all within split
      have startsLater : ∀ y ∈ xs, tokens y ≠ [] ∧ Avoids (closing :: avoided) (tokens y) :=
        fun y hy => starts y (List.mem_cons_of_mem x hy)
      have next := avoids_row stops
        (fun y hy => (startsLater y hy).2.mono (List.subset_cons_self ..)) rest
      have first := reads x (List.mem_cons_self ..)
        (xs.flatMap tokens ++ .punctuator closing :: rest)
      obtain ⟨nonempty, avoids⟩ := starts x (List.mem_cons_self ..)
      cases e : tokens x with
      | nil => exact absurd e nonempty
      | cons t ts =>
          rw [e] at first avoids
          rw [List.flatMap_cons, e, List.append_assoc, List.cons_append] at split
          rw [List.cons_append] at first
          subst split
          have goesOn : t ≠ .punctuator closing :=
            fun h => avoids closing (List.mem_cons_self ..) (congrArg some h)
          have shorter : (xs.flatMap tokens ++ .punctuator closing :: rest).length ≤
              (ts ++ (xs.flatMap tokens ++ .punctuator closing :: rest)).length :=
            (List.sublist_append_right ts _).length_le
          rw [many_cons within goesOn (first within next) shorter,
            ih startsLater (fun y hy => reads y (List.mem_cons_of_mem x hy)) _ _ rfl]
          rfl

theorem nonempty?_eq {p? : List Token → Option (β × List Token)} (nonempty : xs ≠ [])
    (stops : closing ∉ avoided)
    (starts : ∀ x ∈ xs, tokens x ≠ [] ∧ Avoids (closing :: avoided) (tokens x))
    (reads : ∀ x ∈ xs, ∀ rest, Avoids avoided rest →
      p? (tokens x ++ rest) = some (result x, rest))
    (rest : List Token)
    (within : (xs.flatMap tokens ++ .punctuator closing :: rest).length ≤ limit) :
    nonempty? (many limit (fun ts _ => p? ts) closing
        (xs.flatMap tokens ++ .punctuator closing :: rest) within) =
      some (xs.map result, rest) := by
  rw [many_eq stops starts (fun x hx rest _ => reads x hx rest) rest _ within rfl]
  cases xs with
  | nil => exact absurd rfl nonempty
  | cons x xs => rfl

theorem avoids_parenthesized {cs : List Char} (h : '(' ∉ cs) :
    Avoids cs (parenthesized tokens xs) := by
  rw [parenthesized]
  split
  · exact nofun
  · exact avoids_punctuator h _

end Lists

section Values

variable {constant : Bool}

/-- The tokens are read as the value, whatever follows. -/
def ReadsAs (constant : Bool) (ts : List Token) (v : Value ObjectTree) : Prop :=
  ∀ rest, value? constant (ts ++ rest) = some (v, rest)

theorem ReadsAs.starts {v : Value ObjectTree} (h : ReadsAs constant ts v) :
    ts ≠ [] ∧ Avoids [']'] ts := by
  have alone := h []
  constructor
  · rintro rfl
    simp [value?] at alone
  · cases ts with
    | nil =>
        intro c _ e
        cases e
    | cons t ts =>
        refine avoids_cons ?_ ts
        rintro c hc rfl
        rw [List.mem_singleton.mp hc] at alone
        simp [value?, scalar?] at alone

theorem readsAs_list {xs : List α} {tokens : α → List Token} {result : α → Value ObjectTree}
    (h : ∀ x ∈ xs, ReadsAs constant (tokens x) (result x)) :
    ReadsAs constant (between '[' ']' (xs.flatMap tokens)) (.list (xs.map result)) := by
  intro rest
  rw [between, List.cons_append, List.append_assoc, List.singleton_append, value?,
    many_eq List.not_mem_nil (fun x hx => (h x hx).starts)
      (fun x hx rest _ _ => h x hx rest) rest _ _ rfl]
  rfl

theorem pair?_eq {limit : Nat} {e : Entry α} {tokens : α → List Token} {v : Value ObjectTree}
    (h : ReadsAs constant (tokens e.value) v) (rest : List Token)
    (within : (entryTokens tokens e ++ rest).length ≤ limit) :
    pair? limit (fun ts _ => value? constant ts) (entryTokens tokens e ++ rest) within =
      some (⟨e.name, v⟩, rest) := by
  show Option.map _ (value? constant (tokens e.value ++ rest)) = _
  rw [h rest]
  rfl

/-- The fields of an object, or arguments. -/
theorem entries_eq {closing : Char} {es : List (Entry α)} {tokens : α → List Token}
    {result : α → Value ObjectTree}
    (h : ∀ e ∈ es, ReadsAs constant (tokens e.value) (result e.value)) (rest : List Token)
    {limit : Nat}
    (within : (es.flatMap (entryTokens tokens) ++ .punctuator closing :: rest).length ≤ limit) :
    many limit (pair? limit fun ts _ => value? constant ts) closing
        (es.flatMap (entryTokens tokens) ++ .punctuator closing :: rest) within =
      some (es.map (Entry.map result), rest) := by
  refine many_eq List.not_mem_nil ?_ ?_ rest _ _ rfl
  · exact fun e _ => starts_of_name ⟨e.name, _, rfl⟩
  · intro e he rest within' _
    exact pair?_eq (h e he) rest within'

theorem readsAs_object {es : List (Entry α)} {tokens : α → List Token}
    {result : α → Value ObjectTree}
    (h : ∀ e ∈ es, ReadsAs constant (tokens e.value) (result e.value)) :
    ReadsAs constant (between '\x7b' '\x7d' (es.flatMap (entryTokens tokens)))
      (.object (.node (es.map (Entry.map result)))) := by
  intro rest
  rw [between, List.cons_append, List.append_assoc, List.singleton_append, value?,
    entries_eq h rest]
  rfl

theorem readsAs_scalar (constant : Bool) {t : Token} {v : Value ObjectTree}
    (h : scalar? t = some v) : ReadsAs constant [t] v := by
  intro rest
  have noPunctuator : ∀ c, t ≠ .punctuator c := by
    rintro c rfl
    cases h
  rw [List.singleton_append, value?, h, Option.map_some]
  · exact fun name ts e _ => noPunctuator '$' e
  · exact noPunctuator '['
  · exact noPunctuator '\x7b'

theorem readsAs_var (name : String) : ReadsAs false [.punctuator '$', .name name] (.var name) := by
  intro rest
  rw [List.cons_append, List.singleton_append, value?, if_neg Bool.false_ne_true]

theorem valueOfName_enumerator {name : String}
    (h : name ≠ "null" ∧ name ≠ "true" ∧ name ≠ "false") :
    valueOfName name = .enumerator name := by
  rw [valueOfName, if_neg h.1, if_neg h.2.1, if_neg h.2.2]

/-- Values are read as what they are, but for lists that hold one kind of thing only. -/
theorem readsAs_value {v : Value Ref} (form : IsValue constant v) {objects : Ref → List Token}
    {trees : Ref → ObjectTree}
    (h : ∀ r ∈ v.refs, ReadsAs constant (objects r) (.object (trees r))) :
    ReadsAs constant (valueTokens (v.map objects)) (v.map trees).plain := by
  induction v using Value.induct with
  | null | int text | float text | string text => exact readsAs_scalar constant rfl
  | bool b =>
      cases b with
      | true | false => exact readsAs_scalar constant rfl
  | enumerator name =>
      exact readsAs_scalar constant (congrArg some (valueOfName_enumerator form.2))
  | var name =>
      obtain ⟨rfl, -⟩ := form
      exact readsAs_var name
  | bytes content =>
      have row := readsAs_list fun (b : UInt8) (_ : b ∈ content) =>
        readsAs_scalar constant (t := .int (Nat.repr b.toNat)) rfl
      rw [← List.map_eq_flatMap] at row
      exact row
  | list items ih =>
      have row := readsAs_list fun v hv => ih v hv (isValue_list.mp form v hv) fun r hr =>
        h r (by rw [Value.refs_list]; exact List.mem_flatMap_of_mem hv hr)
      rw [Value.map_list, Value.map_list, valueTokens, itemTokens_eq, Value.plain,
        Value.plainItems_eq, List.map_map, List.flatMap_map]
      exact row
  | objects refs =>
      have row := readsAs_list h
      rw [List.flatMap_def] at row
      rw [Value.map, Value.map, valueTokens, Value.plain, List.map_map]
      exact row
  | object ref => exact h ref (List.mem_singleton_self ref)

end Values

section Nodes

variable {tokens : V → List Token} {result : V → Value ObjectTree} {good : V → Prop}
  (values : ∀ v, good v → ReadsAs false (tokens v) (result v))

include values in
theorem arguments?_eq {as : List (Entry V)} (form : ∀ e ∈ as, IsEntry good e)
    (next : Avoids ['('] rest) :
    arguments? (parenthesized (entryTokens tokens) as ++ rest) =
      some (as.map (Entry.map result), rest) := by
  by_cases empty : as = []
  · rw [parenthesized, if_pos empty, empty, List.nil_append, arguments?]
    · rfl
    · rintro ts rfl
      exact next '(' (by simp) rfl
  · rw [parenthesized, if_neg empty, between, List.cons_append, List.append_assoc,
      List.singleton_append, arguments?]
    refine nonempty?_eq empty List.not_mem_nil ?_ ?_ rest _
    · exact fun e _ => starts_of_name ⟨e.name, _, rfl⟩
    · intro e he rest _
      exact pair?_eq (values e.value (form e he).value) rest _

theorem fieldHead?_eq (f : Field V) (next : Avoids [':'] ts) :
    fieldHead? (headTokens f ++ ts) =
      (arguments? ts).map fun (as, rest) =>
        ({ aliasName := f.aliasName, name := f.name, arguments := as }, rest) := by
  rw [headTokens]
  cases f.aliasName with
  | some aliasName => rfl
  | none =>
      rw [List.singleton_append, fieldHead?]
      rintro name rest rfl
      exact next ':' (List.mem_singleton_self _) rfl

include values in
theorem fieldHead?_arguments {f : Field V} (form : ∀ e ∈ f.arguments, IsEntry good e)
    (next : Avoids ['(', ':'] ts) :
    fieldHead? (headTokens f ++ (parenthesized (entryTokens tokens) f.arguments ++ ts)) =
      some ({ aliasName := f.aliasName, name := f.name,
              arguments := f.arguments.map (Entry.map result) }, ts) := by
  have noColon : Avoids [':'] (parenthesized (entryTokens tokens) f.arguments ++ ts) :=
    (avoids_parenthesized (by decide)).append (next.mono (by simp))
  rw [fieldHead?_eq f noColon, arguments?_eq values form (next.mono (by simp)), Option.map_some]

theorem field?_leaf {f : Field (Value ObjectTree)} (head : fieldHead? ts = some (f, rest))
    (next : Avoids ['\x7b'] rest) : field? ts = some (f, rest) := by
  rw [field?, head]
  split
  · rename_i brace
    cases brace
    exact absurd rfl (next '\x7b' (List.mem_singleton_self _))
  · rfl

theorem field?_inner {f : Field (Value ObjectTree)}
    (head : fieldHead? ts = some (f, .punctuator '\x7b' :: rest))
    (shorter : rest.length < ts.length) :
    field? ts =
      (nonempty? (many rest.length (fun ts' _ => field? ts') '\x7d' rest (Nat.le_refl _))).map
        fun (selections, rest) => ({ f with selections := selections }, rest) := by
  rw [field?, head]
  exact dif_pos shorter

theorem fieldTokens_cons (f : Field V) : ∃ name us, fieldTokens tokens f = .name name :: us := by
  rw [fieldTokens_eq, headTokens]
  cases f.aliasName with
  | some aliasName => exact ⟨aliasName, _, rfl⟩
  | none => exact ⟨f.name, _, rfl⟩

include values in
theorem field?_eq {f : Field V} (form : IsField good f) :
    ∀ rest, Avoids ['(', '\x7b', ':'] rest →
      field? (fieldTokens tokens f ++ rest) = some (f.map result, rest) := by
  induction f using Field.induct with
  | mk aliasName name arguments selections ih =>
      intro rest next
      obtain ⟨-, -, isArguments, isSelections⟩ := form
      rw [fieldTokens_eq, List.append_assoc, List.append_assoc, Field.map, Field.mapAll_eq]
      by_cases leaf : selections = []
      · rw [if_pos leaf, List.nil_append, leaf]
        exact field?_leaf (fieldHead?_arguments values isArguments (next.mono (by simp)))
          (next.mono (by simp))
      · rw [if_neg leaf, between, List.cons_append, List.append_assoc, List.singleton_append]
        have brace : Avoids ['(', ':'] (.punctuator '\x7b' ::
            (selections.flatMap (fieldTokens tokens) ++ .punctuator '\x7d' :: rest)) :=
          avoids_punctuator (by decide) _
        rw [field?_inner (fieldHead?_arguments values isArguments brace),
          nonempty?_eq leaf (by decide) (fun g _ => starts_of_name (fieldTokens_cons g))
            (fun g hg => ih g hg (isSelections g hg)) rest]
        · rfl
        · simp only [List.length_append, List.length_cons]
          omega

include values in
theorem selections?_eq {fields : List (Field V)} (nonempty : fields ≠ [])
    (form : ∀ f ∈ fields, IsField good f) (rest : List Token) :
    selections? (between '\x7b' '\x7d' (fields.flatMap (fieldTokens tokens)) ++ rest) =
      some (fields.map (Field.map result), rest) := by
  rw [between, List.cons_append, List.append_assoc, List.singleton_append, selections?]
  exact nonempty?_eq nonempty (by decide) (fun g _ => starts_of_name (fieldTokens_cons g))
    (fun g hg => field?_eq values (form g hg)) rest _

end Nodes

section Definitions

variable {tokens : V → List Token} {result : V → Value ObjectTree}

theorem required_eq (t : TypeRef) (next : Avoids ['!'] rest) : required t rest = (t, rest) := by
  rw [required]
  rintro ts rfl
  exact next '!' (List.mem_singleton_self _) rfl

/-- A type is read up to its end, and also with a mark behind it if it has none of its own. -/
theorem typeRef?_required {t : TypeRef} (form : IsType t) (rest : List Token) :
    (Avoids ['!'] rest → typeRef? (typeTokens t ++ rest) = some (t, rest)) ∧
      ((∀ u, t ≠ .nonNull u) → typeRef? (typeTokens t ++ rest) = some (required t rest)) := by
  induction t generalizing rest with
  | named name =>
      have read : typeRef? (typeTokens (.named name) ++ rest) =
          some (required (.named name) rest) := rfl
      exact ⟨fun next => by rw [read, required_eq _ next], fun _ => read⟩
  | list item ih =>
      have inner := (ih form (.punctuator ']' :: rest)).1 (avoids_punctuator (by decide) rest)
      have read : typeRef? (typeTokens (.list item) ++ rest) =
          some (required (.list item) rest) := by
        rw [typeTokens, between, List.cons_append, List.append_assoc, List.singleton_append,
          typeRef?, inner]
        rfl
      exact ⟨fun next => by rw [read, required_eq _ next], fun _ => read⟩
  | nonNull inner ih =>
      refine ⟨fun _ => ?_, fun h => absurd rfl (h inner)⟩
      have read := (ih form.1 (.punctuator '!' :: rest)).2 form.2
      rw [typeTokens, List.append_assoc, List.singleton_append, read]
      rfl

theorem typeRef?_eq {t : TypeRef} (form : IsType t) (next : Avoids ['!'] rest) :
    typeRef? (typeTokens t ++ rest) = some (t, rest) :=
  (typeRef?_required form rest).1 next

variable {good : V → Prop} (constants : ∀ v, good v → ReadsAs true (tokens v) (result v))

include constants in
theorem default?_eq {d : Option V} (form : ∀ v ∈ d, good v) (next : Avoids ['='] rest) :
    default? (defaultTokens tokens d ++ rest) = some (d.map result, rest) := by
  cases d with
  | none =>
      rw [defaultTokens, List.nil_append, default?]
      · rfl
      · rintro ts rfl
        exact next '=' (List.mem_singleton_self _) rfl
  | some v =>
      rw [defaultTokens, List.cons_append, default?, constants v (form v rfl) rest]
      rfl

theorem avoids_default {c : Char} (h : c ≠ '=') (d : Option V) :
    Avoids [c] (defaultTokens tokens d) := by
  cases d with
  | none => exact nofun
  | some v => exact avoids_punctuator (fun e => h (List.mem_singleton.mp e).symm) _

include constants in
theorem variableDefinition?_eq {d : VariableDefinition V} (form : IsVariableDefinition good d)
    (rest : List Token) (next : Avoids ['!', '='] rest) :
    variableDefinition? (definitionTokens tokens d ++ rest) = some (d.map result, rest) := by
  have noMark : Avoids ['!'] (defaultTokens tokens d.default ++ rest) :=
    (avoids_default (by decide) d.default).append (next.mono (by simp))
  have type := typeRef?_eq form.type noMark
  have default := default?_eq constants form.default (next.mono (by simp))
  rw [definitionTokens, List.cons_append, List.cons_append, List.cons_append, List.append_assoc,
    variableDefinition?, type]
  simp only [Option.bind_eq_bind, Option.bind_some, default]
  rfl

include constants in
theorem variableDefinitions?_eq {ds : List (VariableDefinition V)}
    (form : ∀ d ∈ ds, IsVariableDefinition good d) (next : Avoids ['('] rest) :
    variableDefinitions? (parenthesized (definitionTokens tokens) ds ++ rest) =
      some (ds.map (VariableDefinition.map result), rest) := by
  by_cases empty : ds = []
  · rw [parenthesized, if_pos empty, empty, List.nil_append, variableDefinitions?]
    · rfl
    · rintro ts rfl
      exact next '(' (List.mem_singleton_self _) rfl
  · rw [parenthesized, if_neg empty, between, List.cons_append, List.append_assoc,
      List.singleton_append, variableDefinitions?]
    have stops : ')' ∉ ['!', '='] := by decide
    refine nonempty?_eq empty stops ?_ ?_ rest _
    · exact fun d _ => ⟨List.cons_ne_nil _ _, avoids_punctuator (by decide) _⟩
    · exact fun d hd => variableDefinition?_eq constants (form d hd)

end Definitions

section Documents

variable {tokens : V → List Token} {result : V → Value ObjectTree} {good : Bool → V → Prop}
  (values : ∀ constant v, good constant v → ReadsAs constant (tokens v) (result v))

theorem operationKind?_keyword (kind : OperationKind) :
    operationKind? kind.keyword = some kind := by
  cases kind <;> rfl

/-- The name is taken as one, since no name starts what comes after it. -/
theorem operationName?_eq (name : Option String) (h : ∀ n us, ts ≠ .name n :: us) :
    operationName? (name.toList.map .name ++ ts) = (name, ts) := by
  cases name with
  | some name => rfl
  | none => exact operationName?.eq_2 ts h

include values in
theorem operation?_eq {op : Operation V} (form : IsOperation good op) (rest : List Token) :
    operation? (operationTokens tokens op ++ rest) = some (op.map result, rest) := by
  have selections := selections?_eq (values false) form.nonempty form.selections rest
  have brace : Avoids ['(']
      (between '\x7b' '\x7d' (op.selections.flatMap (fieldTokens tokens)) ++ rest) :=
    avoids_punctuator (by decide) _
  have definitions := variableDefinitions?_eq (values true) form.definitions brace
  have name := operationName?_eq op.name fun n us (e : parenthesized (definitionTokens tokens)
      op.definitions ++ (between '\x7b' '\x7d' (op.selections.flatMap (fieldTokens tokens)) ++
        rest) = .name n :: us) => by
    rw [parenthesized] at e
    split at e <;> cases e
  rw [operationTokens, List.cons_append, List.append_assoc, List.append_assoc, operation?,
    operationKind?_keyword]
  simp only [Option.bind_eq_bind, Option.bind_some, name, definitions, selections]
  rfl

theorem operations?_cons {t : Token} {op : Operation (Value ObjectTree)}
    (read : operation? (t :: ts) = some (op, rest)) (shorter : rest.length ≤ ts.length) :
    operations? (t :: ts) = (operations? rest).map (op :: ·) := by
  rw [operations?, read]
  exact if_pos shorter

include values in
theorem operations?_eq {ops : List (Operation V)} (form : ∀ op ∈ ops, IsOperation good op) :
    operations? (ops.flatMap (operationTokens tokens)) =
      some (ops.map (Operation.map result)) := by
  induction ops with
  | nil => rw [List.flatMap_nil, operations?, List.map_nil]
  | cons op ops ih =>
      have first := operation?_eq values (form op (List.mem_cons_self ..))
        (ops.flatMap (operationTokens tokens))
      rw [operationTokens, List.cons_append] at first
      rw [List.flatMap_cons, operationTokens, List.cons_append,
        operations?_cons first (List.sublist_append_right ..).length_le,
        ih fun o ho => form o (List.mem_cons_of_mem op ho)]
      rfl

include values in
/-- A text with the tokens of a document is read as that document. -/
theorem read_eq {d : Document V} {text : String} (form : IsDocument good d)
    (tokenized : tokens? text.toList = some (documentTokens tokens d)) :
    read text = some (d.map result) := by
  obtain ⟨ops⟩ := d
  have operations := operations?_eq values form.operations
  rw [read, tokenized, Option.bind_some, documentTokens, operations]
  cases ops with
  | nil => exact absurd rfl form.nonempty
  | cons op ops => rfl

end Documents

end QueryDoc.Grammar
