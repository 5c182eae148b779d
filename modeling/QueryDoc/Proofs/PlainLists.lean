import QueryDoc.Proofs.Agreement
import QueryDoc.Proofs.Frame
import QueryDoc.Proofs.Json.Number
import QueryDoc.Proofs.Replacing

/-!
Bytes, and lists that hold objects only, in the place of plain lists. They are written piece by
piece as plain lists of the same items are, and have the same JSON. So putting plain lists into
their places changes nothing that writing or conversion can see of a value, nor of the fields of an
object; and what they cannot tell apart anywhere has the same outcome everywhere, also where it
fails.
-/

namespace QueryDoc

theorem integerText_natCast (n : Nat) : integerText (n : Int) = Nat.repr n := by
  rw [integerText, if_neg (Int.not_lt.mpr (Int.natCast_nonneg n)), Int.natAbs_natCast]

namespace Value

variable {Ref : Type}

/-- The items of bytes as a plain list are the integers that a single byte is turned into. -/
theorem plain_bytes (content : List UInt8) :
    (bytes content : Value Ref).plain = .list (content.map fun b => .ofInt b.toNat) := by
  simp only [plain, ofInt, integerText_natCast]

end Value

namespace Layout

variable {Ref : Type}

theorem ofValue_plain (v : Value Ref) : ofValue v.plain = ofValue v := by
  induction v using Value.induct with
  | null | bool _ | int _ | float _ | string _ | enumerator _ | var _ | object _ => rfl
  | bytes content =>
      rw [Value.plain, ofValue, ofValue, ofItems_eq, List.map_map]
      rfl
  | list items ih =>
      rw [Value.plain, Value.plainItems_eq, ofValue, ofItems_eq, ofValue, ofItems_eq, List.map_map]
      exact congrArg (enclosed "[" "]") (List.map_congr_left ih)
  | objects os =>
      rw [Value.plain, ofValue, ofItems_eq, List.map_map]
      rfl

theorem replace_id (layout : Layout Ref) : replace id layout = layout := by
  induction layout with
  | nil => rfl
  | cons p layout ih => cases p <;> simp [ih]

theorem ofNode_plain (n : Node (Value Ref)) (level : Nat) :
    ofNode ofValue level (n.map Value.plain) = ofNode ofValue level n := by
  have values (v : Value Ref) : ofValue v.plain = replace id (ofValue v) := by
    rw [replace_id, ofValue_plain]
  rw [ofNode_map values, replace_id]

end Layout

namespace Value

variable {object : ObjectId → Except Failure Json} {bindings : Option Bindings}

theorem ofIntText_byte (b : UInt8) :
    Json.ofIntText (integerText (b.toNat : Int)) = .number (.ofByte b) :=
  Json.ofIntText_integerText _

theorem itemsJson_bytes (content : List UInt8) :
    itemsJson object bindings (content.map fun b => .ofInt b.toNat) =
      .ok (content.map fun b => .number (.ofByte b)) := by
  induction content with
  | nil => rfl
  | cons b content ih =>
      rw [List.map_cons, itemsJson, ih, ofInt, toJson, ofIntText_byte]
      rfl

theorem itemsJson_plain {items : List (Value ObjectId)}
    (h : ∀ v ∈ items, toJson object bindings v.plain = toJson object bindings v) :
    itemsJson object bindings (items.map plain) = itemsJson object bindings items := by
  induction items with
  | nil => rfl
  | cons v items ih =>
      rw [List.map_cons, itemsJson, itemsJson, h v (List.mem_cons_self ..),
        ih fun w hw => h w (List.mem_cons_of_mem v hw)]

theorem toJson_plain (v : Value ObjectId) :
    toJson object bindings v.plain = toJson object bindings v := by
  induction v using induct with
  | null | bool _ | int _ | float _ | string _ | enumerator _ | var _ | object _ => rfl
  | bytes content =>
      rw [plain_bytes, toJson, toJson, itemsJson_bytes]
      rfl
  | list items ih => rw [plain, plainItems_eq, toJson, toJson, itemsJson_plain ih]
  | objects os => rw [plain, toJson, Store.itemsJson_objects, toJson]

theorem entriesJson_plain (es : List (Entry (Value ObjectId))) :
    entriesJson object bindings (es.map (Entry.map plain)) = entriesJson object bindings es := by
  induction es with
  | nil => rfl
  | cons e es ih =>
      rw [List.map_cons, entriesJson, ih, Entry.map, toJson_plain]
      rfl

end Value

namespace Store

variable {s t : Store} {o : ObjectId}

/-- The store with plain lists in the fields of all its objects. -/
def plain (s : Store) : Store := ⟨s.objects.map (·.map (Entry.map Value.plain))⟩

theorem fields_plain (s : Store) (o : ObjectId) :
    s.plain.fields o = (s.fields o).map (Entry.map Value.plain) := by
  rw [fields, fields, plain, Array.getElem?_map]
  cases s.objects[o.index]? <;> rfl

theorem Alike.of_plain (h : t.fields o = (s.fields o).map (Entry.map Value.plain)) :
    s.Alike t o where
  names := by
    rw [h, Entry.names, List.map_map]
    rfl
  layout := by
    have entry (e : InputField) :
        Layout.ofEntry Layout.ofValue (e.map Value.plain) = Layout.ofEntry Layout.ofValue e := by
      rw [Layout.ofEntry, Entry.map, Layout.ofValue_plain, Layout.ofEntry]
    rw [objectLayout, objectLayout, h, Layout.ofFields, Layout.ofFields, List.map_map]
    exact congrArg _ (List.map_congr_left fun e _ => entry e)
  json object bindings := by rw [h, Value.entriesJson_plain]

theorem writeNode_plain (s : Store) (trail : Trail) (level : Nat) (n : Node (Value ObjectId))
    (b : Buffer) : s.writeNode trail level (n.map Value.plain) b = s.writeNode trail level n b := by
  rw [writeNode, writeNode, Layout.ofNode_plain]

theorem inputJson_plain (s : Store) (bindings : Option Bindings) (trail : Trail)
    (i : Input (Value ObjectId)) :
    s.inputJson bindings trail (i.map Value.plain) = s.inputJson bindings trail i := by
  cases i with
  | value v => exact Value.toJson_plain v
  | arguments es =>
      exact congrArg (Except.map Json.ofEntries) (Value.entriesJson_plain es)

/-- Plain lists in the place of all other sequences, in an input and in the objects that can be
reached from it, make no difference to writing and conversion: both have the same outcome, which is
that of the steps and rules too. -/
theorem sequences_behave_as_plain_lists (s t : Store) (i : Input (Value ObjectId))
    (below : ∀ o, s.NodeReaches i.node o →
      t.fields o = (s.fields o).map (Entry.map Value.plain)) :
    let plain := i.map Value.plain
    (∀ level trail b,
      t.writeNode trail level plain.node b = s.writeNode trail level i.node b ∧
        ∃ v w e, Writer.Ends s (.start (Layout.ofNode Layout.ofValue level i.node) trail b) v e ∧
          Writer.Ends t (.start (Layout.ofNode Layout.ofValue level plain.node) trail b) w e ∧
          w.buffer = v.buffer ∧ w.entered = v.entered) ∧
      (∀ bindings trail,
        t.nodeJson? bindings trail plain.node = s.nodeJson? bindings trail i.node ∧
          ∃ after r, s.ConvertsInput bindings trail i after r ∧
            t.ConvertsInput bindings trail plain after r) ∧
      t.print plain.node = s.print i.node ∧
      ∀ content : List UInt8, (Value.bytes content : Value ObjectId).plain =
        .list (content.map fun b => .ofInt b.toNat) := by
  intro plain
  have node : plain.node = i.node.map Value.plain := by cases i <;> rfl
  have same : s.SameOutcomes t i.node := sameOutcomes_of_alike fun o ho => .of_plain (below o ho)
  have written (trail : Trail) (level : Nat) (b : Buffer) :
      t.writeNode trail level plain.node b = s.writeNode trail level i.node b := by
    rw [node, writeNode_plain, same.written]
  have converted (bindings : Option Bindings) (trail : Trail) :
      t.inputJson bindings trail plain = s.inputJson bindings trail i := by
    have json := same.converted bindings trail
    rw [nodeJson_node, nodeJson_node, Option.some.injEq] at json
    rw [inputJson_plain, json]
  refine ⟨fun level trail b => ⟨written trail level b, ?_⟩, fun bindings trail => ⟨?_, ?_⟩, ?_,
    Value.plain_bytes⟩
  · obtain ⟨v, ends, buffer, entered⟩ :=
      Writer.ends_write s trail (Layout.ofNode Layout.ofValue level i.node) b
    obtain ⟨w, ends', buffer', entered'⟩ :=
      Writer.ends_write t trail (Layout.ofNode Layout.ofValue level plain.node) b
    rw [← writeNode] at buffer entered
    rw [← writeNode, written] at ends' buffer' entered'
    exact ⟨v, w, _, ends, ends', buffer'.trans buffer.symm, entered'.trans entered.symm⟩
  · rw [nodeJson_node, nodeJson_node, converted]
  · have rules := convertsInput t bindings trail plain
    rw [converted] at rules
    exact ⟨_, _, convertsInput s bindings trail i, rules⟩
  · rw [print, print, written]

section Loop

/-- Bytes in an object that is also in a list of objects inside itself. -/
def iconLoop : Store :=
  ⟨#[[⟨"icon", .bytes [0, 255]⟩, ⟨"parts", .objects [⟨1⟩]⟩],
    [⟨"whole", .list [.objects [], .objects [⟨0⟩]]⟩]]⟩

theorem iconLoop_behaves_as_plain :
    let i : Input (Value ObjectId) := .value (.objects [⟨0⟩])
    let plain : Input (Value ObjectId) := .value (.list [.object ⟨0⟩])
    (∀ o, iconLoop.NodeReaches i.node o →
      iconLoop.plain.fields o = (iconLoop.fields o).map (Entry.map Value.plain)) ∧
      (∀ bindings trail, iconLoop.plain.nodeJson? bindings trail plain.node =
        iconLoop.nodeJson? bindings trail i.node) ∧
      iconLoop.plain.print plain.node = .error (.cyclicReference ["icon", "parts"]) := by
  intro i plain
  have below (o : ObjectId) (_ : iconLoop.NodeReaches i.node o) := fields_plain iconLoop o
  obtain ⟨-, converted, printed, -⟩ :=
    sequences_behave_as_plain_lists iconLoop iconLoop.plain i below
  refine ⟨below, fun bindings trail => (converted bindings trail).1, printed.trans ?_⟩
  have loop : iconLoop.visitAll [] [⟨0⟩] =
      some ⟨.cyclicReference ["icon", "parts"], [⟨1⟩, ⟨0⟩]⟩ := by decide +kernel
  rw [print_eq, show i.node.refs = [⟨0⟩] from rfl, loop]

end Loop

end Store

end QueryDoc
