import Dataflow.Proofs.Json.Layouts
import Dataflow.Standard.Compute

/-!
# Values and their texts

A value without numbers is read back from each of its texts.

* `Value.NumberFree` says that there is no number in a value, `Value.nesting` counts the containers that are nested;
* `Value.ofJson_toJson`, `Value.exact_toJson`: the tree of a value stands for it, and is one that is read back;
* `Value.read_text`, `Value.read_prettyText`: so the value is read back from both texts;
* `Value.convert_string`: so it is after it was converted to a string;
* `Value.json_undone`: all of this together, also for the nodes that write and read JSON.
-/

namespace Dataflow

open Text

namespace Value

/-! ### The tree of a value -/

mutual
/-- There is no number in a value. Integers are none. -/
def NumberFree : Value → Prop
  | number _ => False
  | array items => ItemsNumberFree items
  | object fields => FieldsNumberFree fields
  | _ => True
termination_by structural v => v

/-- `NumberFree` for every value of a list. -/
def ItemsNumberFree : List Value → Prop
  | [] => True
  | v :: vs => NumberFree v ∧ ItemsNumberFree vs
termination_by structural vs => vs

/-- `NumberFree` for the value of every field. -/
def FieldsNumberFree : List (String × Value) → Prop
  | [] => True
  | (_, v) :: vs => NumberFree v ∧ FieldsNumberFree vs
termination_by structural vs => vs
end

mutual
/-- How many containers are nested in a value. -/
def nesting : Value → Nat
  | array items => itemsNesting items + 1
  | object fields => fieldsNesting fields + 1
  | _ => 0
termination_by structural v => v

/-- The greatest nesting of the values of a list. -/
def itemsNesting : List Value → Nat
  | [] => 0
  | v :: vs => max (nesting v) (itemsNesting vs)
termination_by structural vs => vs

/-- The greatest nesting of the values of fields. -/
def fieldsNesting : List (String × Value) → Nat
  | [] => 0
  | (_, v) :: vs => max (nesting v) (fieldsNesting vs)
termination_by structural vs => vs
end

mutual
@[simp] theorem depth_toJson (v : Value) : v.toJson.depth = v.nesting := by
  cases v with
  | array items => rw [toJson, Json.depth, nesting, itemsDepth_itemsToJson]
  | object fields => rw [toJson, Json.depth, nesting, membersDepth_fieldsToJson]
  | _ => rfl
termination_by structural v

theorem itemsDepth_itemsToJson (vs : List Value) : Json.itemsDepth (itemsToJson vs) = itemsNesting vs := by
  cases vs with
  | nil => rfl
  | cons v vs => rw [itemsToJson, Json.itemsDepth, itemsNesting, depth_toJson v, itemsDepth_itemsToJson vs]
termination_by structural vs

theorem membersDepth_fieldsToJson (vs : List (String × Value)) :
    Json.membersDepth (fieldsToJson vs) = fieldsNesting vs := by
  cases vs with
  | nil => rfl
  | cons field vs =>
    obtain ⟨key, v⟩ := field
    rw [fieldsToJson, Json.membersDepth, fieldsNesting, depth_toJson v, membersDepth_fieldsToJson vs]
termination_by structural vs
end

theorem integerInRange_iff {i : Int} : integerInRange i = true ↔ -2 ^ 63 ≤ i ∧ i < 2 ^ 63 := by
  rw [integerInRange, Bool.and_eq_true, decide_eq_true_eq, decide_eq_true_eq]
  exact and_congr_right fun _ => Int.le_sub_one_iff

mutual
/-- The tree of a value without numbers has none either. -/
theorem exact_toJson (v : Value) (hv : v.IsOrdered) (hfree : v.NumberFree) : v.toJson.Exact := by
  cases v with
  | integer i =>
    obtain ⟨hmin, hmax⟩ := integerInRange_iff.1 hv
    exact ⟨hmin, hmax.trans (by decide)⟩
  | number x => exact absurd hfree id
  | array items => exact itemsExact_itemsToJson items hv hfree
  | object fields => exact membersExact_fieldsToJson fields hv.2 hfree
  | _ => trivial
termination_by structural v

theorem itemsExact_itemsToJson (vs : List Value) (hvs : ItemsOrdered vs) (hfree : ItemsNumberFree vs) :
    Json.ItemsExact (itemsToJson vs) := by
  cases vs with
  | nil => trivial
  | cons v vs => exact ⟨exact_toJson v hvs.1 hfree.1, itemsExact_itemsToJson vs hvs.2 hfree.2⟩
termination_by structural vs

theorem membersExact_fieldsToJson (vs : List (String × Value)) (hvs : FieldsOrdered vs) (hfree : FieldsNumberFree vs) :
    Json.MembersExact (fieldsToJson vs) := by
  cases vs with
  | nil => trivial
  | cons field vs => exact ⟨exact_toJson field.2 hvs.1 hfree.1, membersExact_fieldsToJson vs hvs.2 hfree.2⟩
termination_by structural vs
end

mutual
/-- The tree of a value stands for it. -/
theorem ofJson_toJson (v : Value) (hv : v.IsOrdered) : ofJson v.toJson = .ok v := by
  cases v with
  | integer i =>
    have hrange : integerInRange i = true := hv
    rw [toJson, ofJson, if_pos hrange]
  | array items =>
    rw [toJson, ofJson, itemsOfJson_itemsToJson items hv]
    rfl
  | object fields =>
    rw [toJson, ofJson, fieldsOfJson_fieldsToJson fields hv.2]
    exact congrArg (fun fields => Except.ok (object fields)) (Keyed.ofList_of_ascending hv.1)
  | _ => rfl
termination_by structural v

theorem itemsOfJson_itemsToJson (vs : List Value) (hvs : ItemsOrdered vs) : itemsOfJson (itemsToJson vs) = .ok vs := by
  cases vs with
  | nil => rfl
  | cons v vs =>
    rw [itemsToJson, itemsOfJson, ofJson_toJson v hvs.1, itemsOfJson_itemsToJson vs hvs.2]
    rfl
termination_by structural vs

theorem fieldsOfJson_fieldsToJson (vs : List (String × Value)) (hvs : FieldsOrdered vs) :
    fieldsOfJson (fieldsToJson vs) = .ok vs := by
  cases vs with
  | nil => rfl
  | cons field vs =>
    obtain ⟨key, v⟩ := field
    rw [fieldsToJson, fieldsOfJson, ofJson_toJson v hvs.1, fieldsOfJson_fieldsToJson vs hvs.2]
    rfl
termination_by structural vs
end

end Value

/-- What a tree stands for is read from its text. -/
theorem Json.decode_ofList {α : Type} {decoder : Json → Except Fault α} {text : List Char} {j : Json} {a : α}
    (hread : Json.read text = .ok j) (hdecode : decoder j = .ok a) : Json.decode decoder (String.ofList text) = .ok a := by
  rw [decode, String.toList_ofList, hread]
  change (decoder j).mapError _ = _
  rw [hdecode]
  rfl

namespace Value

/-! ### The texts of a value -/

section Texts

variable {v : Value}

/-- **A value is read back from its compact text.** -/
theorem read_text (hv : v.IsOrdered) (hfree : v.NumberFree) (hnest : v.nesting ≤ Json.maxDepth) : read v.text = .ok v :=
  Json.decode_ofList (Json.read_compact (exact_toJson v hv hfree) (by rwa [depth_toJson])) (ofJson_toJson v hv)

/-- **A value is read back from its pretty text.** -/
theorem read_prettyText (hv : v.IsOrdered) (hfree : v.NumberFree) (hnest : v.nesting ≤ Json.maxDepth) :
    read v.prettyText = .ok v :=
  Json.decode_ofList (Json.read_pretty (exact_toJson v hv hfree) (by rwa [depth_toJson])) (ofJson_toJson v hv)

end Texts

/-! ### Values as strings -/

theorem trim_of_not_blank {text : List Char} (h : ∀ c ∈ text, isBlank c = false) : trim text = text := by
  have hdrop : ∀ text : List Char, (∀ c ∈ text, isBlank c = false) → text.dropWhile isBlank = text := by
    intro text h
    cases text with
    | nil => rfl
    | cons c text => exact List.dropWhile_cons_of_neg (by simp [h c List.mem_cons_self])
  rw [trim, hdrop text h, hdrop text.reverse fun c hc => h c (List.mem_reverse.1 hc), List.reverse_reverse]

theorem isBlank_of_isDigit {c : Char} (hc : isDigit c = true) : isBlank c = false := by
  have hrange : 48 ≤ c.toNat ∧ c.toNat ≤ 57 := by
    simpa [isDigit, Char.le_def, UInt32.le_iff_toNat_le] using hc
  simp only [isBlank, inRanges, blankRanges, List.any_cons, List.any_nil, Bool.or_false, Bool.or_eq_false_iff,
    Bool.and_eq_false_iff, decide_eq_false_iff_not]
  omega

theorem isBlank_of_mem_signed {i : Int} {c : Char} (hc : c ∈ signed i) : isBlank c = false := by
  cases i with
  | ofNat n => exact isBlank_of_isDigit (isDigit_of_mem_decimal hc)
  | negSucc n =>
    rcases List.mem_cons.1 hc with rfl | hc
    · decide
    · exact isBlank_of_isDigit (isDigit_of_mem_decimal hc)

theorem integer?_signed (i : Int) : integer? (signed i) = some i := by
  cases i with
  | ofNat n =>
    have hsign : readSign (decimal n) = (false, decimal n) := by
      unfold readSign
      split
      · rename_i heq
        have hplus : isDigit '+' = true := isDigit_of_mem_decimal (heq ▸ List.mem_cons_self)
        exact absurd hplus (by decide)
      · rename_i heq
        have hminus : isDigit '-' = true := isDigit_of_mem_decimal (heq ▸ List.mem_cons_self)
        exact absurd hminus (by decide)
      · rfl
    rw [signed, integer?, hsign]
    simp only [digits?_decimal]
    rfl
  | negSucc n =>
    rw [signed, integer?, readSign]
    simp only [digits?_decimal]
    rfl

/-- **A value that was converted to a string is converted back**, to its own type. -/
theorem convert_string {v : Value} (hv : v.IsOrdered) (hfree : v.NumberFree) (hnest : v.nesting ≤ Json.maxDepth)
    (hnull : v ≠ .null) : ∃ s, v.convert .string = .ok (.string s) ∧ (Value.string s).convert v.dataType = .ok v := by
  cases v with
  | null => exact absurd rfl hnull
  | boolean b =>
    refine ⟨_, rfl, ?_⟩
    cases b <;> decide
  | integer i =>
    refine ⟨_, rfl, ?_⟩
    change textToInteger (String.ofList (signed i)) = _
    have htrim : trim (signed i) = signed i := trim_of_not_blank fun _ => isBlank_of_mem_signed
    have hrange : integerInRange i = true := hv
    have hinteger : (integer? (signed i)).filter integerInRange = some i := by
      rw [integer?_signed, Option.filter_some, if_pos hrange]
    simp only [textToInteger, String.toList_ofList, htrim, hinteger]
  | number x => exact absurd hfree id
  | string s => exact ⟨s, rfl, rfl⟩
  | array items =>
    have hread := read_text hv hfree hnest
    refine ⟨_, rfl, ?_⟩
    change textToContainer (Value.array items).text .array = _
    rw [textToContainer, hread]
    rfl
  | object fields =>
    have hread := read_text hv hfree hnest
    refine ⟨_, rfl, ?_⟩
    change textToContainer (Value.object fields).text .object = _
    rw [textToContainer, hread]
    rfl

/-! ### The nodes that write and read JSON -/

open Standard

/-- The node that reads JSON answers what the text stands for. -/
theorem activate_jsonParse {v : Value} {s : String} (h : read s = .ok v) {a : Activation}
    (hinput : Keyed.find? "json" a.inputs = some (.string s)) (m : Memory) :
    jsonParseBehavior.activate a m = .done (.single "parsed" v) := by
  have hlookup : NamedValues.require "json" a.inputs = .ok (.string s) := by
    rw [NamedValues.require, NamedValues.lookup, hinput]
    rfl
  have hparse : parseInput a.inputs = .ok (.single "parsed" v) := by
    simp only [parseInput, hlookup, bind, Except.bind, asString?, h]
    rfl
  exact congrArg Script.finish hparse

/-- The node that writes JSON answers the text of its input. -/
theorem activate_jsonStringify (pretty : Bool) {v : Value} {a : Activation} (hinput : Keyed.find? "value" a.inputs = some v)
    (m : Memory) : (jsonStringifyBehavior pretty).activate a m =
      .done (.single "json" (.string (if pretty then v.prettyText else v.text))) := by
  have hlookup : (NamedValues.lookup "value" a.inputs).getD .null = v := by
    rw [NamedValues.lookup, hinput]
    cases v <;> rfl
  simp only [jsonStringifyBehavior, hlookup]

/-- **JSON undoes itself for values.** A value without numbers that nests at most 127 containers is read back from both of
its texts, as they are written by the node that writes JSON; and unless it is `null`, it is converted to a string and back
to its own type. -/
theorem json_undone {v : Value} (hv : v.IsOrdered) (hfree : v.NumberFree) (hnest : v.nesting ≤ 127) :
    (∀ s ∈ [v.text, v.prettyText], read s = .ok v ∧ ∀ (a : Activation) (m : Memory),
        Keyed.find? "json" a.inputs = some (.string s) → jsonParseBehavior.activate a m = .done (.single "parsed" v)) ∧
      (∀ (pretty : Bool) (a : Activation) (m : Memory), Keyed.find? "value" a.inputs = some v →
        (jsonStringifyBehavior pretty).activate a m =
          .done (.single "json" (.string (if pretty then v.prettyText else v.text)))) ∧
      (v ≠ .null → ∃ s, v.convert .string = .ok (.string s) ∧ (Value.string s).convert v.dataType = .ok v) := by
  refine ⟨fun s hs => ?_, fun pretty a m hinput => activate_jsonStringify pretty hinput m, convert_string hv hfree hnest⟩
  have hread : read s = .ok v := by
    rcases List.mem_pair.1 hs with rfl | rfl
    · exact read_text hv hfree hnest
    · exact read_prettyText hv hfree hnest
  exact ⟨hread, fun a m hinput => activate_jsonParse hread hinput m⟩

/-- A value with a key and a string of characters that have to be escaped, with empty containers and with the least and
the greatest integer. -/
def motley : Value :=
  .object
    [("", .array []), ("\x00\x1f\"\\/\n", .array [.integer minInteger, .null, .object [], .string "\x07\u007f\u2028😀"]),
     ("k", .object [("é", .integer maxInteger), ("😀", .boolean false)])]

theorem motley_undone : motley.IsOrdered ∧ motley.NumberFree ∧ motley.nesting ≤ 127 ∧
    read motley.text = .ok motley ∧ read motley.prettyText = .ok motley ∧
    ∃ s, motley.convert .string = .ok (.string s) ∧ (Value.string s).convert .object = .ok motley := by
  have hv : motley.IsOrdered := by
    simp only [motley, IsOrdered, ItemsOrdered, FieldsOrdered, and_true, true_and, Keyed.Ascending, Keyed.keys]
    decide
  have hfree : motley.NumberFree := by
    simp [motley, NumberFree, ItemsNumberFree, FieldsNumberFree]
  have hnest : motley.nesting ≤ 127 := by decide
  obtain ⟨htexts, -, hconvert⟩ := json_undone hv hfree hnest
  exact ⟨hv, hfree, hnest, (htexts _ List.mem_cons_self).1, (htexts _ (List.mem_cons_of_mem _ List.mem_cons_self)).1,
    hconvert fun h => Value.noConfusion h⟩

end Value

end Dataflow
