import Dataflow.Port.Write
import Dataflow.Proofs.Basic
import Mathlib.Data.List.Sort

/-!
# The elements of a value and their keys

* `Value.elements` lists the elements of an array or object under their keys; an array has the keys
  `0, …, n - 1` in decimal digits;
* `Port.indexKey_injective` and `Port.index?_indexKey`: the keys of an array are told apart and read back;
* `Port.find?_elements_foldedItems`: folding element ports with the keys of an array gives the array in
  which each of them stands under its own key.
-/

namespace Dataflow

open Keyed

/-- The items of an array from an index on, under their keys. -/
def Value.numbered : Nat → List Value → List (String × Value)
  | _, [] => []
  | index, v :: vs => (Port.indexKey index, v) :: numbered (index + 1) vs

/-- The elements of a value under their keys. -/
def Value.elements : Value → List (String × Value)
  | .array items => numbered 0 items
  | .object fields => fields
  | _ => []

@[simp] theorem Value.elements_null : Value.null.elements = [] := rfl

theorem Text.isDigit_of_mem_decimal {n : Nat} {c : Char} (hc : c ∈ Text.decimal n) : Text.isDigit c = true := by
  have h : c.isDigit = true := Nat.isDigit_of_mem_toDigits (by decide) (by decide) hc
  simpa [Text.isDigit, Char.isDigit, Char.le_def] using h

@[simp] theorem Text.digitsValue_decimal (n : Nat) : Text.digitsValue (Text.decimal n) = n :=
  Nat.ofDigitChars_ten_toDigits

theorem Text.digits?_decimal (n : Nat) : Text.digits? (Text.decimal n) = some n := by
  have hne : (Text.decimal n).isEmpty = false := by
    simp [Text.decimal, Nat.toDigits_ne_nil]
  have hall : (Text.decimal n).all Text.isDigit = true := List.all_eq_true.2 fun _ => Text.isDigit_of_mem_decimal
  rw [Text.digits?, hne, hall, Text.digitsValue_decimal]
  rfl

theorem Text.natural?_decimal (n : Nat) : Text.natural? (Text.decimal n) = some n := by
  unfold Text.natural?
  split
  · rename_i rest heq
    have hplus : Text.isDigit '+' = true := Text.isDigit_of_mem_decimal (heq ▸ List.mem_cons_self)
    exact absurd hplus (by decide)
  · exact Text.digits?_decimal n

namespace Port

theorem natural?_indexKey (i : Nat) : Text.natural? (indexKey i).toList = some i := by
  rw [indexKey, String.toList_ofList, Text.natural?_decimal]

theorem indexKey_injective : Function.Injective indexKey := by
  intro i j h
  have hi := natural?_indexKey i
  rw [h, natural?_indexKey] at hi
  exact (Option.some.inj hi).symm

theorem index?_indexKey {count i : Nat} (h : i < count) : index? count (indexKey i) = some i := by
  rw [index?, natural?_indexKey, Option.filter_some, if_pos]
  exact decide_eq_true (lt_max_of_lt_right h)

/-- The keys of a list of element ports are those of an array. -/
def Numbered (es : List (String × Port)) : Prop :=
  ∀ key, key ∈ keys es ↔ ∃ i < es.length, indexKey i = key

end Port

/-- The item under a key of an array. -/
theorem Value.find?_numbered (items : List Value) (start i : Nat) :
    find? (Port.indexKey (start + i)) (numbered start items) = items[i]? := by
  induction items generalizing start i with
  | nil => rfl
  | cons v vs ih =>
    cases i with
    | zero => simp [numbered]
    | succ i =>
      have hne : Port.indexKey start ≠ Port.indexKey (start + (i + 1)) := fun e =>
        absurd (Port.indexKey_injective e) (by omega)
      rw [numbered, find?_cons, if_neg hne, show start + (i + 1) = start + 1 + i by omega, ih]
      rfl

theorem Value.mem_keys_numbered {items : List Value} {start : Nat} {key : String} :
    key ∈ keys (numbered start items) ↔ ∃ i < items.length, Port.indexKey (start + i) = key := by
  induction items generalizing start with
  | nil => simp [numbered]
  | cons v vs ih =>
    rw [numbered, keys_cons, List.mem_cons, ih]
    constructor
    · rintro (rfl | ⟨i, hi, rfl⟩)
      · exact ⟨0, by simp, by simp⟩
      · exact ⟨i + 1, by simpa using hi, by congr 1; omega⟩
    · rintro ⟨i, hi, rfl⟩
      cases i with
      | zero => exact Or.inl (by simp)
      | succ i => exact Or.inr ⟨i, by simpa using hi, by congr 1; omega⟩

theorem Value.length_numbered (items : List Value) (start : Nat) :
    (numbered start items).length = items.length := by
  induction items generalizing start with
  | nil => rfl
  | cons v vs ih => simp [numbered, ih]

namespace Port

/-! ### Folding element ports into an array -/

theorem mem_insertIndexed {entry other : Nat × Value} {list : List (Nat × Value)} :
    other ∈ insertIndexed entry list ↔ other = entry ∨ other ∈ list := by
  induction list with
  | nil => simp [insertIndexed]
  | cons first rest ih =>
    unfold insertIndexed
    split_ifs
    · exact List.mem_cons
    · rw [List.mem_cons, ih, List.mem_cons]; tauto

theorem pairwise_insertIndexed {entry : Nat × Value} {list : List (Nat × Value)}
    (h : list.Pairwise (·.1 < ·.1)) (hne : ∀ other ∈ list, other.1 ≠ entry.1) :
    (insertIndexed entry list).Pairwise (·.1 < ·.1) := by
  induction list with
  | nil => simp [insertIndexed]
  | cons first rest ih =>
    obtain ⟨hf, hr⟩ := List.pairwise_cons.1 h
    have hfne := hne first List.mem_cons_self
    unfold insertIndexed
    split_ifs with hle
    · refine List.pairwise_cons.2 ⟨fun other ho => ?_, h⟩
      rcases List.mem_cons.1 ho with rfl | ho
      · omega
      · have := hf other ho; omega
    · refine List.pairwise_cons.2 ⟨fun other ho => ?_, ih hr fun other ho =>
        hne other (List.mem_cons_of_mem _ ho)⟩
      rcases mem_insertIndexed.1 ho with rfl | ho
      · omega
      · exact hf other ho

theorem mem_foldr_insertIndexed {other : Nat × Value} {list : List (Nat × Value)} :
    other ∈ list.foldr insertIndexed [] ↔ other ∈ list := by
  induction list with
  | nil => simp
  | cons entry rest ih => rw [List.foldr_cons, mem_insertIndexed, ih, List.mem_cons]

theorem pairwise_foldr_insertIndexed {list : List (Nat × Value)} (h : (list.map Prod.fst).Nodup) :
    (list.foldr insertIndexed []).Pairwise (·.1 < ·.1) := by
  induction list with
  | nil => simp
  | cons entry rest ih =>
    obtain ⟨he, hr⟩ := List.nodup_cons.1 h
    refine pairwise_insertIndexed (ih hr) fun other ho heq => he ?_
    exact List.mem_map.2 ⟨other, mem_foldr_insertIndexed.1 ho, heq⟩

/-- The value of the element port with an index. -/
def itemAt (es : List (String × Port)) (i : Nat) : Value :=
  ((Keyed.find? (indexKey i) es).map Port.data).getD .null

theorem Numbered.index? {es : List (String × Port)} (hk : Numbered es) {key : String} {i : Nat}
    (hm : key ∈ keys es) : index? es.length key = some i ↔ key = indexKey i ∧ i < es.length := by
  obtain ⟨j, hj, rfl⟩ := (hk key).1 hm
  rw [index?_indexKey hj, Option.some.injEq, indexKey_injective.eq_iff]
  exact ⟨fun h => ⟨h, h ▸ hj⟩, fun h => h.1⟩

/-- Folding puts the value of every element port in the place of its index. -/
theorem foldedItems_eq {es : List (String × Port)} (hn : (keys es).Nodup) (hk : Numbered es) :
    foldedItems es = (List.range es.length).map (itemAt es) := by
  set entries := es.filterMap fun entry =>
    (Port.index? es.length entry.1).map fun index => (index, entry.2.data) with hentries
  have hmem : ∀ i v, (i, v) ∈ entries ↔
      (i, v) ∈ (List.range es.length).map fun i => (i, itemAt es i) := by
    intro i v
    simp only [hentries, List.mem_filterMap, List.mem_map, List.mem_range, Prod.exists, Prod.mk.injEq,
      Option.map_eq_some_iff]
    constructor
    · rintro ⟨key, p, hp, j, hj, rfl, rfl⟩
      obtain ⟨rfl, hlt⟩ := (hk.index? (mem_keys_of_mem hp)).1 hj
      exact ⟨j, hlt, rfl, by simp [itemAt, find?_of_mem hn hp]⟩
    · rintro ⟨j, hlt, rfl, rfl⟩
      obtain ⟨⟨key, p⟩, hp, hkey⟩ := List.mem_map.1 ((hk (indexKey j)).2 ⟨j, hlt, rfl⟩)
      obtain rfl : key = indexKey j := hkey
      exact ⟨_, p, hp, j, index?_indexKey hlt, rfl, by simp [itemAt, find?_of_mem hn hp]⟩
  have hnodup : (entries.map Prod.fst).Nodup := by
    rw [hentries, List.map_filterMap]
    refine List.pairwise_filterMap.2 (List.Pairwise.imp_of_mem ?_ (List.pairwise_map.1 hn))
    intro a b ha hb hne i hi j hj hij
    simp only [Option.map_map, Option.map_eq_some_iff, Function.comp] at hi hj
    obtain ⟨i', hi', rfl⟩ := hi
    obtain ⟨j', hj', rfl⟩ := hj
    have hka := ((hk.index? (mem_keys_of_mem ha)).1 hi').1
    have hkb := ((hk.index? (mem_keys_of_mem hb)).1 hj').1
    exact hne (by rw [hka, hkb, hij])
  have hsorted : ((List.range es.length).map fun i => (i, itemAt es i)).Pairwise (·.1 < ·.1) :=
    List.pairwise_map.2 List.pairwise_lt_range
  have heq : entries.foldr insertIndexed [] = (List.range es.length).map fun i => (i, itemAt es i) := by
    have hanti : Std.Antisymm fun a b : Nat × Value => a.1 < b.1 := ⟨fun _ _ h h' => absurd h (lt_asymm h')⟩
    have hirr : Std.Irrefl fun a b : Nat × Value => a.1 < b.1 := ⟨fun _ => lt_irrefl _⟩
    refine (pairwise_foldr_insertIndexed hnodup).eq_of_mem_iff hsorted ?_
    rintro ⟨i, v⟩
    rw [mem_foldr_insertIndexed, hmem]
  change (entries.foldr insertIndexed []).map Prod.snd = _
  rw [heq, List.map_map]
  rfl

theorem find?_elements_foldedItems {es : List (String × Port)} (hn : (keys es).Nodup)
    (hk : Numbered es) (key : String) :
    Keyed.find? key (Value.array (foldedItems es)).elements = (Keyed.find? key es).map Port.data := by
  have hlen : (foldedItems es).length = es.length := by simp [foldedItems_eq hn hk]
  by_cases hm : key ∈ keys es
  · obtain ⟨i, hi, rfl⟩ := (hk key).1 hm
    obtain ⟨p, hp⟩ := Option.isSome_iff_exists.1 (find?_isSome.2 hm)
    have hitem : (foldedItems es)[i]? = some p.data := by
      simp [foldedItems_eq hn hk, hi, itemAt, hp]
    have := Value.find?_numbered (foldedItems es) 0 i
    rw [Nat.zero_add, hitem] at this
    rw [hp]
    exact this
  · rw [find?_eq_none.2 hm, Option.map_none, find?_eq_none, Value.elements, Value.mem_keys_numbered, hlen]
    rintro ⟨i, hi, rfl⟩
    exact hm ((hk _).2 ⟨i, hi, by rw [Nat.zero_add]⟩)

theorem find?_elements_foldedFields (es : List (String × Port)) (key : String) :
    Keyed.find? key (Value.object (foldedFields es)).elements = (Keyed.find? key es).map Port.data :=
  find?_mapValues key Port.data es

end Port

end Dataflow
