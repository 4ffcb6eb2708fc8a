import Dataflow.Id
import Mathlib.Tactic

/-!
# The text of an identifier

The text of an identifier of 128 bits is read back (`Id.read?_text`): its 32 digits stand for its value, and the hyphens
between the groups are where the reader looks for them.
-/

namespace Dataflow.Id

/-- An identifier has 128 bits. -/
def InRange (id : Id) : Prop :=
  id.value < 2 ^ 128

instance (id : Id) : Decidable id.InRange :=
  inferInstanceAs (Decidable (_ < _))

/-! ### Digits -/

theorem hexValue?_hexDigit : ∀ n < 16, hexValue? (hexDigit n) = some n := by
  decide

/-- A digit is no hyphen, and begins no other form of an identifier. -/
theorem hexDigit_ne : ∀ n < 16, hexDigit n ≠ '-' ∧ hexDigit n ≠ '{' ∧ (hexDigit n).toLower ≠ 'u' := by
  decide

@[simp] theorem length_hexDigits (count n : Nat) : (hexDigits count n).length = count := by
  induction count generalizing n with
  | zero => rfl
  | succ count ih => rw [hexDigits, List.length_append, ih, List.length_singleton]

theorem mem_hexDigits {count n : Nat} {c : Char} (hc : c ∈ hexDigits count n) : ∃ d < 16, c = hexDigit d := by
  induction count generalizing n with
  | zero => exact absurd hc List.not_mem_nil
  | succ count ih =>
    rcases List.mem_append.1 hc with hc | hc
    · exact ih hc
    · exact ⟨n % 16, Nat.mod_lt _ (by decide), List.mem_singleton.1 hc⟩

theorem readHex?_append (start : Nat) (a b : List Char) : readHex? start (a ++ b) = (readHex? start a).bind (readHex? · b) := by
  induction a generalizing start with
  | nil => rfl
  | cons c a ih =>
    rw [List.cons_append, readHex?, readHex?, Option.bind_assoc]
    exact Option.bind_congr fun d _ => ih _

theorem readHex?_hexDigits (count start n : Nat) :
    readHex? start (hexDigits count n) = some (start * 16 ^ count + n % 16 ^ count) := by
  induction count generalizing n with
  | zero => simp [hexDigits, readHex?, Nat.mod_one]
  | succ count ih =>
    rw [hexDigits, readHex?_append, ih, Option.bind_some, readHex?, hexValue?_hexDigit _ (Nat.mod_lt _ (by decide)),
      Option.bind_some, readHex?, pow_succ', Nat.mod_mul, mul_left_comm]
    congr 1
    ring

/-! ### Groups -/

/-- The groups of digits that are written from a position on. -/
def groupedFrom : Nat → List Char → List Char
  | _, [] => []
  | start, c :: digits => (if isGroupStart start then ['-', c] else [c]) ++ groupedFrom (start + 1) digits

theorem grouped_eq (digits : List Char) : grouped digits = groupedFrom 0 digits := by
  have hfrom : ∀ (digits : List Char) (start : Nat), (digits.zipIdx start).flatMap (fun e =>
      if isGroupStart e.2 then ['-', e.1] else [e.1]) = groupedFrom start digits := by
    intro digits
    induction digits with
    | nil => exact fun _ => rfl
    | cons c digits ih =>
      intro start
      rw [List.zipIdx_cons, List.flatMap_cons, ih, groupedFrom]
  exact hfrom digits 0

/-- The hyphens are all that was added. -/
theorem filter_groupedFrom {digits : List Char} (start : Nat) (h : '-' ∉ digits) :
    (groupedFrom start digits).filter (· != '-') = digits := by
  induction digits generalizing start with
  | nil => rfl
  | cons c digits ih =>
    obtain ⟨hc, hrest⟩ : '-' ≠ c ∧ '-' ∉ digits := by simpa using h
    have hne : (c != '-') = true := bne_iff_ne.2 hc.symm
    rw [groupedFrom, List.filter_append, ih _ hrest]
    split_ifs <;> simp [hne]

/-- The number of hyphens depends on the number of digits only. -/
theorem length_groupedFrom {digits digits' : List Char} (start : Nat) (h : digits.length = digits'.length) :
    (groupedFrom start digits).length = (groupedFrom start digits').length := by
  induction digits generalizing digits' start with
  | nil => rw [List.eq_nil_of_length_eq_zero h.symm]
  | cons c digits ih =>
    obtain ⟨c', digits', rfl⟩ := List.exists_cons_of_length_eq_add_one h.symm
    rw [groupedFrom, groupedFrom, List.length_append, List.length_append, ih (start + 1) (Nat.succ.inj h)]
    split_ifs <;> rfl

/-! ### Identifiers -/

/-- **The text of an identifier is read back.** -/
theorem read?_text {id : Id} (h : id.InRange) : read? id.text = some id := by
  obtain ⟨c, digits, hdigits⟩ : ∃ c digits, hexDigits width id.value = c :: digits :=
    List.exists_cons_of_length_eq_add_one (length_hexDigits 32 id.value)
  obtain ⟨d, hd, hc⟩ : ∃ d < 16, c = hexDigit d := mem_hexDigits (hdigits ▸ List.mem_cons_self)
  obtain ⟨-, hbrace, hscheme⟩ := hexDigit_ne d hd
  have hlength : (grouped (hexDigits width id.value)).length ≠ width := by
    have hsame : (hexDigits width id.value).length = (List.replicate width '0').length := by simp
    rw [grouped_eq, length_groupedFrom 0 hsame]
    decide
  -- the first group begins with its first digit
  obtain ⟨rest, hrest⟩ : ∃ rest, grouped (hexDigits width id.value) = c :: rest := ⟨_, by rw [hdigits]; rfl⟩
  have hplain : readGrouped? (grouped (hexDigits width id.value)) = some id := by
    have hfilter : (grouped (hexDigits width id.value)).filter (· != '-') = hexDigits width id.value := by
      rw [grouped_eq]
      refine filter_groupedFrom 0 fun hmem => ?_
      obtain ⟨d, hd, hhyphen⟩ := mem_hexDigits hmem
      exact (hexDigit_ne d hd).1 hhyphen.symm
    have hvalue : id.value % 16 ^ width = id.value := Nat.mod_eq_of_lt (by rw [width]; exact h.trans_eq (by decide))
    rw [readGrouped?, hfilter]
    simp only [if_pos, readPlain?, length_hexDigits, readHex?_hexDigits, zero_mul, zero_add, hvalue, Option.map_some]
  rw [read?, text, String.toList_ofList, if_neg hlength, if_neg]
  · rw [← hplain, hrest]
    split
    · rename_i heq
      exact absurd ((List.cons.inj heq).1 ▸ hc).symm hbrace
    · rfl
  · rw [hrest]
    intro heq
    exact hscheme (hc ▸ (List.cons.inj heq).1)

end Dataflow.Id
