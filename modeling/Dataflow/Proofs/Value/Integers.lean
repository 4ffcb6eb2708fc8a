import Dataflow.Proofs.Value.Conversion
import Mathlib.Data.Nat.Digits.Defs
import Mathlib.Data.List.TakeWhile

/-!
# Texts that are converted to integers

A text of digits is read exactly if the integer that it denotes is one that a value can hold. Otherwise it is read once more,
as a number, and the number is not always out of range as well.

* `Text.Spells` says which integer a text of digits denotes;
* `Text.integer?_spells`: reading the text as an integer gives the integer, however large;
* `Binary64.numeral?_spells`: reading it as a number gives the nearest double;
* `Value.integer_of_text`: what becomes of a text of digits. The 1024 integers below the least one are read as the least one.
-/

namespace Dataflow

namespace Text

/-- The number that digits denote, of which the last one counts for itself. -/
def denoted (digits : List Char) : Nat :=
  Nat.ofDigits 10 (digits.reverse.map digitValue)

/-- A text consists of digits, after a plus, a minus or nothing, and denotes an integer. -/
inductive Spells : List Char → Int → Prop
  | bare {digits : List Char} (hsome : digits ≠ []) (hdigits : ∀ c ∈ digits, isDigit c = true) :
      Spells digits (denoted digits)
  | plus {digits : List Char} (hsome : digits ≠ []) (hdigits : ∀ c ∈ digits, isDigit c = true) :
      Spells ('+' :: digits) (denoted digits)
  | minus {digits : List Char} (hsome : digits ≠ []) (hdigits : ∀ c ∈ digits, isDigit c = true) :
      Spells ('-' :: digits) (-denoted digits)

/-- Digits are read one after the other as what they denote. -/
theorem digitsValue_eq (digits : List Char) : digitsValue digits = denoted digits := by
  induction digits using List.reverseRecOn with
  | nil => rfl
  | append_singleton digits c ih =>
    have hlast : digitsValue (digits ++ [c]) = 10 * digitsValue digits + digitValue c := by
      simp [digitsValue, digitsValueFrom]
    rw [hlast, ih, denoted, denoted, List.reverse_append, List.reverse_singleton, List.singleton_append, List.map_cons,
      Nat.ofDigits_cons]
    exact Nat.add_comm ..

theorem digits?_of_digits {digits : List Char} (hsome : digits ≠ []) (hdigits : ∀ c ∈ digits, isDigit c = true) :
    digits? digits = some (denoted digits) := by
  have hall : digits.all isDigit = true := List.all_eq_true.2 hdigits
  simp [digits?, hsome, hall, digitsValue_eq]

/-- There is no sign before a digit. -/
theorem readSign_of_digits {digits : List Char} (hdigits : ∀ c ∈ digits, isDigit c = true) :
    readSign digits = (false, digits) := by
  unfold readSign
  split
  · exact absurd (hdigits '+' List.mem_cons_self) (by decide)
  · exact absurd (hdigits '-' List.mem_cons_self) (by decide)
  · rfl

/-- The sign of a text of digits, and the digits after it. -/
theorem Spells.readSign {text : List Char} {k : Int} (h : Spells text k) : ∃ negative digits,
    Text.readSign text = (negative, digits) ∧ digits ≠ [] ∧ (∀ c ∈ digits, isDigit c = true) ∧
      k = Binary64.signedSignificand negative (denoted digits) := by
  cases h with
  | bare hsome hdigits => exact ⟨false, _, readSign_of_digits hdigits, hsome, hdigits, rfl⟩
  | plus hsome hdigits => exact ⟨false, _, rfl, hsome, hdigits, rfl⟩
  | minus hsome hdigits => exact ⟨true, _, rfl, hsome, hdigits, rfl⟩

/-- **A text of digits is read as the integer that it denotes.** -/
theorem integer?_spells {text : List Char} {k : Int} (h : Spells text k) : integer? text = some k := by
  obtain ⟨negative, digits, hsign, hsome, hdigits, rfl⟩ := h.readSign
  simp only [integer?, hsign, digits?_of_digits hsome hdigits]
  rfl

end Text

namespace Binary64

open Text

theorem readDigits_of_digits {digits : List Char} (hdigits : ∀ c ∈ digits, isDigit c = true) :
    readDigits digits = (digits, []) := by
  have htake : digits.takeWhile isDigit = digits := List.takeWhile_eq_self_iff.2 hdigits
  have hdrop : digits.dropWhile isDigit = [] := List.dropWhile_eq_nil_iff.2 hdigits
  rw [readDigits, htake, hdrop]

/-- A digit is no letter. -/
theorem toLower_of_isDigit {c : Char} (hc : isDigit c = true) : c.toLower = c ∧ c < 'a' := by
  have hdigit : '0' ≤ c ∧ c ≤ '9' := by simpa [isDigit] using hc
  refine ⟨dif_neg fun hupper => ?_, lt_of_le_of_lt hdigit.2 (by decide)⟩
  exact absurd (show 'A' ≤ '9' from le_trans hupper.1 hdigit.2) (by decide)

/-- Digits spell no word. -/
theorem lowered_ne_of_digits {digits : List Char} (hsome : digits ≠ []) (hdigits : ∀ c ∈ digits, isDigit c = true)
    (letter : Char) (rest : List Char) (hletter : 'a' ≤ letter) :
    (String.ofList (lowered digits) = String.ofList (letter :: rest)) = False := by
  obtain ⟨c, digits, rfl⟩ := List.exists_cons_of_ne_nil hsome
  obtain ⟨hlower, hlt⟩ := toLower_of_isDigit (hdigits c List.mem_cons_self)
  refine eq_false fun h => ?_
  have hhead : c.toLower = letter := (List.cons.inj (String.ofList_injective h)).1
  rw [hlower] at hhead
  exact absurd hletter (not_le.2 (hhead ▸ hlt))

/-- **A text of digits is read as the double that is nearest to what it denotes.** -/
theorem numeral?_spells {text digits : List Char} {negative : Bool} (hsign : readSign text = (negative, digits))
    (hsome : digits ≠ []) (hdigits : ∀ c ∈ digits, isDigit c = true) :
    numeral? text = some (round negative (denoted digits) 1) := by
  have hfixed : readFixed? digits = some (digits, 0, []) := by
    simp [readFixed?, readDigits_of_digits hdigits, hsome]
  have hinf := lowered_ne_of_digits hsome hdigits 'i' ['n', 'f'] (by decide)
  have hinfinity := lowered_ne_of_digits hsome hdigits 'i' ['n', 'f', 'i', 'n', 'i', 't', 'y'] (by decide)
  have hnan := lowered_ne_of_digits hsome hdigits 'n' ['a', 'n'] (by decide)
  have hdecimal : ofDecimal negative (denoted digits) 0 = round negative (denoted digits) 1 := by
    unfold ofDecimal
    split_ifs with hzero hlarge hsmall
    · rw [hzero]
      rfl
    · exact absurd hlarge (by decide)
    · exact absurd hsmall.1 (by decide)
    · exact congrArg (fun n => round negative n 1) (Nat.mul_one _)
  unfold numeral?
  simp only [hsign, hfixed]
  rw [if_neg (by simp; exact ⟨hinf.mp, hinfinity.mp⟩), if_neg hnan.mp]
  exact congrArg some ((congrArg (ofDecimal negative · 0) (digitsValue_eq digits)).trans hdecimal)

end Binary64

namespace Value

open Text

theorem minInteger_eq : minInteger = -2 ^ 63 := rfl

theorem maxInteger_eq : maxInteger = 2 ^ 63 - 1 := rfl

/-- An integer that a value can hold is read exactly. -/
theorem textToInteger_exact {s : String} {k : Int} (h : Spells (trim s.toList) k) (hmin : minInteger ≤ k)
    (hmax : k ≤ maxInteger) : textToInteger s = .ok (integer k) := by
  have hsome : (integer? (trim s.toList)).filter integerInRange = some k := by
    rw [integer?_spells h, Option.filter_some, if_pos (by simp [integerInRange, hmin, hmax])]
  simp only [textToInteger, hsome]

/-- An integer that no value can hold is rounded to a double, of which the integer part is taken. It is in range for the
least integer only. -/
theorem textToInteger_rounded {s : String} {digits : List Char} {negative : Bool}
    (hsign : readSign (trim s.toList) = (negative, digits)) (hsome : digits ≠ []) (hdigits : ∀ c ∈ digits, isDigit c = true)
    (hrange : integerInRange (Binary64.signedSignificand negative (denoted digits)) = false)
    (hlarge : 2 ^ 63 ≤ denoted digits) :
    (negative = true → denoted digits ≤ 2 ^ 63 + 1024 → textToInteger s = .ok (integer minInteger)) ∧
      (negative = false ∨ 2 ^ 63 + 1024 < denoted digits → ∃ input, textToInteger s = .error (.parse input .integer)) := by
  have hinteger : integer? (trim s.toList) = some (Binary64.signedSignificand negative (denoted digits)) := by
    simp only [integer?, hsign, digits?_of_digits hsome hdigits]
    rfl
  have hnone : (integer? (trim s.toList)).filter integerInRange = none := by
    rw [hinteger, Option.filter_some, hrange, if_neg Bool.false_ne_true]
  simp only [textToInteger, hnone, Binary64.numeral?_spells hsign hsome hdigits]
  rcases Binary64.truncate?_round negative hlarge with ⟨hinf, hfar⟩ | ⟨whole, hwhole, hnear, hfinite, htruncate⟩
  · rw [hinf]
    exact ⟨fun _ hn => absurd hfar (not_lt.2 hn), fun _ => ⟨s, rfl⟩⟩
  rw [if_pos hfinite]
  refine ⟨?_, fun hfar => ?_⟩
  · rintro rfl hn
    rw [truncate, htruncate, hnear.2 hn]
    rfl
  · have hout : integerInRange (Binary64.signedSignificand negative whole) = false := by
      rw [← Bool.not_eq_true, integerInRange_iff]
      cases negative with
      | false =>
        change ¬ (-2 ^ 63 ≤ (whole : Int) ∧ (whole : Int) < 2 ^ 63)
        omega
      | true =>
        have hne := mt hnear.1 (not_le.2 (hfar.resolve_left (by decide)))
        change ¬ (-2 ^ 63 ≤ -(whole : Int) ∧ -(whole : Int) < 2 ^ 63)
        omega
    simp [truncate, htruncate, hout]

/-- **A text of digits that is converted to an integer.** The integer that it denotes is read exactly if a value can hold it,
and refused if it is above all of these or more than 1024 below them. What is not so far below is read as the least one,
to which the text is rounded when it is read as a number. -/
theorem integer_of_text {s : String} {k : Int} (h : Spells (trim s.toList) k) :
    (minInteger ≤ k → k ≤ maxInteger → (string s).convert .integer = .ok (integer k)) ∧
      (maxInteger < k ∨ k < minInteger - 1024 → ∃ input, (string s).convert .integer = .error (.parse input .integer)) ∧
      (minInteger - 1024 ≤ k → k < minInteger → (string s).convert .integer = .ok (integer minInteger)) := by
  change (_ → _ → textToInteger s = _) ∧ (_ → ∃ input, textToInteger s = _) ∧ (_ → _ → textToInteger s = _)
  refine ⟨textToInteger_exact h, ?_⟩
  rw [minInteger_eq, maxInteger_eq]
  cases hin : integerInRange k with
  | true =>
    obtain ⟨hlow, hhigh⟩ := integerInRange_iff.1 hin
    exact ⟨fun hout => by omega, fun _ hbelow => by omega⟩
  | false =>
    obtain ⟨negative, digits, hsign, hsome, hdigits, rfl⟩ := h.readSign
    have hbeyond := textToInteger_rounded hsign hsome hdigits hin
    rw [← Bool.not_eq_true, integerInRange_iff] at hin
    cases negative with
    | false =>
      change ¬ (-2 ^ 63 ≤ (denoted digits : Int) ∧ (denoted digits : Int) < 2 ^ 63) at hin
      change _ ∧ (_ → (denoted digits : Int) < _ → _)
      exact ⟨fun _ => (hbeyond (by omega)).2 (Or.inl rfl), fun _ hbelow => by omega⟩
    | true =>
      change ¬ (-2 ^ 63 ≤ -(denoted digits : Int) ∧ -(denoted digits : Int) < 2 ^ 63) at hin
      change (_ < -(denoted digits : Int) ∨ -(denoted digits : Int) < _ → _) ∧ (_ ≤ -(denoted digits : Int) → _ → _)
      exact ⟨fun hout => (hbeyond (by omega)).2 (Or.inr (by omega)), fun hnear _ => (hbeyond (by omega)).1 rfl (by omega)⟩

/-- The integer below the least one, with a zero in front and blank characters around it, is read as the least one. -/
theorem integer_of_text_below : Spells (trim "\t-09223372036854775809 ".toList) (minInteger - 1) ∧
    (string "\t-09223372036854775809 ").convert .integer = .ok (integer minInteger) := by
  have hspells : Spells (trim "\t-09223372036854775809 ".toList) (minInteger - 1) := by
    have htrim : trim "\t-09223372036854775809 ".toList = '-' :: "09223372036854775809".toList := by decide
    have hdenoted : minInteger - 1 = -(denoted "09223372036854775809".toList : Int) := by decide
    rw [htrim, hdenoted]
    exact .minus (by decide) (List.all_eq_true.1 rfl)
  exact ⟨hspells, (integer_of_text hspells).2.2 (by omega) (by omega)⟩

end Value

end Dataflow
