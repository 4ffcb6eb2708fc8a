import Dataflow.Proofs.Binary64
import Dataflow.Proofs.Document.Ports
import Dataflow.Proofs.Json.Values

/-!
# What is converted

A value is refused for its type alone if and only if the types do not go together, and what has been converted does not
change when it is converted again.

* `Value.convert_null`: the wildcard, on either side;
* `Value.convert_incompatible_iff`: the refusals for the type alone are those of `DataType.flowsInto`;
* `Value.convert_converted`: a converted value is kept;
* `Value.convert_fails`: between types that go together, only texts and numbers can be refused;
* `Value.convert_agrees`: all of this together.
-/

namespace Dataflow.Value

/-- `null` is a wildcard on both sides. -/
theorem convert_null {v : Value} {t : DataType} (h : v = .null ∨ t = .null) : v.convert t = .ok v := by
  rcases h with rfl | rfl
  · rfl
  · cases v <;> simp [convert, convertText, convertNumber, convertInteger, convertBoolean, convertContainer]

/-! ### Why a value is refused -/

theorem truncate_eq_error {x : Binary64} {e : ConversionError} (h : truncate x = .error e) :
    (∃ y, e = .nonFinite y) ∨ ∃ input, e = .parse input .integer := by
  unfold truncate at h
  split at h
  · cases h
    exact Or.inl ⟨_, rfl⟩
  · split_ifs at h
    cases h
    exact Or.inr ⟨_, rfl⟩

/-- A text goes with every type, and is refused for what it says only. -/
theorem convertText_ne_incompatible (s : String) (t a b : DataType) : convertText s t ≠ .error (.incompatible a b) := by
  intro h
  cases t with
  | string | null => cases h
  | number =>
    simp only [convertText, textToNumber] at h
    split at h
    · split_ifs at h
      cases h
    · cases h
  | integer =>
    simp only [convertText, textToInteger] at h
    split at h
    · cases h
    · split at h
      · split_ifs at h
        · rcases truncate_eq_error h with ⟨_, he⟩ | ⟨_, he⟩ <;> cases he
        · cases h
      · cases h
  | boolean =>
    simp only [convertText, textToBoolean] at h
    split_ifs at h
    cases h
  | array | object =>
    simp only [convertText, textToContainer] at h
    split at h
    · cases h
    · split_ifs at h
      cases h

/-- **A value is refused for its type alone if and only if the types do not go together**, and the refusal names both. -/
theorem convert_incompatible_iff {v : Value} {t a b : DataType} :
    v.convert t = .error (.incompatible a b) ↔ v.dataType.flowsInto t = false ∧ a = v.dataType ∧ b = t := by
  cases v with
  | null => simp [convert, dataType]
  | string s =>
    refine ⟨fun h => absurd h (convertText_ne_incompatible s t a b), fun h => ?_⟩
    cases t <;> exact Bool.noConfusion h.1
  | number x =>
    cases t with
    | integer =>
      refine ⟨fun h => ?_, fun h => Bool.noConfusion h.1⟩
      rcases truncate_eq_error h with ⟨_, he⟩ | ⟨_, he⟩ <;> cases he
    | number =>
      refine ⟨fun h => ?_, fun h => Bool.noConfusion h.1⟩
      simp only [convert, convertNumber, finite] at h
      split_ifs at h <;> cases h
    | _ => simp [convert, convertNumber, dataType, DataType.flowsInto, DataType.isScalar, eq_comm]
  | integer i => cases t <;> simp [convert, convertInteger, dataType, DataType.flowsInto, DataType.isScalar, eq_comm]
  | boolean b => cases t <;> simp [convert, convertBoolean, dataType, DataType.flowsInto, DataType.isScalar, eq_comm]
  | array items => cases t <;> simp [convert, convertContainer, dataType, DataType.flowsInto, DataType.isScalar, eq_comm]
  | object fields => cases t <;> simp [convert, convertContainer, dataType, DataType.flowsInto, DataType.isScalar, eq_comm]

/-- **Between types that go together, only texts and numbers can be refused**: a text as anything but a text, a number as a
number or an integer. -/
theorem convert_fails {v : Value} {t : DataType} {e : ConversionError} (h : v.convert t = .error e)
    (hflows : v.dataType.flowsInto t = true) :
    v.dataType = .string ∧ t ≠ .string ∨ v.dataType = .number ∧ (t = .number ∨ t = .integer) := by
  cases v with
  | null => cases h
  | string s =>
    refine Or.inl ⟨rfl, ?_⟩
    rintro rfl
    cases h
  | number x =>
    refine Or.inr ⟨rfl, ?_⟩
    cases t with
    | number => exact Or.inl rfl
    | integer => exact Or.inr rfl
    | array | object => cases hflows
    | _ => cases h
  | integer i | boolean b =>
    cases t with
    | array | object => cases hflows
    | _ => cases h
  | array items =>
    cases t with
    | array | string | null => cases h
    | _ => cases hflows
  | object fields =>
    cases t with
    | object | string | null => cases h
    | _ => cases hflows

/-! ### What a value is converted to -/

/-- A number that was made of a value is finite. -/
theorem isFinite_of_convert {v : Value} (hv : v.IsOrdered) {x : Binary64} (h : v.convert .number = .ok (.number x)) :
    x.isFinite = true := by
  cases v with
  | null | array | object => cases h
  | string s =>
    simp only [convert, convertText, textToNumber] at h
    split at h
    · split_ifs at h with hfinite
      cases h
      exact hfinite
    · cases h
  | number y =>
    simp only [convert, convertNumber, finite] at h
    split_ifs at h with hfinite
    · cases h
      exact hfinite
    · cases h
  | integer i =>
    cases h
    obtain ⟨hmin, hmax⟩ := integerInRange_iff.1 hv
    exact Binary64.isFinite_ofInt (by omega)
  | boolean b =>
    cases h
    cases b <;> exact Binary64.isFinite_ofInt (by decide)

/-- **A value of a type is kept when it is converted to the type**, but for infinities and `nan`. -/
theorem convert_own {v : Value} (h : ∀ x, v = .number x → x.isFinite = true) : v.convert v.dataType = .ok v := by
  cases v with
  | number x => simp [convert, convertNumber, dataType, finite, h x rfl, Except.map]
  | _ => simp [convert, convertText, convertInteger, convertBoolean, convertContainer, dataType]

/-- **A converted value is kept when it is converted again.** -/
theorem convert_converted {v w : Value} (hv : v.IsOrdered) {t : DataType} (h : v.convert t = .ok w) :
    w.convert t = .ok w := by
  by_cases hnull : v = .null ∨ t = .null
  · obtain rfl : v = w := Except.ok.inj ((convert_null hnull).symm.trans h)
    exact h
  · obtain ⟨hv₀, ht₀⟩ := not_or.1 hnull
    obtain rfl := dataType_convert h hv₀ ht₀
    refine convert_own fun x hx => ?_
    subst hx
    exact isFinite_of_convert hv h

/-- **Conversion agrees with the types that go together.** A value is kept if it or the type is the wildcard. Otherwise it is
refused for its type alone if and only if the types do not go together, what it is converted to has the type and is kept
by the same conversion, and only texts and numbers can be refused for anything else. -/
theorem convert_agrees {v : Value} (hv : v.IsOrdered) (t : DataType) :
    (v = .null ∨ t = .null → v.convert t = .ok v) ∧
      (v ≠ .null → t ≠ .null →
        (∀ a b, v.convert t = .error (.incompatible a b) ↔ v.dataType.flowsInto t = false ∧ a = v.dataType ∧ b = t) ∧
        (∀ w, v.convert t = .ok w → w.dataType = t ∧ w.convert t = .ok w) ∧
        ∀ e, v.convert t = .error e → v.dataType.flowsInto t = true →
          v.dataType = .string ∧ t ≠ .string ∨ v.dataType = .number ∧ (t = .number ∨ t = .integer)) :=
  ⟨convert_null, fun hnull ht => ⟨fun _ _ => convert_incompatible_iff,
    fun _ h => ⟨dataType_convert h hnull ht, convert_converted hv h⟩, fun _ => convert_fails⟩⟩

/-- The greatest integer is rounded when it becomes a number, and the number is kept. -/
theorem convert_agrees_maxInteger : (integer maxInteger).IsOrdered ∧
    ∃ x, (integer maxInteger).convert .number = .ok (number x) ∧ (number x).convert .number = .ok (number x) := by
  have hordered : (integer maxInteger).IsOrdered := by
    simp only [IsOrdered]
    decide
  have hvalue : integer maxInteger ≠ null := fun h => by cases h
  have htype : DataType.number ≠ .null := fun h => by cases h
  obtain ⟨-, hagrees⟩ := convert_agrees hordered .number
  exact ⟨hordered, _, rfl, ((hagrees hvalue htype).2.1 _ rfl).2⟩

end Dataflow.Value
