import Dataflow.Binary64
import Mathlib.Tactic

/-!
# Integers as doubles

An integer is rounded to a significand of 53 bits.

* `Binary64.isFinite_ofInt`: an integer of 64 bits is not rounded to an infinity;
* `Binary64.round_large`: a natural number from `2 ^ 52` on is rounded to a multiple of the power of two that leaves 53
  bits of it;
* `Binary64.truncate?_round`: so a number of at least 64 bits stays one, unless it becomes infinite, and it becomes
  `2 ^ 63` if and only if it is beyond by at most 1024.
-/

namespace Dataflow.Binary64

theorem scaled_natCast (num den e : Nat) : scaled num den e = (num, den * 2 ^ e) := rfl

theorem pow_precision : Nat.pow 2 precision = 2 ^ 53 := rfl

/-- A whole number is its own integer part. -/
theorem truncate?_natCast (negative : Bool) (significand e : Nat) :
    (finite negative significand e).truncate? = some (signedSignificand negative (significand * 2 ^ e)) := by
  simp only [truncate?, show magnitude significand e = (significand * 2 ^ e, 1) from rfl, Nat.div_one]
  rfl

/-- The exponent of a natural number leaves 53 bits of it, or is the least one. -/
theorem gridExponent_le (n : Nat) : gridExponent n 1 ≤ max minExponent (n.log2 - 52) := by
  have hone : Nat.log2 1 = 0 := by decide
  unfold gridExponent
  refine max_le_max le_rfl ?_
  rw [hone, precision]
  split_ifs <;> omega

/-- A number far below the greatest double is not rounded to an infinity. -/
theorem isFinite_round (negative : Bool) {n : Nat} (h : n.log2 ≤ 1000) : (round negative n 1).isFinite = true := by
  have hle := gridExponent_le n
  have hlow : max minExponent ((n.log2 : Int) - 52) ≤ 948 := max_le (by decide) (by omega)
  have hhigh : maxExponent = 971 := rfl
  unfold round
  split_ifs with hzero
  · rfl
  dsimp only
  split_ifs with _ hover hover
  · omega
  · rfl
  · omega
  · rfl

/-- **An integer of 64 bits is rounded to a finite double.** -/
theorem isFinite_ofInt {i : Int} (h : i.natAbs ≤ 2 ^ 63) : (ofInt i).isFinite = true := by
  refine isFinite_round _ ?_
  rcases Nat.eq_zero_or_pos i.natAbs with hzero | hpos
  · rw [hzero]
    decide
  · have hlt : i.natAbs.log2 < 64 := (Nat.log2_lt hpos.ne').2 (h.trans_lt (by decide))
    omega

/-! ### Numbers with more bits than a significand -/

theorem roundHalfEven_eq (num den : Nat) : roundHalfEven num den = num / den ∨ roundHalfEven num den = num / den + 1 := by
  unfold roundHalfEven
  dsimp only
  split_ifs
  · exact Or.inr rfl
  · exact Or.inl rfl

/-- A quotient is rounded to an even number `q` if and only if it is at most one half beyond, when it is not below. -/
theorem roundHalfEven_eq_even {num den q : Nat} (hq : q % 2 = 0) (hden : 0 < den) (hle : den * q ≤ num) :
    roundHalfEven num den = q ↔ 2 * (num - den * q) ≤ den := by
  have hsplit := Nat.div_add_mod num den
  have hmod := Nat.mod_lt num hden
  have hdiv : q ≤ num / den := (Nat.le_div_iff_mul_le hden).2 (by rwa [Nat.mul_comm])
  unfold roundHalfEven
  dsimp only
  rcases hdiv.eq_or_lt with rfl | hlt
  · have hrest : num - den * (num / den) = num % den := by omega
    rw [hrest, hq]
    split_ifs with hup
    · have : den < 2 * (num % den) := by simpa using hup
      omega
    · have : ¬ den < 2 * (num % den) := by simpa using hup
      omega
  · -- The quotient is beyond by one at least.
    have hfar : den * (q + 1) ≤ num := le_trans (Nat.mul_le_mul_left den hlt) (Nat.mul_div_le num den)
    rw [Nat.mul_add, Nat.mul_one] at hfar
    split_ifs <;> omega

theorem log2_le {n k : Nat} (h : 2 ^ k ≤ n) : k ≤ n.log2 :=
  (Nat.le_log2 (Nat.ne_of_gt (lt_of_lt_of_le (Nat.two_pow_pos k) h))).2 h

theorem gridExponent_large {n : Nat} (h : 53 ≤ n.log2) : gridExponent n 1 = (n.log2 - 52 : Nat) := by
  have hone : Nat.log2 1 = 0 := by decide
  have hguess : (n.log2 : Int) - 0 - (53 : Nat) = ((n.log2 - 53 : Nat) : Int) := by omega
  have hne : n ≠ 0 := by
    rintro rfl
    exact absurd h (by decide)
  have hlow : ¬ n < 2 ^ 53 * (1 * 2 ^ (n.log2 - 53)) := by
    rw [Nat.one_mul, ← Nat.pow_add, Nat.add_sub_cancel' h, not_lt]
    exact Nat.log2_self_le hne
  unfold gridExponent
  simp only [hone, Nat.cast_zero, show precision = 53 from rfl, hguess, scaled_natCast]
  rw [if_neg (show ¬ n < Nat.pow 2 53 * _ from hlow), max_eq_right]
  · omega
  · rw [minExponent]
    omega

/-- A large number is rounded to a multiple of the power of two that leaves 53 bits of it. -/
theorem round_large (negative : Bool) {n : Nat} (h : 53 ≤ n.log2) : round negative n 1 = infinite negative ∨
    ∃ whole : Nat, whole = roundHalfEven n (2 ^ (n.log2 - 52)) * 2 ^ (n.log2 - 52) ∧
      (round negative n 1).isFinite = true ∧
      (round negative n 1).truncate? = some (signedSignificand negative whole) := by
  have hne : n ≠ 0 := by
    rintro rfl
    exact absurd h (by decide)
  -- Nothing but the carry leads to 54 bits.
  have hbound : roundHalfEven n (2 ^ (n.log2 - 52)) ≤ 2 ^ 53 := by
    have hlt : n / 2 ^ (n.log2 - 52) < 2 ^ 53 := by
      rw [Nat.div_lt_iff_lt_mul (Nat.two_pow_pos _), ← Nat.pow_add, show 53 + (n.log2 - 52) = n.log2 + 1 by omega]
      exact Nat.lt_log2_self
    rcases roundHalfEven_eq n (2 ^ (n.log2 - 52)) with heq | heq <;> rw [heq] <;> omega
  unfold round
  rw [if_neg hne]
  simp only [gridExponent_large h, scaled_natCast, Nat.one_mul, pow_precision]
  split_ifs with hsmall hover hover
  · exact Or.inl rfl
  · exact Or.inr ⟨_, rfl, rfl, truncate?_natCast ..⟩
  · exact Or.inl rfl
  · have hcarry : roundHalfEven n (2 ^ (n.log2 - 52)) = 2 ^ 53 :=
      le_antisymm hbound (not_lt.1 hsmall)
    refine Or.inr ⟨_, rfl, rfl, ?_⟩
    rw [show ((n.log2 - 52 : Nat) : Int) + 1 = ((n.log2 - 52 + 1 : Nat) : Int) by omega,
      truncate?_natCast, hcarry,
      show 2 ^ 53 / 2 * 2 ^ (n.log2 - 52 + 1) = 2 ^ 53 * 2 ^ (n.log2 - 52) by rw [Nat.pow_succ]; omega]

/-- **A number of 64 bits or more stays one when it is rounded**, or becomes infinite. It becomes `2 ^ 63` if and only if it
is beyond by at most 1024. -/
theorem truncate?_round (negative : Bool) {n : Nat} (h : 2 ^ 63 ≤ n) :
    (round negative n 1 = infinite negative ∧ 2 ^ 63 + 1024 < n) ∨
      ∃ whole : Nat, 2 ^ 63 ≤ whole ∧ (whole = 2 ^ 63 ↔ n ≤ 2 ^ 63 + 1024) ∧ (round negative n 1).isFinite = true ∧
        (round negative n 1).truncate? = some (signedSignificand negative whole) := by
  have hlog : 63 ≤ n.log2 := log2_le h
  have hne : n ≠ 0 := by omega
  have hquotient : 2 ^ 52 ≤ n / 2 ^ (n.log2 - 52) := by
    rw [Nat.le_div_iff_mul_le (Nat.two_pow_pos _), ← Nat.pow_add, show 52 + (n.log2 - 52) = n.log2 by omega]
    exact Nat.log2_self_le hne
  have hround : 2 ^ 52 ≤ roundHalfEven n (2 ^ (n.log2 - 52)) := by
    rcases roundHalfEven_eq n (2 ^ (n.log2 - 52)) with heq | heq <;> rw [heq] <;> omega
  rcases round_large negative (n := n) (by omega) with hinf | ⟨whole, rfl, hfinite, htruncate⟩
  · refine Or.inl ⟨hinf, ?_⟩
    by_contra hnear
    have hfinite := isFinite_round negative (n := n) (by
      have := (Nat.log2_lt (k := 64) hne).2 (by omega)
      omega)
    rw [hinf] at hfinite
    cases hfinite
  refine Or.inr ⟨_, ?_, ?_, hfinite, htruncate⟩
  · calc 2 ^ 63 = 2 ^ 52 * 2 ^ 11 := by decide
      _ ≤ _ := Nat.mul_le_mul hround (Nat.pow_le_pow_right (by decide) (by omega))
  rcases hlog.eq_or_lt with hlog | hlog
  · -- The multiples of `2 ^ 11` are in reach, of which `2 ^ 63` is an even one.
    rw [← hlog]
    have heven : roundHalfEven n (2 ^ 11) = 2 ^ 52 ↔ 2 * (n - 2 ^ 11 * 2 ^ 52) ≤ 2 ^ 11 :=
      roundHalfEven_eq_even (by decide) (by decide) (by omega)
    rw [show 63 - 52 = 11 from rfl]
    constructor
    · intro hwhole
      have := heven.1 (by omega)
      omega
    · intro hnear
      rw [heven.2 (by omega)]
      decide
  · -- All multiples that are in reach are greater.
    have hlarge : 2 ^ 64 ≤ n := (Nat.le_log2 hne).1 hlog
    have hwhole : 2 ^ 64 ≤ roundHalfEven n (2 ^ (n.log2 - 52)) * 2 ^ (n.log2 - 52) :=
      calc 2 ^ 64 = 2 ^ 52 * 2 ^ 12 := by decide
        _ ≤ _ := Nat.mul_le_mul hround (Nat.pow_le_pow_right (by decide) (by omega))
    constructor <;> intro <;> omega

end Dataflow.Binary64
