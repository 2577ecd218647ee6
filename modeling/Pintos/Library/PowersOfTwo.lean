import Mathlib.Data.Nat.Bitwise

/-!
# Turning off the lowest bit

A number and its predecessor have the bits above the lowest set one in common, so
their conjunction is the number without that bit. Repeating it ends with the
highest bit alone, a power of two.
-/

namespace Pintos

variable {num high low : ℕ}

lemma testBit_of_between (lower : 2 ^ high ≤ num) (upper : num < 2 ^ (high + 1)) :
  num.testBit high = true := by
  have quotient : num / 2 ^ high = 1 := by
    rw [Nat.div_eq_iff (Nat.two_pow_pos high)]
    omega
  rw [Nat.testBit_eq_decide_div_mod_eq, quotient]
  rfl

lemma two_pow_le_and_pred (lower : 2 ^ high ≤ num) (upper : num < 2 ^ (high + 1))
  (others : num ≠ 2 ^ high) : 2 ^ high ≤ num &&& (num - 1) := by
  refine Nat.ge_two_pow_of_testBit ?_
  rw [Nat.testBit_and, testBit_of_between lower upper, testBit_of_between (by omega) (by omega)]
  rfl

lemma and_pred_eq_zero_iff (lower : 2 ^ high ≤ num) (upper : num < 2 ^ (high + 1)) :
  num &&& (num - 1) = 0 ↔ num = 2 ^ high := by
  constructor
  · intro isZero
    by_contra others
    have remains := two_pow_le_and_pred lower upper others
    omega
  rintro rfl
  rw [Nat.and_two_pow_sub_one_eq_mod, Nat.mod_self]

lemma two_pow_dvd_and_pred (divides : 2 ^ low ∣ num) (pos : 0 < num) :
  2 ^ (low + 1) ∣ num &&& (num - 1) := by
  rcases divides with ⟨factor, rfl⟩
  have quotient : (2 ^ low * factor - 1) / 2 ^ low = factor - 1 := by
    have divided := Nat.mul_sub_div 0 (2 ^ low) factor pos
    rwa [Nat.zero_div] at divided
  rw [Nat.dvd_iff_mod_eq_zero]
  refine Nat.eq_of_testBit_eq ?_
  intro bit
  rw [Nat.testBit_mod_two_pow, Nat.testBit_and, Nat.zero_testBit]
  by_cases below : bit < low
  · have isClear : (2 ^ low * factor).testBit bit = false := by
      rw [Nat.testBit_two_pow_mul]
      simp [below]
    simp [isClear]
  by_cases isLow : bit = low
  · subst isLow
    have inNum : (2 ^ bit * factor).testBit bit = decide (factor % 2 = 1) := by
      rw [Nat.testBit_eq_decide_div_mod_eq, Nat.mul_div_cancel_left _ (Nat.two_pow_pos bit)]
    have inPred : (2 ^ bit * factor - 1).testBit bit = decide ((factor - 1) % 2 = 1) := by
      rw [Nat.testBit_eq_decide_div_mod_eq, quotient]
    rw [inNum, inPred]
    simp only [Bool.and_eq_false_iff, decide_eq_false_iff_not]
    omega
  simp
  omega

end Pintos
