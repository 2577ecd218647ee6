import Pintos.Library.Words

/-!
# Masks

Words that pack several fields are read through masks. Setting or clearing the bits of
one mask is not seen through another one that shares no bit with it.
-/

namespace Pintos

variable {width : ℕ} {word flags mask : BitVec width}

section

variable (apart : flags &&& mask = BitVec.ofNat width 0)
include apart

lemma getElem_of_apart {idx : ℕ} (bound : idx < width) (isFlag : flags[idx] = true) :
  mask[idx] = false := by
  have bit := congrArg (fun val : BitVec width => val[idx]) apart
  simpa [isFlag] using bit

lemma or_and_of_apart : (word ||| flags) &&& mask = word &&& mask := by
  rw [BitVec.and_or_distrib_right, apart, BitVec.or_zero]

lemma andNot_and_of_apart : (word &&& ~~~flags) &&& mask = word &&& mask := by
  ext idx bound
  simp only [BitVec.getElem_and, BitVec.getElem_not]
  cases isFlag : flags[idx] with
  | false => simp
  | true => simp [getElem_of_apart apart bound isFlag]

end

lemma or_and_of_within (within : flags &&& mask = mask) : (word ||| flags) &&& mask = mask := by
  rw [BitVec.and_or_distrib_right, within]
  ext idx bound
  cases isSet : mask[idx] <;> simp [isSet]

lemma andNot_and_self (word flags : BitVec width) :
  (word &&& ~~~flags) &&& flags = BitVec.ofNat width 0 := by
  rw [BitVec.and_assoc, BitVec.not_and_self]
  exact BitVec.and_zero

lemma andNot_of_apart (apart : word &&& mask = BitVec.ofNat width 0) :
  word &&& ~~~mask = word := by
  ext idx bound
  simp only [BitVec.getElem_and]
  cases isSet : word[idx] with
  | false => simp
  | true => simp [getElem_of_apart apart bound isSet]

lemma andNot_add_and (word mask : BitVec width) :
  (word &&& ~~~mask) + (word &&& mask) = word := by
  have apart : (word &&& ~~~mask) &&& (word &&& mask) = BitVec.ofNat width 0 := by
    ext idx bound
    simp only [BitVec.getElem_and, BitVec.getElem_not]
    cases mask[idx] <;> simp
  rw [BitVec.add_eq_or_of_and_eq_zero _ _ apart, ← BitVec.and_or_distrib_left]
  ext idx bound
  cases mask[idx] <;> simp

lemma toNat_andNot (word mask : BitVec width) :
  (word &&& ~~~mask).toNat = word.toNat - (word &&& mask).toNat := by
  have isLe : word &&& mask ≤ word := by
    exact Nat.and_le_left
  rw [← BitVec.toNat_sub_of_le isLe]
  exact congrArg BitVec.toNat (eq_sub_of_add_eq (andNot_add_and word mask))

lemma toNat_field (word : Word) (low count : ℕ) (bound : (2 ^ count - 1) <<< low < 2 ^ 32) :
  ((word &&& BitVec.ofNat 32 ((2 ^ count - 1) <<< low)) >>> low).toNat =
    word.toNat / 2 ^ low % 2 ^ count := by
  rw [BitVec.toNat_ushiftRight, BitVec.toNat_and, BitVec.toNat_ofNat, Nat.mod_eq_of_lt bound,
    Nat.shiftRight_and_distrib, Nat.shiftLeft_shiftRight, Nat.and_two_pow_sub_one_eq_mod,
    Nat.shiftRight_eq_div_pow]

end Pintos
