import Mathlib.Data.BitVec

/-!
# Little-endian words

Memory and storage are arrays of bytes, and a 32-bit word occupies four of them
with its least significant byte first. The two directions are inverse, for a
single word and for arrays of words. At the end stands what counting up and down
does to the number a word is.
-/

namespace Pintos

abbrev Byte := BitVec 8

abbrev Word := BitVec 32

def wordByte (word : Word) (index : ℕ) : Byte :=
  BitVec.ofNat 8 (word.toNat / 256 ^ index)

def wordOfBytes (bytes : ℕ → Byte) : Word :=
  BitVec.ofNat 32 ((bytes 0).toNat + 256 * ((bytes 1).toNat +
    256 * ((bytes 2).toNat + 256 * (bytes 3).toNat)))

@[simp]
lemma wordOfBytes_wordByte (word : Word) : wordOfBytes (wordByte word) = word := by
  apply BitVec.eq_of_toNat_eq
  simp only [wordOfBytes, wordByte, BitVec.toNat_ofNat]
  omega

lemma wordOfBytes_congr {left right : ℕ → Byte}
  (agree : ∀ posn, posn < 4 → left posn = right posn) : wordOfBytes left = wordOfBytes right := by
  simp only [wordOfBytes, agree 0 (by omega), agree 1 (by omega), agree 2 (by omega),
    agree 3 (by omega)]

def bytesOfWords (words : ℕ → Word) : ℕ → Byte :=
  fun index => wordByte (words (index / 4)) (index % 4)

def wordsOfBytes (bytes : ℕ → Byte) : ℕ → Word :=
  fun index => wordOfBytes fun position => bytes (4 * index + position)

@[simp]
lemma wordsOfBytes_bytesOfWords (words : ℕ → Word) :
  wordsOfBytes (bytesOfWords words) = words := by
  funext idx
  have bytes : ∀ position, position < 4 →
      bytesOfWords words (4 * idx + position) = wordByte (words idx) position := by
    intro position bound
    unfold bytesOfWords
    congr 2 <;> omega
  exact (wordOfBytes_congr bytes).trans (wordOfBytes_wordByte (words idx))

lemma wordsOfBytes_congr {left right : ℕ → Byte} {idx : ℕ}
  (agree : ∀ position, position < 4 → left (4 * idx + position) = right (4 * idx + position)) :
  wordsOfBytes left idx = wordsOfBytes right idx :=
  wordOfBytes_congr agree

variable {val : Word}

lemma toNat_pos_of_ne_zero (pos : val ≠ 0) : 0 < val.toNat := by
  rw [Nat.pos_iff_ne_zero]
  intro zero
  exact pos (BitVec.eq_of_toNat_eq zero)

lemma toNat_sub_one (pos : val ≠ 0) : (val - 1).toNat = val.toNat - 1 := by
  have := toNat_pos_of_ne_zero pos
  rw [BitVec.toNat_sub]
  simp only [BitVec.reduceToNat]
  omega

lemma toNat_add_one (val : Word) : (val + 1).toNat = (val.toNat + 1) % 2 ^ 32 := by
  rfl

end Pintos
