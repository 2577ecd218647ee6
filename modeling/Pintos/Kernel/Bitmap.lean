import Pintos.Library.Words

/-!
# Bitmaps

The bitmap of `lib/kernel/bitmap.c`: an array of bits kept in 32-bit elements.
The functions below follow the source on elements and masks. Their
specification speaks about single bits only: `bitmapTest` is the bit at an
index, every update changes exactly the addressed bits, and `bitmapScan` is a
first-fit search.
-/

namespace Pintos

open Function

/-- `struct bitmap`: the number of bits and the elements that hold them. -/
structure Bitmap where
  bitCnt : ℕ
  bits : ℕ → Word

def elemBits : ℕ := 32

def elemIdx (bitIdx : ℕ) : ℕ := bitIdx / elemBits

def bitMask (bitIdx : ℕ) : Word := 1#32 <<< (bitIdx % elemBits)

def elemCnt (bitCnt : ℕ) : ℕ := (bitCnt + elemBits - 1) / elemBits

def byteCnt (bitCnt : ℕ) : ℕ := 4 * elemCnt bitCnt

def lastMask (bitmap : Bitmap) : Word :=
  let lastBits := bitmap.bitCnt % elemBits
  if lastBits ≠ 0 then (1#32 <<< lastBits) - 1#32 else -1#32

def bitmapTest (bitmap : Bitmap) (idx : ℕ) : Bool :=
  (bitmap.bits (elemIdx idx) &&& bitMask idx) != 0#32

def bitmapMark (bitmap : Bitmap) (bitIdx : ℕ) : Bitmap :=
  { bitmap with
    bits := update bitmap.bits (elemIdx bitIdx)
      (bitmap.bits (elemIdx bitIdx) ||| bitMask bitIdx) }

def bitmapReset (bitmap : Bitmap) (bitIdx : ℕ) : Bitmap :=
  { bitmap with
    bits := update bitmap.bits (elemIdx bitIdx)
      (bitmap.bits (elemIdx bitIdx) &&& ~~~bitMask bitIdx) }

def bitmapSet (bitmap : Bitmap) (idx : ℕ) (value : Bool) : Bitmap :=
  if value then bitmapMark bitmap idx else bitmapReset bitmap idx

def bitmapSetMultiple (bitmap : Bitmap) (start : ℕ) : ℕ → Bool → Bitmap
  | 0, _ => bitmap
  | cnt + 1, value => bitmapSet (bitmapSetMultiple bitmap start cnt value) (start + cnt) value

def bitmapSetAll (bitmap : Bitmap) (value : Bool) : Bitmap :=
  bitmapSetMultiple bitmap 0 bitmap.bitCnt value

def bitmapCreate (memory : ℕ → Word) (bitCnt : ℕ) : Bitmap :=
  bitmapSetAll { bitCnt := bitCnt, bits := memory } false

def bitmapContains (bitmap : Bitmap) (start cnt : ℕ) (value : Bool) : Bool :=
  (List.range cnt).any fun i => bitmapTest bitmap (start + i) == value

def bitmapAll (bitmap : Bitmap) (start cnt : ℕ) : Bool :=
  !bitmapContains bitmap start cnt false

def bitmapScanFrom (bitmap : Bitmap) (cnt : ℕ) (value : Bool) : ℕ → ℕ → Option ℕ
  | 0, _ => none
  | left + 1, i =>
    if !bitmapContains bitmap i cnt (!value) then some i
    else bitmapScanFrom bitmap cnt value left (i + 1)

def bitmapScan (bitmap : Bitmap) (start cnt : ℕ) (value : Bool) : Option ℕ :=
  if cnt ≤ bitmap.bitCnt then
    let last := bitmap.bitCnt - cnt
    bitmapScanFrom bitmap cnt value (last + 1 - start) start
  else none

def bitmapScanAndFlip (bitmap : Bitmap) (start cnt : ℕ) (value : Bool) : Option ℕ × Bitmap :=
  match bitmapScan bitmap start cnt value with
  | some idx => (some idx, bitmapSetMultiple bitmap idx cnt (!value))
  | none => (none, bitmap)

def bitmapFileSize (bitmap : Bitmap) : ℕ := byteCnt bitmap.bitCnt

section

variable (bitmap : Bitmap)
include bitmap

lemma bitmapTest_eq_getLsbD (idx : ℕ) :
  bitmapTest bitmap idx = (bitmap.bits (idx / 32)).getLsbD (idx % 32) := by
  have bound : idx % 32 < 32 := Nat.mod_lt idx (by omega)
  unfold bitmapTest bitMask elemIdx elemBits
  rw [← BitVec.twoPow_eq, BitVec.and_twoPow]
  split
  · next isSet =>
      rw [isSet, bne_iff_ne]
      intro isZero
      have bit := congrArg (fun word : Word => word.getLsbD (idx % 32)) isZero
      simp [bound] at bit
  next notSet =>
    simpa using notSet

@[simp]
lemma bitmapSet_bitCnt (idx : ℕ) (val : Bool) :
  (bitmapSet bitmap idx val).bitCnt = bitmap.bitCnt := by
  cases val <;> rfl

@[simp]
lemma bitmapSetMultiple_bitCnt (start cnt : ℕ) (val : Bool) :
  (bitmapSetMultiple bitmap start cnt val).bitCnt = bitmap.bitCnt := by
  induction cnt with
  | zero => rfl
  | succ cnt ih => rw [bitmapSetMultiple, bitmapSet_bitCnt, ih]

lemma bitmapTest_bitmapSet (idx other : ℕ) (val : Bool) :
  bitmapTest (bitmapSet bitmap idx val) other =
    if other = idx then val else bitmapTest bitmap other := by
  have bound : other % 32 < 32 := Nat.mod_lt other (by omega)
  rw [bitmapTest_eq_getLsbD, bitmapTest_eq_getLsbD]
  by_cases sameElem : other / 32 = idx / 32
  · cases val <;>
      simp only [bitmapSet, bitmapMark, bitmapReset, elemIdx, elemBits, bitMask, sameElem,
        update_self, ← BitVec.twoPow_eq, BitVec.getLsbD_or, BitVec.getLsbD_and,
        BitVec.getLsbD_not, BitVec.getLsbD_twoPow, bound, if_true, if_false,
        Bool.false_eq_true] <;>
      by_cases same : other = idx
    · have inElem : idx % 32 < 32 := Nat.mod_lt idx (by omega)
      simp [same, inElem]
    · have ne : idx % 32 ≠ other % 32 := by omega
      simp [same, ne]
    · simp [same, Nat.mod_lt]
    have ne : idx % 32 ≠ other % 32 := by omega
    simp [same, ne]
  have ne : other ≠ idx := by
    rintro rfl
    exact sameElem rfl
  cases val <;>
    simp [bitmapSet, bitmapMark, bitmapReset, elemIdx, elemBits, sameElem, ne]

lemma bitmapTest_bitmapSetMultiple (start cnt other : ℕ) (val : Bool) :
  bitmapTest (bitmapSetMultiple bitmap start cnt val) other =
    if start ≤ other ∧ other < start + cnt then val else bitmapTest bitmap other := by
  induction cnt with
  | zero =>
    rw [bitmapSetMultiple, if_neg (by omega)]
  | succ cnt ih =>
    rw [bitmapSetMultiple, bitmapTest_bitmapSet, ih]
    by_cases last : other = start + cnt
    · rw [if_pos last, if_pos (by omega)]
    by_cases inside : start ≤ other ∧ other < start + cnt
    · rw [if_neg last, if_pos inside, if_pos (by omega)]
    · rw [if_neg last, if_neg inside, if_neg (by omega)]

end

variable {bitmap : Bitmap} {start cnt idx : ℕ} {val : Bool}

lemma bitmapContains_eq_false_iff : bitmapContains bitmap start cnt val = false ↔
    ∀ i, i < cnt → bitmapTest bitmap (start + i) = !val := by
  simp only [bitmapContains, List.any_eq_false, List.mem_range]
  apply forall_congr'
  intro i
  apply imp_congr_right
  intro _
  cases bitmapTest bitmap (start + i) <;> cases val <;> simp

lemma bitmapAll_eq_true_iff :
  bitmapAll bitmap start cnt = true ↔ ∀ i, i < cnt → bitmapTest bitmap (start + i) = true := by
  simp [bitmapAll, bitmapContains_eq_false_iff]

lemma bitmapScanFrom_eq_some {left : ℕ}
  (found : bitmapScanFrom bitmap cnt val left start = some idx) :
  start ≤ idx ∧ idx < start + left ∧ ∀ i, i < cnt → bitmapTest bitmap (idx + i) = val := by
  induction left generalizing start with
  | zero => simp [bitmapScanFrom] at found
  | succ left ih =>
    rw [bitmapScanFrom] at found
    split at found
    · next fits =>
        simp only [Bool.not_eq_true', Option.some.injEq] at fits found
        subst found
        refine ⟨le_rfl, by omega, ?_⟩
        intro i bound
        simpa using bitmapContains_eq_false_iff.mp fits i bound
    rcases ih found with ⟨lower, upper, equal⟩
    exact ⟨by omega, by omega, equal⟩

lemma bitmapScanFrom_eq_none {left : ℕ}
  (missing : bitmapScanFrom bitmap cnt val left start = none) (idx : ℕ) (lower : start ≤ idx)
  (upper : idx < start + left) : ∃ i, i < cnt ∧ bitmapTest bitmap (idx + i) = !val := by
  induction left generalizing start with
  | zero => omega
  | succ left ih =>
    rw [bitmapScanFrom] at missing
    split at missing
    · simp at missing
    next blocked =>
      by_cases here : idx = start
      · subst here
        by_contra none
        apply blocked
        simp only [Bool.not_eq_true', bitmapContains_eq_false_iff]
        intro i bound
        by_contra ne
        apply none
        refine ⟨i, bound, ?_⟩
        revert ne
        cases bitmapTest bitmap (idx + i) <;> cases val <;> simp
      · exact ih missing (by omega) (by omega)

lemma bitmapScan_eq_some (found : bitmapScan bitmap start cnt val = some idx) :
  start ≤ idx ∧ idx + cnt ≤ bitmap.bitCnt ∧ ∀ i, i < cnt → bitmapTest bitmap (idx + i) = val := by
  unfold bitmapScan at found
  split at found
  · rcases bitmapScanFrom_eq_some found with ⟨lower, upper, equal⟩
    exact ⟨lower, by omega, equal⟩
  · simp at found

lemma bitmapScan_eq_none (missing : bitmapScan bitmap start cnt val = none) (idx : ℕ)
  (lower : start ≤ idx) (fits : idx + cnt ≤ bitmap.bitCnt) :
  ∃ i, i < cnt ∧ bitmapTest bitmap (idx + i) = !val := by
  unfold bitmapScan at missing
  rw [if_pos (by omega)] at missing
  exact bitmapScanFrom_eq_none missing idx lower (by omega)

lemma getLsbD_lastMask (bitmap : Bitmap) {posn : ℕ} (bound : posn < 32)
  (inUse : bitmap.bitCnt % 32 ≠ 0 → posn < bitmap.bitCnt % 32) :
  (lastMask bitmap).getLsbD posn = true := by
  unfold lastMask elemBits
  simp only
  split
  · next incomplete =>
      have lt := inUse incomplete
      have small : bitmap.bitCnt % 32 < 32 := Nat.mod_lt _ (by omega)
      have power : 2 ^ (bitmap.bitCnt % 32) < 2 ^ 32 := Nat.pow_lt_pow_right (by omega) small
      have pos : 0 < 2 ^ (bitmap.bitCnt % 32) := Nat.two_pow_pos _
      have val : ((1#32 <<< (bitmap.bitCnt % 32)) - 1#32).toNat = 2 ^ (bitmap.bitCnt % 32) - 1 := by
        rw [BitVec.toNat_sub, BitVec.toNat_shiftLeft]
        simp only [BitVec.toNat_ofNat]
        omega
      rw [BitVec.getLsbD, val]
      simpa using lt
  have allSet : ∀ bit : Fin 32, (-1#32).getLsbD bit = true := by decide
  exact allSet ⟨posn, bound⟩

lemma bitmapTest_masked (bitmap : Bitmap) {bits : ℕ → Word}
  (same : ∀ elem, elem < elemCnt bitmap.bitCnt → bits elem = bitmap.bits elem)
  (bound : idx < bitmap.bitCnt) : bitmapTest { bitmap with
      bits := update bits (elemCnt bitmap.bitCnt - 1)
        (bits (elemCnt bitmap.bitCnt - 1) &&& lastMask bitmap) } idx =
    bitmapTest bitmap idx := by
  simp only [elemCnt, elemBits] at same
  rw [bitmapTest_eq_getLsbD, bitmapTest_eq_getLsbD]
  simp only [elemCnt, elemBits]
  by_cases isLast : idx / 32 = (bitmap.bitCnt + 32 - 1) / 32 - 1
  · rw [← isLast, update_self, BitVec.getLsbD_and, same _ (by omega),
      getLsbD_lastMask bitmap (Nat.mod_lt _ (by omega)) (by omega), Bool.and_true]
  · rw [update_of_ne isLast, same _ (by omega)]

lemma bitmapTest_of_bytes {bytes : ℕ → Byte} (bound : idx < bitmap.bitCnt)
  (same : ∀ index, index < byteCnt bitmap.bitCnt → bytes index = bytesOfWords bitmap.bits index) :
  bitmapTest { bitmap with bits := wordsOfBytes bytes } idx = bitmapTest bitmap idx := by
  simp only [byteCnt, elemCnt, elemBits] at same
  rw [bitmapTest_eq_getLsbD, bitmapTest_eq_getLsbD]
  have elem : wordsOfBytes bytes (idx / 32) = bitmap.bits (idx / 32) := by
    rw [← congrFun (wordsOfBytes_bytesOfWords bitmap.bits) (idx / 32)]
    exact wordsOfBytes_congr fun posn posnLt => same _ (by omega)
  rw [← elem]

lemma bitmap_eq_of_test {left right : Bitmap} (bitCnt : left.bitCnt = right.bitCnt)
  (same : ∀ idx, bitmapTest left idx = bitmapTest right idx) : left = right := by
  have bits : left.bits = right.bits := by
    funext elem
    apply BitVec.eq_of_getLsbD_eq
    intro posn posnLt
    have isSame := same (32 * elem + posn)
    rw [bitmapTest_eq_getLsbD, bitmapTest_eq_getLsbD,
      show (32 * elem + posn) / 32 = elem by omega,
      show (32 * elem + posn) % 32 = posn by omega] at isSame
    exact isSame
  cases left
  cases right
  simp only at bitCnt bits
  rw [bitCnt, bits]

end Pintos
