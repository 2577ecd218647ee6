import Pintos.Kernel.Stop
import Pintos.Library.Words

/-!
# Sorting and searching

The functions of `lib/stdlib.c` on arrays of elements of `size` bytes each. A comparison function
gets the bytes of two elements and the auxiliary data. An index or a pointer that is not one of
an element of the array is a fault.

`binary_search` keeps two pointers around the elements that may equal the key. Everything before
the first one is less than the key and everything from the last one on is greater.
-/

namespace Pintos

namespace Stdlib

open Pintos.Computation

abbrev Element (size : ℕ) := Fin size → Byte

abbrev Comparison (size : ℕ) (Aux : Type) := Element size → Element size → Aux → ℤ

/-- The comparison is a total preorder: two elements the other way round compare the other way
round, and "not greater" is transitive. -/
structure TotalPreorder {size : ℕ} (order : Element size → Element size → ℤ) : Prop where
  reversed : ∀ a b, order a b < 0 ↔ 0 < order b a
  trans : ∀ a b c, order a b ≤ 0 → order b c ≤ 0 → order a c ≤ 0

abbrev Arrays := Computation Stop (ℕ → Byte)

def element (bytes : ℕ → Byte) (size index : ℕ) : Element size :=
  fun position => bytes ((index - 1) * size + position)

section Sorting

def swapByte (a b : ℕ) (bytes : ℕ → Byte) (i : ℕ) : ℕ → Byte :=
  Function.update (Function.update bytes (a + i) (bytes (b + i))) (b + i) (bytes (a + i))

variable {Aux : Type} (total size : ℕ)

def checkIndex (index : ℕ) : Arrays Unit :=
  if 1 ≤ index ∧ index ≤ total then pure () else stop .fault

def doSwap (aIdx bIdx : ℕ) : Arrays Unit := do
  checkIndex total aIdx
  checkIndex total bIdx
  updates ((List.range size).foldl (swapByte ((aIdx - 1) * size) ((bIdx - 1) * size)))

variable (compare : Comparison size Aux) (aux : Aux)

def doCompare (aIdx bIdx : ℕ) : Arrays ℤ := do
  checkIndex total aIdx
  checkIndex total bIdx
  reads fun bytes => compare (element bytes size aIdx) (element bytes size bIdx) aux

/-- One of the two tests of `heapify`: the index of the larger one, if `candidate` is an index. -/
def pickMax (cnt candidate max : ℕ) : Arrays ℕ :=
  if candidate ≤ cnt then do
    let result ← doCompare total size compare aux candidate max
    pure (if result > 0 then candidate else max)
  else pure max

/-- The loop of `heapify`. The indexes are of type `size_t`. -/
def heapify (cnt : ℕ) : ℕ → ℕ → Arrays Unit
  | 0, _ => stop .running
  | fuel + 1, i => do
    let left := 2 * i % 2 ^ 32
    let right := (2 * i + 1) % 2 ^ 32
    let max ← pickMax total size compare aux cnt left i
    let max ← pickMax total size compare aux cnt right max
    if max = i then pure ()
    else do
      doSwap total size i max
      heapify cnt fuel max

def buildLoop (fuel : ℕ) : ℕ → Arrays Unit
  | 0 => pure ()
  | i + 1 => do
    heapify total size compare aux total fuel (i + 1)
    buildLoop fuel i

def sortLoop (fuel : ℕ) : ℕ → Arrays Unit
  | i + 2 => do
    doSwap total size 1 (i + 2)
    heapify total size compare aux (i + 1) fuel 1
    sortLoop fuel (i + 1)
  | _ => pure ()

def sort (fuel cnt : ℕ) : Arrays Unit :=
  if size > 0 then do
    buildLoop cnt size compare aux fuel (cnt / 2)
    sortLoop cnt size compare aux fuel cnt
  else stop .panic

def compareThunk (a b : Element size) (aux : Element size → Element size → ℤ) : ℤ := aux a b

def qsort (fuel cnt : ℕ) (compare : Element size → Element size → ℤ) : Arrays Unit :=
  sort size (compareThunk size) compare fuel cnt

end Sorting

section Searching

variable {Aux : Type} {size : ℕ} (bytes : ℕ → Byte) (array cnt : ℕ) (compare : Comparison size Aux)
  (aux : Aux) (key : Element size) {order : Element size → Element size → ℤ}

def compareAt (pointer : ℕ) : Except Stop ℤ :=
  if array ≤ pointer ∧ (pointer - array) % size = 0 ∧ (pointer - array) / size < cnt then
    .ok (compare key (element bytes size ((pointer - array) / size + 1)) aux)
  else .error .fault

def searchLoop : ℕ → ℕ → ℕ → Except Stop (Option ℕ)
  | 0, _, _ => .error .running
  | fuel + 1, first, last =>
    if first < last then
      let range := (last - first) / size
      let middle := first + range / 2 * size
      match compareAt bytes array cnt compare aux key middle with
      | .error reason => .error reason
      | .ok cmp =>
        if cmp < 0 then searchLoop fuel first middle
        else if cmp > 0 then searchLoop fuel (middle + size) last
        else .ok (some middle)
    else .ok none

def binarySearch (fuel : ℕ) : Except Stop (Option ℕ) :=
  searchLoop bytes array cnt compare aux key fuel array (array + size * cnt)

def Ordered : Prop :=
  ∀ one two, 0 < one → one < two → two ≤ cnt →
    compare (element bytes size one) (element bytes size two) aux ≤ 0

def Finds (result : Option ℕ) : Prop :=
  match result with
  | some pointer => ∃ index < cnt, pointer = array + index * size ∧
      compare key (element bytes size (index + 1)) aux = 0
  | none => ∀ index < cnt, compare key (element bytes size (index + 1)) aux ≠ 0

variable {bytes array cnt compare aux key}

lemma compareAt_eq (positive : 0 < size) {idx : ℕ} (inside : idx < cnt) :
  compareAt bytes array cnt compare aux key (array + idx * size) =
    .ok (compare key (element bytes size (idx + 1)) aux) := by
  have isIdx : idx * size / size = idx := Nat.mul_div_cancel _ positive
  rw [compareAt, Nat.add_sub_cancel_left, if_pos ⟨Nat.le_add_right _ _, Nat.mul_mod_left _ _,
    isIdx.symm ▸ inside⟩, isIdx]

lemma TotalPreorder.pos_of_le (preorder : TotalPreorder order) {a b c : Element size}
  (greater : 0 < order a b) (le : order c b ≤ 0) : 0 < order a c := by
  by_contra notGreater
  have trans := preorder.trans a c b (not_lt.mp notGreater) le
  omega

lemma TotalPreorder.neg_of_le (preorder : TotalPreorder order) {a b c : Element size}
  (less : order a b < 0) (le : order b c ≤ 0) : order a c < 0 := by
  rw [preorder.reversed] at less ⊢
  by_contra notLess
  have trans := preorder.trans b c a le (not_lt.mp notLess)
  omega

lemma searchLoop_finds (positive : 0 < size) (preorder : TotalPreorder fun a b => compare a b aux)
  (ordered : Ordered bytes cnt compare aux) {fuel low high : ℕ} (enough : high < low + fuel)
  (inside : high ≤ cnt) (le : low ≤ high)
  (less : ∀ idx < low, 0 < compare key (element bytes size (idx + 1)) aux)
  (greater : ∀ idx < cnt, high ≤ idx → compare key (element bytes size (idx + 1)) aux < 0) :
  ∃ res, searchLoop bytes array cnt compare aux key fuel (array + low * size)
    (array + high * size) = .ok res ∧ Finds bytes array cnt compare aux key res := by
  induction fuel generalizing low high with
  | zero => omega
  | succ fuel ih =>
    rw [searchLoop]
    rcases le.eq_or_lt with rfl | lt
    · refine ⟨none, by rw [if_neg (lt_irrefl _)], ?_⟩
      intro idx isInside
      rcases lt_or_ge idx low with before | behind
      · exact (less idx before).ne'
      · exact (greater idx isInside behind).ne
    have pointers : array + low * size < array + high * size :=
      Nat.add_lt_add_left (Nat.mul_lt_mul_of_pos_right lt positive) _
    have isRange : (array + high * size - (array + low * size)) / size = high - low := by
      rw [Nat.add_sub_add_left, ← Nat.sub_mul, Nat.mul_div_cancel _ positive]
    set mid := low + (high - low) / 2 with isMid
    have ptr : array + low * size + (high - low) / 2 * size = array + mid * size := by
      rw [Nat.add_mul, Nat.add_assoc]
    have next : array + mid * size + size = array + (mid + 1) * size := by
      rw [Nat.add_one_mul, Nat.add_assoc]
    rw [if_pos pointers]
    simp only [isRange, ptr, compareAt_eq positive (show mid < cnt by omega)]
    split
    · next isLess =>
        refine ih (by omega) (by omega) (by omega) less ?_
        intro idx isInside behind
        rcases behind.eq_or_lt with rfl | later
        · exact isLess
        · exact preorder.neg_of_le isLess (ordered _ _ (by omega) (by omega) isInside)
    split
    · next isGreater =>
        rw [next]
        refine ih (by omega) inside (by omega) ?_ greater
        intro idx before
        rcases (Nat.lt_succ_iff.mp before).eq_or_lt with rfl | prior
        · exact isGreater
        · exact preorder.pos_of_le isGreater (ordered _ _ (by omega) (by omega) (by omega))
    · exact ⟨_, rfl, mid, by omega, rfl, by omega⟩

/-- Searching in an array that is in order returns, compares the key with elements of the array
only, and finds an element that equals it exactly if there is one. -/
theorem binarySearch_exact (positive : 0 < size)
    (preorder : TotalPreorder fun a b => compare a b aux)
    (ordered : Ordered bytes cnt compare aux) :
    ∃ fuel result, binarySearch bytes array cnt compare aux key fuel = .ok result ∧
      Finds bytes array cnt compare aux key result := by
  refine ⟨cnt + 1, ?_⟩
  have found := @searchLoop_finds _ _ bytes array cnt compare aux key positive preorder ordered
    (cnt + 1) 0 cnt (by omega) le_rfl (Nat.zero_le _) (by simp) (by omega)
  rw [Nat.zero_mul, Nat.mul_comm] at found
  exact found

def byteOrder (a b : Element 1) (_ : Unit) : ℤ := (a 0).toNat - (b 0).toNat

lemma byteOrder_preorder : TotalPreorder fun a b => byteOrder a b () := by
  constructor
  · intro a b
    simp only [byteOrder]
    omega
  intro a b c
  simp only [byteOrder]
  omega

/-- The bytes 2, 4 and 6 at the address 100, where 6 is found. -/
theorem binarySearch_exact_bytes : ∃ fuel result,
    binarySearch (fun offset => BitVec.ofNat 8 (2 * offset + 2)) 100 3 byteOrder () (fun _ => 6)
      fuel = .ok result ∧ Finds (fun offset => BitVec.ofNat 8 (2 * offset + 2)) 100 3 byteOrder ()
        (fun _ => 6) result := by
  refine binarySearch_exact Nat.one_pos byteOrder_preorder ?_
  intro one two positive less inside
  simp only [byteOrder, element]
  simp
  omega

end Searching

end Stdlib

end Pintos
