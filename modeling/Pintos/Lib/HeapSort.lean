import Pintos.Lib.Stdlib
import Pintos.Library.BinaryHeaps

/-!
# Heap sort

`sort` makes a heap of the array and takes its largest element away again and again. As long as
twice an index is a number of 32 bits, that is for arrays of less than `2 ^ 31` elements, each step
is one on numbered places: what is exchanged stays in the part of the array that is still a heap,
and everything behind that part is in order and not less than anything before it.

An array of one-byte elements may be longer. An element that sinks to the place `2 ^ 31` is then
compared with the one in place `0`, which is not part of the array.
-/

namespace Pintos

namespace Stdlib

open Pintos.Computation

variable {Aux : Type} {total cnt size place : ℕ} {compare : Comparison size Aux} {aux : Aux}
  {bytes : ℕ → Byte} {a b i : ℕ}

def keys (size : ℕ) (bytes : ℕ → Byte) (place : ℕ) : Element size :=
  if place = 0 then fun _ => 0 else element bytes size place

lemma keys_of_pos (pos : 0 < place) :
  keys size bytes place = element bytes size place := if_neg (by omega)

section Swapping

lemma foldl_swapByte (apart : a = b ∨ a + size ≤ b ∨ b + size ≤ a) {n : ℕ} (atMost : n ≤ size) :
  (∀ j < n, (List.range n).foldl (swapByte a b) bytes (a + j) = bytes (b + j) ∧
    (List.range n).foldl (swapByte a b) bytes (b + j) = bytes (a + j)) ∧
  ∀ offset, (∀ j < n, offset ≠ a + j ∧ offset ≠ b + j) →
    (List.range n).foldl (swapByte a b) bytes offset = bytes offset := by
  induction n with
  | zero => simp
  | succ n ih =>
    rcases ih (by omega) with ⟨swapped, others⟩
    rw [List.range_succ, List.foldl_append, List.foldl_cons, List.foldl_nil, swapByte]
    generalize (List.range n).foldl (swapByte a b) bytes = middle at *
    constructor
    · intro j isBelow
      grind
    intro offset isOther
    have before := others offset fun j isBelow => isOther j (by omega)
    have here := isOther n (by omega)
    rw [Function.update_of_ne here.2, Function.update_of_ne here.1, before]

lemma block_inj {left right p q : ℕ} (isP : p < size) (isQ : q < size)
  (same : left * size + p = right * size + q) : left = right := by
  have quotient := congrArg (· / size) same
  have pos : 0 < size := by omega
  simpa [Nat.add_comm _ p, Nat.add_comm _ q, Nat.add_mul_div_right, pos,
    Nat.div_eq_of_lt isP, Nat.div_eq_of_lt isQ] using quotient

lemma doSwap_eq (aInside : 1 ≤ a ∧ a ≤ total) (bInside : 1 ≤ b ∧ b ≤ total) :
  ∃ after, doSwap total size a b bytes = .ok ((), after) ∧
    keys size after = keys size bytes ∘ Equiv.swap a b := by
  refine ⟨_, by rw [doSwap, checkIndex, checkIndex, if_pos aInside, if_pos bInside]; rfl, ?_⟩
  have apart : (a - 1) * size = (b - 1) * size ∨ (a - 1) * size + size ≤ (b - 1) * size ∨
      (b - 1) * size + size ≤ (a - 1) * size := by
    rcases Nat.lt_trichotomy a b with less | same | greater
    · have upper := Nat.mul_le_mul_right size (show a - 1 + 1 ≤ b - 1 by omega)
      rw [Nat.add_one_mul] at upper
      omega
    · exact Or.inl (by rw [same])
    have upper := Nat.mul_le_mul_right size (show b - 1 + 1 ≤ a - 1 by omega)
    rw [Nat.add_one_mul] at upper
    omega
  rcases @foldl_swapByte size bytes _ _ apart size le_rfl with ⟨swapped, others⟩
  funext place
  rw [Function.comp_apply, Equiv.swap_apply_def]
  by_cases isZero : place = 0
  · rw [if_neg (by omega), if_neg (by omega), keys, keys, if_pos isZero, if_pos isZero]
  rw [keys, if_neg isZero]
  funext position
  split
  · next isA =>
      rw [isA, keys_of_pos (by omega)]
      exact (swapped position position.isLt).1
  next notA =>
    split
    · next isB =>
        rw [isB, keys_of_pos (by omega)]
        exact (swapped position position.isLt).2
    next notB =>
      rw [keys_of_pos (by omega)]
      refine others _ fun j isBelow => ⟨fun same => notA ?_, fun same => notB ?_⟩
      · have idx := block_inj position.isLt isBelow same
        omega
      have idx := block_inj position.isLt isBelow same
      omega

end Swapping

section Sifting

def NotGreater (compare : Comparison size Aux) (aux : Aux) (a b : Element size) : Prop :=
  compare a b aux ≤ 0

lemma doCompare_eq (aInside : 1 ≤ a ∧ a ≤ total) (bInside : 1 ≤ b ∧ b ≤ total) :
  doCompare total size compare aux a b bytes =
    .ok (compare (keys size bytes a) (keys size bytes b) aux, bytes) := by
  rw [doCompare, checkIndex, checkIndex, if_pos aInside, if_pos bInside, keys_of_pos aInside.1,
    keys_of_pos bInside.1]
  rfl

lemma doCompare_zero : doCompare total size compare aux 0 b bytes = .error .fault := by
  rfl

variable {candidate max : ℕ}

lemma pickMax_eq (isPlace : 1 ≤ candidate) (atMost : cnt ≤ total)
  (inside : 1 ≤ max ∧ max ≤ total) :
  pickMax total size compare aux cnt candidate max bytes =
    .ok (if candidate ≤ cnt ∧ 0 < compare (keys size bytes candidate) (keys size bytes max) aux
      then candidate else max, bytes) := by
  rw [pickMax]
  by_cases isIdx : candidate ≤ cnt
  · rw [if_pos isIdx, bind_of_ok (doCompare_eq ⟨isPlace, isIdx.trans atMost⟩ inside)]
    simp [isIdx]
  · simp [isIdx]

def largest (compare : Comparison size Aux) (aux : Aux) (key : ℕ → Element size) (cnt i : ℕ) : ℕ :=
  let max := if 2 * i ≤ cnt ∧ 0 < compare (key (2 * i)) (key i) aux then 2 * i else i
  if 2 * i + 1 ≤ cnt ∧ 0 < compare (key (2 * i + 1)) (key max) aux then 2 * i + 1 else max

lemma heapify_step (fuel : ℕ) (pos : 0 < i) (small : i < 2 ^ 31) (inside : i ≤ cnt)
  (atMost : cnt ≤ total) :
  heapify total size compare aux cnt (fuel + 1) i bytes =
    (if largest compare aux (keys size bytes) cnt i = i then pure ()
    else doSwap total size i (largest compare aux (keys size bytes) cnt i) >>= fun _ =>
      heapify total size compare aux cnt fuel (largest compare aux (keys size bytes) cnt i) :
      Arrays Unit) bytes := by
  rw [heapify]
  simp only [Nat.mod_eq_of_lt (show 2 * i < 2 ^ 32 by omega),
    Nat.mod_eq_of_lt (show 2 * i + 1 < 2 ^ 32 by omega)]
  rw [bind_of_ok (pickMax_eq (by omega) atMost ⟨pos, inside.trans atMost⟩),
    bind_of_ok (pickMax_eq (by omega) atMost ?_)]
  · rfl
  · split <;> omega

variable {key : ℕ → Element size}

lemma largest_spec (preorder : TotalPreorder fun a b => compare a b aux) :
  (largest compare aux key cnt i = i ∨
    Below i (largest compare aux key cnt i) ∧ largest compare aux key cnt i ≤ cnt) ∧
  NotGreater compare aux (key i) (key (largest compare aux key cnt i)) ∧
  ∀ child, Below i child → child ≤ cnt →
    NotGreater compare aux (key child) (key (largest compare aux key cnt i)) := by
  have reversed := preorder.reversed
  have trans := preorder.trans
  simp only [largest, Below, NotGreater]
  refine ⟨?_, ?_, ?_⟩
  · grind
  · grind
  rintro child (rfl | rfl) isInside
  · grind
  · grind

variable {low fuel : ℕ}

lemma heapify_heap (preorder : TotalPreorder fun a b => compare a b aux) (pos : 0 < low)
  (isLow : low ≤ i) (inside : i ≤ cnt) (atMost : cnt ≤ total) (small : total < 2 ^ 31)
  (enough : cnt < i + fuel)
  (heap : HeapExcept (NotGreater compare aux) (keys size bytes) low cnt i) :
  ∃ after, heapify total size compare aux cnt fuel i bytes = .ok ((), after) ∧
    Rearranged cnt (keys size bytes) (keys size after) ∧
    HeapFrom (NotGreater compare aux) (keys size after) low cnt := by
  induction fuel generalizing i bytes with
  | zero => omega
  | succ fuel ih =>
    rw [heapify_step fuel (by omega) (by omega) inside atMost]
    rcases @largest_spec _ cnt size compare aux i (keys size bytes) preorder with
      ⟨isOne, larger, isLargest⟩
    generalize largest compare aux (keys size bytes) cnt i = max at *
    by_cases isDone : max = i
    · subst isDone
      exact ⟨bytes, by rw [if_pos rfl]; rfl, .refl _ _, heap.heapFrom isLargest⟩
    have isBelow := (isOne.resolve_left isDone).1
    have isInside := (isOne.resolve_left isDone).2
    have isLater : i < max := by
      unfold Below at isBelow
      omega
    rcases @doSwap_eq total size bytes i max (by omega) (by omega) with
      ⟨swapped, ran, isSwapped⟩
    have sunk := heap.sink (by omega) isLow isBelow isInside larger isLargest
    rw [← isSwapped] at sunk
    rcases ih (by omega) isInside (by omega) sunk with ⟨after, runs, moved, isHeap⟩
    refine ⟨after, ?_, ?_, isHeap⟩
    · rw [if_neg isDone, bind_of_ok ran, runs]
    rw [isSwapped] at moved
    exact (Rearranged.swap ⟨by omega, inside⟩ ⟨by omega, isInside⟩).trans moved

lemma buildLoop_heap (preorder : TotalPreorder fun a b => compare a b aux)
  (small : total < 2 ^ 31) (enough : total ≤ fuel) (inside : i ≤ total)
  (heap : HeapFrom (NotGreater compare aux) (keys size bytes) (i + 1) total) :
  ∃ after, buildLoop total size compare aux fuel i bytes = .ok ((), after) ∧
    Rearranged total (keys size bytes) (keys size after) ∧
    HeapFrom (NotGreater compare aux) (keys size after) 1 total := by
  induction i generalizing bytes with
  | zero => exact ⟨bytes, rfl, .refl _ _, heap⟩
  | succ i ih =>
    rcases heapify_heap preorder (Nat.succ_pos i) le_rfl inside le_rfl small
      (show total < i + 1 + fuel by omega) (heap.except (Nat.succ_pos i))
      with ⟨mid, ran, moved, isHeap⟩
    rcases ih (by omega) isHeap with ⟨after, runs, rest, built⟩
    exact ⟨after, by rw [buildLoop, bind_of_ok ran, runs], moved.trans rest, built⟩

def SortedFrom (compare : Comparison size Aux) (aux : Aux) (key : ℕ → Element size)
    (i total : ℕ) : Prop :=
  ∀ one two, 0 < one → one < two → i < two → two ≤ total →
    NotGreater compare aux (key one) (key two)

lemma SortedFrom.extracted (preorder : TotalPreorder fun a b => compare a b aux)
  {after : ℕ → Element size} (heap : HeapFrom (NotGreater compare aux) key 1 (i + 2))
  (sorted : SortedFrom compare aux key (i + 2) total)
  (moved : Rearranged (i + 1) (key ∘ Equiv.swap 1 (i + 2)) after) :
  SortedFrom compare aux after (i + 1) total := by
  have isRefl : Std.Refl (NotGreater compare aux) := ⟨fun a => by
    have same := preorder.reversed a a
    unfold NotGreater
    omega⟩
  have isTrans : IsTrans _ (NotGreater compare aux) := ⟨preorder.trans⟩
  intro one two pos less isBehind inside
  rw [moved.outside isBehind]
  have origin : ∃ old, 0 < old ∧ (old ≤ i + 2 ∨ old = one) ∧ after one = key old := by
    by_cases isBefore : one ≤ i + 1
    · rcases moved.exists_place ⟨pos, isBefore⟩ with ⟨old, isOld, same⟩
      refine ⟨_, ?_, ?_, same⟩
      all_goals
        grind
    rw [moved.outside (by omega)]
    refine ⟨_, ?_, ?_, rfl⟩
    all_goals
      grind
  rcases origin with ⟨old, isPlace, isOld, same⟩
  rw [same, Function.comp_apply]
  by_cases isNext : two = i + 2
  · rw [isNext, Equiv.swap_apply_right]
    exact heap.le_root isPlace (by omega)
  rw [Equiv.swap_apply_of_ne_of_ne (by omega) isNext]
  exact sorted old two isPlace (by omega) (by omega) inside

lemma sortLoop_sorted (preorder : TotalPreorder fun a b => compare a b aux)
  (small : total < 2 ^ 31) (enough : total ≤ fuel) (inside : i ≤ total)
  (heap : HeapFrom (NotGreater compare aux) (keys size bytes) 1 i)
  (sorted : SortedFrom compare aux (keys size bytes) i total) :
  ∃ after, sortLoop total size compare aux fuel i bytes = .ok ((), after) ∧
    Rearranged total (keys size bytes) (keys size after) ∧
    SortedFrom compare aux (keys size after) 1 total := by
  induction i generalizing bytes with
  | zero => exact ⟨bytes, rfl, .refl _ _, fun one two pos less _ => sorted one two pos
      less (by omega)⟩
  | succ i ih =>
    cases i with
    | zero => exact ⟨bytes, rfl, .refl _ _, sorted⟩
    | succ i =>
      rcases @doSwap_eq total size bytes 1 (i + 2) (by omega) (by omega) with
        ⟨swapped, ran, isSwapped⟩
      have except : HeapExcept (NotGreater compare aux) (keys size swapped) 1 (i + 1) 1 := by
        rw [isSwapped]
        refine HeapFrom.except ?_ Nat.one_pos
        intro parent child isParent isBelow isInside
        have isChild : parent < child := by
          unfold Below at isBelow
          omega
        rw [Function.comp_apply, Function.comp_apply,
          Equiv.swap_apply_of_ne_of_ne (by omega) (by omega),
          Equiv.swap_apply_of_ne_of_ne (by omega) (by omega)]
        exact heap parent child (by omega) isBelow (by omega)
      rcases heapify_heap preorder Nat.one_pos le_rfl (by omega) (show i + 1 ≤ total by omega)
        small (show i + 1 < 1 + fuel by omega) except with ⟨mid, heapified, moved, isHeap⟩
      rw [isSwapped] at moved
      rcases ih (by omega) isHeap (sorted.extracted preorder heap moved) with
        ⟨after, runs, rest, isSorted⟩
      refine ⟨after, ?_, ?_, isSorted⟩
      · rw [sortLoop, bind_of_ok ran, bind_of_ok heapified, runs]
      exact ((Rearranged.swap ⟨by omega, by omega⟩ ⟨by omega, inside⟩).trans
        (moved.mono (by omega))).trans rest

end Sifting

section Whole

/-- The function returns, and the array then holds the same elements in order. What lies behind
the array is left as it was. -/
def Sorts (order : Element size → Element size → ℤ) (cnt : ℕ) (function : ℕ → Arrays Unit)
    (bytes : ℕ → Byte) : Prop :=
  ∃ fuel after, function fuel bytes = .ok ((), after) ∧
    ((List.range' 1 cnt).map (element after size)).Perm
      ((List.range' 1 cnt).map (element bytes size)) ∧
    (∀ one two, 0 < one → one < two → two ≤ cnt →
      order (element after size one) (element after size two) ≤ 0) ∧
    ∀ offset, cnt * size ≤ offset → after offset = bytes offset

/-- `sort` and `qsort` sort arrays of this length. -/
def SortsRight (size cnt : ℕ) : Prop :=
  (∀ (Aux : Type) (compare : Comparison size Aux) (aux : Aux) (bytes : ℕ → Byte),
    TotalPreorder (fun a b => compare a b aux) →
      Sorts (fun a b => compare a b aux) cnt (fun fuel => sort size compare aux fuel cnt) bytes) ∧
  ∀ (compare : Element size → Element size → ℤ) (bytes : ℕ → Byte), TotalPreorder compare →
    Sorts compare cnt (fun fuel => qsort size fuel cnt compare) bytes

lemma unchanged_behind {after : ℕ → Byte} (positive : 0 < size)
  (moved : Rearranged cnt (keys size bytes) (keys size after)) {offset : ℕ}
  (isBehind : cnt * size ≤ offset) : after offset = bytes offset := by
  have same := moved.outside (Nat.lt_succ_of_le ((Nat.le_div_iff_mul_le positive).mpr isBehind))
  rw [keys_of_pos (Nat.succ_pos _), keys_of_pos (Nat.succ_pos _)] at same
  have isByte := congrFun same ⟨offset % size, Nat.mod_lt _ positive⟩
  simpa [element, Nat.div_add_mod'] using isByte

lemma map_keys (bytes : ℕ → Byte) :
  (List.range' 1 cnt).map (keys size bytes) = (List.range' 1 cnt).map (element bytes size) := by
  refine List.map_congr_left ?_
  intro place isPlace
  rw [List.mem_range'_1] at isPlace
  exact keys_of_pos (by omega)

lemma sort_sorts (pos : 0 < size) (small : cnt < 2 ^ 31)
  (preorder : TotalPreorder fun a b => compare a b aux) :
  Sorts (fun a b => compare a b aux) cnt (fun fuel => sort size compare aux fuel cnt) bytes := by
  have leaves : HeapFrom (NotGreater compare aux) (keys size bytes) (cnt / 2 + 1) cnt := by
    intro parent child isParent isBelow inside
    unfold Below at isBelow
    omega
  rcases buildLoop_heap preorder small le_rfl (by omega) leaves with
    ⟨mid, built, moved, isHeap⟩
  rcases sortLoop_sorted preorder small le_rfl le_rfl isHeap (by intro one two; omega) with
    ⟨after, extracted, rest, isSorted⟩
  refine ⟨cnt, after, ?_, ?_, ?_, ?_⟩
  · change sort size compare aux cnt cnt bytes = _
    rw [sort, if_pos pos, bind_of_ok built, extracted]
  · rw [← map_keys, ← map_keys]
    exact (moved.trans rest).perm
  · intro one two isPlace less inside
    have le := isSorted one two isPlace less (by omega) inside
    rwa [keys_of_pos isPlace, keys_of_pos (by omega)] at le
  intro ofs isBehind
  exact unchanged_behind pos (moved.trans rest) isBehind

end Whole

section Overflow

def marked (offset : ℕ) : Byte := if offset = 2 ^ 31 - 1 then 1 else 0

lemma keys_marked (posn : Fin 1) :
  keys 1 marked place posn = if place = 2 ^ 31 then 1 else 0 := by
  have isZero : (posn : ℕ) = 0 := by omega
  unfold keys element marked
  by_cases isNone : place = 0
  · simp [isNone]
  simp only [isNone]
  exact if_congr (by omega) rfl rfl

variable {order : Comparison 1 Aux} (isOrder : ∀ a b, order a b aux = byteOrder a b ())

include isOrder

lemma heapify_above (fuel : ℕ) (above : 2 ^ 30 < i) (inside : i ≤ cnt / 2)
  (small : cnt < 2 ^ 32) : heapify cnt 1 order aux cnt (fuel + 1) i marked = .ok ((), marked) := by
  rw [heapify_step fuel (by omega) (by omega) (by omega) le_rfl, largest]
  simp only [isOrder, byteOrder, keys_marked]
  rw [if_neg (show ¬i = 2 ^ 31 by omega), if_neg (show ¬2 * i = 2 ^ 31 by omega),
    if_neg (show ¬2 * i + 1 = 2 ^ 31 by omega)]
  simp

section

variable (fuel : ℕ) (large : 2 ^ 31 ≤ cnt) (small : cnt < 2 ^ 32)

include fuel large small

lemma heapify_marked :
  ∃ reason, heapify cnt 1 order aux cnt fuel (2 ^ 30) marked = .error reason := by
  cases fuel with
  | zero => exact ⟨_, rfl⟩
  | succ fuel =>
    have isLargest : largest order aux (keys 1 marked) cnt (2 ^ 30) = 2 ^ 31 := by
      simp only [largest, isOrder, byteOrder]
      rw [if_pos (show 2 * 2 ^ 30 ≤ cnt ∧ _ from ⟨by omega, by decide⟩),
        if_neg (fun isRight => absurd isRight.2 (by decide))]
      rfl
    rw [heapify_step fuel (by decide) (by decide) (by omega) le_rfl, isLargest,
      if_neg (by decide)]
    rcases @doSwap_eq cnt 1 marked (2 ^ 30) (2 ^ 31) (by omega) (by omega) with
      ⟨after, ran, -⟩
    rw [bind_of_ok ran]
    cases fuel with
    | zero => exact ⟨_, rfl⟩
    | succ fuel =>
      refine ⟨.fault, ?_⟩
      rw [heapify, bind_of_error]
      rw [show 2 * 2 ^ 31 % 2 ^ 32 = 0 by decide, pickMax, if_pos (Nat.zero_le _),
        bind_of_error doCompare_zero]

lemma buildLoop_marked (above : 2 ^ 30 ≤ i) (inside : i ≤ cnt / 2) :
  ∃ reason, buildLoop cnt 1 order aux fuel i marked = .error reason := by
  induction i, above using Nat.le_induction with
  | base =>
    rcases heapify_marked isOrder fuel large small with ⟨reason, stopped⟩
    exact ⟨reason, bind_of_error stopped⟩
  | succ i above ih =>
    cases fuel with
    | zero => exact ⟨_, rfl⟩
    | succ fuel =>
      rcases ih (by omega) with ⟨reason, stopped⟩
      rw [buildLoop, bind_of_ok (heapify_above isOrder fuel (by omega) inside small)]
      exact ⟨reason, stopped⟩

lemma sort_marked :
  ∃ reason, sort 1 order aux fuel cnt marked = .error reason := by
  rcases buildLoop_marked isOrder fuel large small (show 2 ^ 30 ≤ cnt / 2 by omega) le_rfl with
    ⟨reason, stopped⟩
  exact ⟨reason, by rw [sort, if_pos Nat.one_pos, bind_of_error stopped]⟩

end

end Overflow

lemma not_sortsRight_of_large (large : 2 ^ 31 ≤ cnt) (small : cnt < 2 ^ 32) :
  ¬SortsRight 1 cnt := by
  intro right
  rcases right.1 Unit byteOrder () marked byteOrder_preorder with ⟨fuel, after, ran, -⟩
  rcases @sort_marked _ cnt () byteOrder (fun _ _ => rfl) fuel large small with
    ⟨reason, stopped⟩
  exact absurd (stopped.symm.trans ran) (by simp)

/-- `sort` and `qsort` are right exactly for arrays of less than `2 ^ 31` elements. -/
theorem sortsRight_iff (positive : 0 < size) (representable : cnt * size < 2 ^ 32) :
    SortsRight size cnt ↔ cnt < 2 ^ 31 := by
  constructor
  · intro right
    by_contra large
    have isOne : size = 1 := by
      by_contra differs
      have atLeast := Nat.mul_le_mul (not_lt.mp large) (show 2 ≤ size by omega)
      omega
    subst isOne
    exact not_sortsRight_of_large (not_lt.mp large) (by omega) right
  intro small
  exact ⟨fun Aux compare aux bytes => sort_sorts positive small,
    fun compare bytes => @sort_sorts _ _ _ (compareThunk size) compare bytes positive small⟩

theorem sortsRight_words : SortsRight 4 1000 :=
  (sortsRight_iff (by decide) (by decide)).mpr (by decide)

/-- An array of `2 ^ 31` bytes: the element that sinks to the last place is compared with what
lies before the array. -/
theorem not_sortsRight_half : ¬SortsRight 1 (2 ^ 31) :=
  not_sortsRight_of_large le_rfl (by decide)

end Stdlib

end Pintos
