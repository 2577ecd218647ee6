import Pintos.Library.Overlay

/-!
# Sequences stored in arrays

A list of cells is stored in an array from some position on, and a range of an array
is read as a list. What has been stored is read back, and ranges apart from it read as
before.
-/

namespace Pintos

open Function

universe u

variable {Cell : Type u}

def storeAt (base : ℕ → Cell) (start : ℕ) (cells : List Cell) : ℕ → Cell :=
  fun index => if start ≤ index then cells[index - start]?.getD (base index) else base index

def rangeOf (base : ℕ → Cell) (start count : ℕ) : List Cell :=
  (List.range count).map fun index => base (start + index)

variable {base other : ℕ → Cell} {start cnt idx : ℕ} {cells : List Cell}

lemma storeAt_outside (outside : idx < start ∨ start + cells.length ≤ idx) :
  storeAt base start cells idx = base idx := by
  rw [storeAt]
  split
  · rw [List.getElem?_eq_none (by omega)]
    rfl
  · rfl

lemma storeAt_inside {cell : Cell} (isCell : cells[idx]? = some cell) :
  storeAt base start cells (start + idx) = cell := by
  rw [storeAt, if_pos (Nat.le_add_right _ _), Nat.add_sub_cancel_left, isCell]
  rfl

@[simp]
lemma storeAt_nil : storeAt base start [] = base := by
  funext idx
  exact storeAt_outside (by simp only [List.length_nil]; omega)

lemma storeAt_cons (cell : Cell) :
  storeAt base start (cell :: cells) = storeAt (update base start cell) (start + 1) cells := by
  funext idx
  by_cases isStart : idx = start
  · rw [isStart, storeAt_outside (Or.inl (Nat.lt_succ_self _)), update_self]
    exact @storeAt_inside _ base start 0 _ _ rfl
  rw [storeAt, storeAt, update_of_ne isStart]
  by_cases behind : start + 1 ≤ idx
  · rw [if_pos (by omega), if_pos behind, show idx - start = idx - (start + 1) + 1 by omega,
      List.getElem?_cons_succ]
  · rw [if_neg (by omega), if_neg behind]

lemma update_storeAt (cell : Cell) :
  update (storeAt base start cells) (start + cells.length) cell =
    storeAt base start (cells ++ [cell]) := by
  funext idx
  by_cases isEnd : idx = start + cells.length
  · rw [isEnd, storeAt_inside]
    simp
  rw [update_of_ne isEnd, storeAt, storeAt]
  split
  · by_cases inside : idx - start < cells.length
    · rw [List.getElem?_append_left inside]
    · rw [List.getElem?_eq_none (by omega), List.getElem?_eq_none (by simp; omega)]
  · rfl

lemma storeAt_storeAt {last cell : Cell} {more : List Cell} :
  storeAt (storeAt base start (cells ++ [last])) (start + cells.length) (cell :: more) =
    storeAt base start (cells ++ cell :: more) := by
  funext idx
  by_cases pre : idx < start + cells.length
  · rw [storeAt_outside (Or.inl pre), storeAt, storeAt]
    split
    · rw [List.getElem?_append_left (by omega), List.getElem?_append_left (by omega)]
    · rfl
  by_cases inside : idx < start + cells.length + (cell :: more).length
  · rcases Nat.exists_eq_add_of_le (Nat.le_of_not_lt pre) with ⟨ofs, rfl⟩
    have isCell := List.getElem?_eq_getElem (show ofs < (cell :: more).length by omega)
    rw [storeAt_inside isCell, Nat.add_assoc, storeAt_inside]
    rw [List.getElem?_append_right (by omega), Nat.add_sub_cancel_left, isCell]
  rw [List.length_cons] at inside
  rw [storeAt_outside (Or.inr (by simp only [List.length_cons]; omega)),
    storeAt_outside (Or.inr (by simp only [List.length_append, List.length_singleton]; omega)),
    storeAt_outside (Or.inr (by simp only [List.length_append, List.length_cons]; omega))]

@[simp]
lemma rangeOf_length : (rangeOf base start cnt).length = cnt := by
  simp [rangeOf]

lemma rangeOf_congr (agree : ∀ idx, idx < cnt → base (start + idx) = other (start + idx)) :
  rangeOf base start cnt = rangeOf other start cnt := by
  refine List.map_congr_left ?_
  intro idx inRange
  exact agree idx (List.mem_range.mp inRange)

lemma rangeOf_add (base : ℕ → Cell) (start first second : ℕ) :
  rangeOf base start (first + second) =
    rangeOf base start first ++ rangeOf base (start + first) second := by
  rw [rangeOf, List.range_add, List.map_append]
  simp [rangeOf, Nat.add_assoc]

def storeAll (base : ℕ → Cell) (stores : List (ℕ × List Cell)) : ℕ → Cell :=
  stores.foldl (fun cells store => storeAt cells store.1 store.2) base

def StoresApart (one two : ℕ × List Cell) : Prop :=
  one.1 + one.2.length ≤ two.1 ∨ two.1 + two.2.length ≤ one.1
deriving Decidable

lemma storeAll_concat (base : ℕ → Cell) (stores : List (ℕ × List Cell)) (store : ℕ × List Cell) :
  storeAll base (stores ++ [store]) = storeAt (storeAll base stores) store.1 store.2 := by
  rw [storeAll, List.foldl_append]
  rfl

lemma storeAll_outside {stores : List (ℕ × List Cell)}
  (outside : ∀ store ∈ stores, idx < store.1 ∨ store.1 + store.2.length ≤ idx) :
  storeAll base stores idx = base idx := by
  induction stores generalizing base with
  | nil => rfl
  | cons store stores ih =>
    have later := @ih (storeAt base store.1 store.2) fun other isLater =>
      outside other (List.mem_cons_of_mem _ isLater)
    exact later.trans (storeAt_outside (outside store List.mem_cons_self))

lemma storeAll_inside {stores : List (ℕ × List Cell)} {cell : Cell}
  (apart : stores.Pairwise StoresApart) (mem : (start, cells) ∈ stores)
  (isCell : cells[idx]? = some cell) : storeAll base stores (start + idx) = cell := by
  induction stores generalizing base with
  | nil => cases mem
  | cons store stores ih =>
    rcases List.pairwise_cons.mp apart with ⟨first, rest⟩
    rcases List.mem_cons.mp mem with rfl | isLater
    · have inside := (List.getElem?_eq_some_iff.mp isCell).1
      have later : storeAll (storeAt base start cells) stores (start + idx) =
          storeAt base start cells (start + idx) := by
        refine storeAll_outside ?_
        intro other isLater
        rcases first other isLater with pre | behind
        · exact Or.inl (by simp only at pre; omega)
        · exact Or.inr (by simp only at behind; omega)
      exact later.trans (storeAt_inside isCell)
    · exact ih rest isLater

lemma rangeOf_storeAll {stores : List (ℕ × List Cell)}
  (apart : stores.Pairwise StoresApart) (mem : (start, cells) ∈ stores)
  (isCnt : cnt = cells.length) : rangeOf (storeAll base stores) start cnt = cells := by
  refine List.ext_getElem (by simp [isCnt]) ?_
  intro idx inLeft inRight
  simp only [rangeOf, List.getElem_map, List.getElem_range]
  exact storeAll_inside apart mem (List.getElem?_eq_getElem inRight)

end Pintos
