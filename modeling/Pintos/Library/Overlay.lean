import Mathlib.Tactic.Common

/-!
# Overwriting a range of an array

Arrays are total functions on indices. `overlay` replaces a contiguous range of
an array by cells of another one. The second half views one long array as a
sequence of equally long blocks, and shows that overwriting a range inside one
block overwrites the corresponding range of the long array. At the end stands the
case of one cell of a table that need not have an entry everywhere.
-/

namespace Pintos

universe u

variable {Cell : Type u} {cnt index start : ℕ} {src base : ℕ → Cell}

def overlay (base : ℕ → Cell) (start count : ℕ) (source : ℕ → Cell) : ℕ → Cell :=
  fun index =>
    if start ≤ index ∧ index < start + count then source (index - start) else base index

lemma overlay_inside (lower : start ≤ index) (upper : index < start + cnt) :
  overlay base start cnt src index = src (index - start) := by
  simp [overlay, lower, upper]

lemma overlay_outside (outside : index < start ∨ start + cnt ≤ index) :
  overlay base start cnt src index = base index := by
  unfold overlay
  rw [if_neg]
  omega

@[simp]
lemma overlay_zero (base : ℕ → Cell) (start : ℕ) (src : ℕ → Cell) :
  overlay base start 0 src = base := by
  funext index
  apply overlay_outside
  omega

lemma overlay_overlay (base : ℕ → Cell) (start first second : ℕ) (src : ℕ → Cell) :
  overlay (overlay base start first src) (start + first) second
      (fun index => src (first + index)) =
    overlay base start (first + second) src := by
  funext index
  by_cases pre : index < start
  · rw [overlay_outside (by omega), overlay_outside (by omega), overlay_outside (by omega)]
  by_cases inFirst : index < start + first
  · rw [overlay_outside (by omega), overlay_inside (by omega) inFirst,
      overlay_inside (by omega) (by omega)]
  by_cases inSecond : index < start + (first + second)
  · rw [overlay_inside (by omega) (by omega), overlay_inside (by omega) inSecond]
    congr 1
    omega
  · rw [overlay_outside (by omega), overlay_outside (by omega), overlay_outside (by omega)]

lemma overlay_congr {left right : ℕ → Cell}
  (agree : ∀ index, index < cnt → left index = right index) :
  overlay base start cnt left = overlay base start cnt right := by
  funext index
  unfold overlay
  split
  · apply agree
    omega
  · rfl

def concatBlocks (width : ℕ) (blocks : ℕ → ℕ → Cell) : ℕ → Cell :=
  fun index => blocks (index / width) (index % width)

lemma concatBlocks_overlay {width : ℕ} {pre after : ℕ → ℕ → Cell} {ofs : ℕ} (pos : 0 < width)
  (fits : ofs % width + cnt ≤ width) (changed : ∀ index, index < width →
    after (ofs / width) index =
      overlay (pre (ofs / width)) (ofs % width) cnt src index)
  (kept : index / width ≠ ofs / width → after (index / width) = pre (index / width)) :
  concatBlocks width after index = overlay (concatBlocks width pre) ofs cnt src index := by
  have split := Nat.div_add_mod ofs width
  have idxSplit := Nat.div_add_mod index width
  have idxLt := Nat.mod_lt index pos
  unfold concatBlocks
  by_cases same : index / width = ofs / width
  · rw [same] at idxSplit
    rw [same, changed _ idxLt]
    by_cases inside : ofs ≤ index ∧ index < ofs + cnt
    · rw [overlay_inside (by omega) (by omega), overlay_inside inside.1 inside.2]
      congr 1
      omega
    · rw [overlay_outside (by omega), overlay_outside (by omega), same]
  rw [kept same, overlay_outside]
  rcases Nat.lt_or_gt_of_ne same with below | above
  · left
    exact Nat.lt_of_div_lt_div below
  right
  have next : width * (ofs / width + 1) ≤ width * (index / width) :=
    Nat.mul_le_mul_left width above
  rw [Nat.mul_add] at next
  omega

lemma update_eq_some {table : ℕ → Option Cell} {other : ℕ} {entry : Option Cell} {cell : Cell}
  (isCell : Function.update table index entry other = some cell) :
  (other = index ∧ entry = some cell) ∨ (other ≠ index ∧ table other = some cell) := by
  by_cases same : other = index
  · subst same
    rw [Function.update_self] at isCell
    exact Or.inl ⟨rfl, isCell⟩
  rw [Function.update_of_ne same] at isCell
  exact Or.inr ⟨same, isCell⟩

end Pintos
