import Mathlib.Tactic.Common

/-!
# Extents

Runs of consecutive numbers, given by where they start and how many there are. Two
extents that have nothing in common lie apart. Cutting a hole out of an extent
leaves at most two extents, which hold what the extent held outside the hole.
-/

namespace Pintos

structure Extent where
  start : ℕ
  count : ℕ
deriving DecidableEq

namespace Extent

def stop (extent : Extent) : ℕ := extent.start + extent.count

def Contains (extent part : Extent) : Prop :=
  extent.start ≤ part.start ∧ part.stop ≤ extent.stop
deriving Decidable

def Apart (one two : Extent) : Prop :=
  one.stop ≤ two.start ∨ two.stop ≤ one.start
deriving Decidable

def cut (hole extent : Extent) : List Extent :=
  [⟨extent.start, min extent.stop hole.start - extent.start⟩,
    ⟨max extent.start hole.stop, extent.stop - max extent.start hole.stop⟩].filter
      fun part => decide (0 < part.count)

variable {one two part hole extent : Extent}

lemma Apart.symm (apart : one.Apart two) : two.Apart one := by
  rcases apart with pre | behind
  · exact Or.inr pre
  · exact Or.inl behind

lemma Apart.of_contains (apart : one.Apart two) (contains : one.Contains part) :
  part.Apart two := by
  rcases contains with ⟨lower, upper⟩
  rcases apart with pre | behind
  · exact Or.inl (Nat.le_trans upper pre)
  · exact Or.inr (Nat.le_trans behind lower)

lemma mem_cut : part ∈ cut hole extent ↔ 0 < part.count ∧
  (part.start = extent.start ∧ part.stop = min extent.stop hole.start ∨
    part.start = max extent.start hole.stop ∧ part.stop = extent.stop) := by
  rcases part with ⟨start, cnt⟩
  simp only [cut, List.mem_filter, List.mem_cons, List.not_mem_nil, or_false, Extent.mk.injEq,
    decide_eq_true_eq, stop]
  omega

lemma contains_of_mem_cut (isPart : part ∈ cut hole extent) : extent.Contains part := by
  rcases mem_cut.mp isPart with ⟨pos, bounds⟩
  simp only [Contains] at *
  omega

lemma apart_of_mem_cut (isPart : part ∈ cut hole extent) : part.Apart hole := by
  rcases mem_cut.mp isPart with ⟨pos, bounds⟩
  simp only [Apart] at *
  omega

lemma cut_pairwise (pos : 0 < hole.count) : (cut hole extent).Pairwise Apart := by
  refine List.Pairwise.filter _ ?_
  simp only [List.pairwise_cons, List.mem_cons, List.not_mem_nil, or_false, forall_eq,
    false_imp_iff, implies_true, List.Pairwise.nil, and_true, Apart, stop]
  omega

lemma exists_mem_cut (pos : 0 < part.count) (contains : extent.Contains part)
  (apart : part.Apart hole) : ∃ piece ∈ cut hole extent, piece.Contains part := by
  rcases contains with ⟨lower, upper⟩
  rcases apart with pre | behind
  · have inside : part.stop ≤ min extent.stop hole.start := Nat.le_min.mpr ⟨upper, pre⟩
    refine ⟨⟨extent.start, min extent.stop hole.start - extent.start⟩,
      mem_cut.mpr ⟨?_, Or.inl ⟨rfl, ?_⟩⟩, lower, ?_⟩ <;>
      generalize min extent.stop hole.start = edge at inside ⊢ <;>
      simp only [stop] at inside ⊢ <;>
      omega
  have inside : max extent.start hole.stop ≤ part.start := Nat.max_le.mpr ⟨lower, behind⟩
  refine ⟨⟨max extent.start hole.stop, extent.stop - max extent.start hole.stop⟩,
    mem_cut.mpr ⟨?_, Or.inr ⟨rfl, ?_⟩⟩, inside, ?_⟩ <;>
    generalize max extent.start hole.stop = edge at inside ⊢ <;>
    simp only [stop] at upper ⊢ <;>
    omega

end Extent

end Pintos
