import Mathlib.Order.Interval.Finset.Nat

/-!
# Binary heaps in numbered places

Places are counted from one, and the places below a place are twice its number and the one after.
A place that may be smaller than those below it is a hole. Exchanging a hole with the larger one
of the places below it moves the hole down, and a heap is left when it can go no further.
-/

namespace Pintos

variable {Element : Type} {le : Element → Element → Prop} {key : ℕ → Element}
  {low cnt hole target place : ℕ}

def Below (parent child : ℕ) : Prop := child = 2 * parent ∨ child = 2 * parent + 1

def HeapFrom (le : Element → Element → Prop) (key : ℕ → Element) (low cnt : ℕ) : Prop :=
  ∀ parent child, low ≤ parent → Below parent child → child ≤ cnt → le (key child) (key parent)

structure HeapExcept (le : Element → Element → Prop) (key : ℕ → Element) (low cnt hole : ℕ) :
    Prop where
  others : ∀ parent child, low ≤ parent → parent ≠ hole → Below parent child → child ≤ cnt →
    le (key child) (key parent)
  across : ∀ parent child, low ≤ parent → Below parent hole → Below hole child → child ≤ cnt →
    le (key child) (key parent)

lemma HeapFrom.except (heap : HeapFrom le key (low + 1) cnt) (pos : 0 < low) :
  HeapExcept le key low cnt low where
  others parent child isLow differs := heap parent child (by omega)
  across parent child isLow isBelow := by
    unfold Below at isBelow
    omega

lemma HeapExcept.sink (heap : HeapExcept le key low cnt hole) (pos : 0 < hole)
  (isLow : low ≤ hole) (isBelow : Below hole target) (isInside : target ≤ cnt)
  (larger : le (key hole) (key target))
  (largest : ∀ child, Below hole child → child ≤ cnt → le (key child) (key target)) :
  HeapExcept le (key ∘ Equiv.swap hole target) low cnt target := by
  rcases heap with ⟨others, across⟩
  refine ⟨?_, ?_⟩
  · intro parent child isParent ne isChild inside
    unfold Below at *
    grind
  intro parent child isParent isTarget isChild inside
  unfold Below at *
  grind

lemma HeapExcept.heapFrom (heap : HeapExcept le key low cnt hole)
  (largest : ∀ child, Below hole child → child ≤ cnt → le (key child) (key hole)) :
  HeapFrom le key low cnt := by
  intro parent child isLow isBelow inside
  by_cases isHole : parent = hole
  · exact isHole ▸ largest child (isHole ▸ isBelow) inside
  · exact heap.others parent child isLow isHole isBelow inside

lemma HeapFrom.le_root [Std.Refl le] [IsTrans Element le] (heap : HeapFrom le key 1 cnt)
  (pos : 0 < place) (inside : place ≤ cnt) : le (key place) (key 1) := by
  induction place using Nat.strong_induction_on with
  | h place ih =>
    by_cases isRoot : place = 1
    · exact isRoot ▸ Std.Refl.refl _
    have isBelow : Below (place / 2) place := by
      unfold Below
      omega
    exact IsTrans.trans _ _ _ (heap _ _ (by omega) isBelow inside)
      (ih (place / 2) (by omega) (by omega) (by omega))

def Rearranged (cnt : ℕ) (key after : ℕ → Element) : Prop :=
  ∃ places : Equiv.Perm ℕ, (∀ place, places place ≠ place → 0 < place ∧ place ≤ cnt) ∧
    after = key ∘ places

namespace Rearranged

variable {after last : ℕ → Element}

lemma refl (cnt : ℕ) (key : ℕ → Element) : Rearranged cnt key key :=
  ⟨Equiv.refl ℕ, fun _ ne => absurd rfl ne, rfl⟩

lemma trans (first : Rearranged cnt key after) (second : Rearranged cnt after last) :
  Rearranged cnt key last := by
  rcases first with ⟨left, leftInside, rfl⟩
  rcases second with ⟨right, rightInside, rfl⟩
  refine ⟨right.trans left, ?_, rfl⟩
  intro place ne
  by_cases same : right place = place
  · refine leftInside place ?_
    simpa [same] using ne
  · exact rightInside place same

lemma mono {more : ℕ} (rearranged : Rearranged cnt key after) (atMost : cnt ≤ more) :
  Rearranged more key after := by
  rcases rearranged with ⟨places, inside, rfl⟩
  exact ⟨places, fun place ne => ⟨(inside place ne).1, (inside place ne).2.trans atMost⟩, rfl⟩

lemma swap {left right : ℕ} (leftInside : 0 < left ∧ left ≤ cnt)
  (rightInside : 0 < right ∧ right ≤ cnt) : Rearranged cnt key (key ∘ Equiv.swap left right) := by
  refine ⟨Equiv.swap left right, ?_, rfl⟩
  intro place ne
  grind

lemma outside (rearranged : Rearranged cnt key after) (isOutside : cnt < place) :
  after place = key place := by
  rcases rearranged with ⟨places, inside, rfl⟩
  by_contra ne
  have moved : places place ≠ place := fun same => ne (congrArg key same)
  exact absurd (inside place moved).2 (by omega)

lemma mem_places {places : Equiv.Perm ℕ}
  (inside : ∀ place, places place ≠ place → 0 < place ∧ place ≤ cnt)
  (isInside : 0 < place ∧ place ≤ cnt) : 0 < places place ∧ places place ≤ cnt := by
  by_cases same : places place = place
  · rwa [same]
  · exact inside _ fun moved => same (places.injective moved)

lemma exists_place (rearranged : Rearranged cnt key after) (isInside : 0 < place ∧ place ≤ cnt) :
  ∃ old, (0 < old ∧ old ≤ cnt) ∧ after place = key old := by
  rcases rearranged with ⟨places, inside, rfl⟩
  exact ⟨places place, mem_places inside isInside, rfl⟩

lemma perm (rearranged : Rearranged cnt key after) :
  ((List.range' 1 cnt).map after).Perm ((List.range' 1 cnt).map key) := by
  rcases rearranged with ⟨places, inside, rfl⟩
  rw [← List.map_map]
  refine List.Perm.map key (List.Subperm.perm_of_length_le ?_ (by simp))
  refine List.subperm_of_subset ((List.nodup_range' 1).map places.injective) ?_
  intro moved isMoved
  rcases List.mem_map.mp isMoved with ⟨place, isPlace, rfl⟩
  rw [List.mem_range'_1] at isPlace ⊢
  have isInside := mem_places inside (show 0 < place ∧ place ≤ cnt by omega)
  omega

end Rearranged

end Pintos
