import Mathlib.Data.List.Nodup

/-!
# Distributing items over buckets

Items are pushed one by one to the front of the bucket that an index function
gives for them. What ends up in a bucket is what the index function sends there,
and the buckets together hold every item once.
-/

namespace Pintos

universe u

variable {Item : Type u} {item : Item}

def pushBucket (index : Item → ℕ) (buckets : ℕ → List Item) (item : Item) : ℕ → List Item :=
  Function.update buckets (index item) (item :: buckets (index item))

def bucketItems (count : ℕ) (buckets : ℕ → List Item) : List Item :=
  (List.range count).flatMap buckets

variable {idx : Item → ℕ} {buckets : ℕ → List Item} {items : List Item} {cnt : ℕ}

lemma foldl_pushBucket (items : List Item) (buckets : ℕ → List Item) (bucket : ℕ) :
  items.foldl (pushBucket idx) buckets bucket =
    (items.filter fun item => decide (idx item = bucket)).reverse ++ buckets bucket := by
  induction items generalizing buckets with
  | nil => rfl
  | cons item rest ih =>
    rw [List.foldl_cons, ih, pushBucket]
    by_cases here : idx item = bucket
    · subst here
      simp
    · simp [here, Function.update_of_ne (Ne.symm here)]

lemma mem_bucketItems :
  item ∈ bucketItems cnt buckets ↔ ∃ bucket < cnt, item ∈ buckets bucket := by
  simp [bucketItems]

def Placed (index : Item → ℕ) (count : ℕ) (buckets : ℕ → List Item) : Prop :=
  ∀ bucket < count, ∀ item ∈ buckets bucket, index item = bucket

lemma Placed.mem_iff (placed : Placed idx cnt buckets) (inRange : ∀ item, idx item < cnt)
  {item : Item} : item ∈ bucketItems cnt buckets ↔ item ∈ buckets (idx item) := by
  rw [mem_bucketItems]
  constructor
  · rintro ⟨bucket, bound, mem⟩
    rw [placed bucket bound item mem]
    exact mem
  intro mem
  exact ⟨idx item, inRange item, mem⟩

lemma Placed.nodup (placed : Placed idx cnt buckets)
  (nodup : ∀ bucket < cnt, (buckets bucket).Nodup) : (bucketItems cnt buckets).Nodup := by
  rw [bucketItems, List.nodup_flatMap]
  refine ⟨fun bucket inRange => nodup bucket (List.mem_range.mp inRange), ?_⟩
  refine (List.nodup_range).imp_of_mem ?_
  intro one two inOne inTwo differ item isOne isTwo
  refine differ ?_
  rw [← placed one (List.mem_range.mp inOne) item isOne,
    ← placed two (List.mem_range.mp inTwo) item isTwo]

lemma placed_foldl_pushBucket : Placed idx cnt (items.foldl (pushBucket idx) fun _ => []) := by
  intro bucket bound item mem
  rw [foldl_pushBucket] at mem
  simp at mem
  exact mem.2

lemma mem_foldl_pushBucket (inRange : ∀ item, idx item < cnt) :
  item ∈ bucketItems cnt (items.foldl (pushBucket idx) fun _ => []) ↔ item ∈ items := by
  rw [placed_foldl_pushBucket.mem_iff inRange, foldl_pushBucket]
  simp

lemma nodup_foldl_pushBucket (nodup : items.Nodup) (bucket : ℕ) :
  (items.foldl (pushBucket idx) (fun _ => []) bucket).Nodup := by
  rw [foldl_pushBucket, List.append_nil, List.nodup_reverse]
  exact nodup.filter _

end Pintos
