import Mathlib.Algebra.BigOperators.Group.Finset.Basic

/-!
# Holdings of counted resources

A resource counts its users and, among them, those who lock it. A holding says
how often each resource is used and how often it is locked by some group of
holders, and nobody locks what they do not use. Holdings of separate groups add
up. A table of optional entries holds what its entries hold.
-/

namespace Pintos

open Function

universe u v w

@[ext]
structure Holdings (Key : Type u) where
  uses : Key → ℕ
  locks : Key → ℕ
  locks_le_uses : ∀ key, locks key ≤ uses key

namespace Holdings

variable {Key : Type u}

instance : Zero (Holdings Key) where
  zero := ⟨fun _ => 0, fun _ => 0, fun _ => le_rfl⟩

instance : Add (Holdings Key) where
  add left right :=
    { uses := fun key => left.uses key + right.uses key
      locks := fun key => left.locks key + right.locks key
      locks_le_uses := fun key =>
        Nat.add_le_add (left.locks_le_uses key) (right.locks_le_uses key) }

@[simp]
lemma zero_uses (key : Key) : (0 : Holdings Key).uses key = 0 := rfl

@[simp]
lemma zero_locks (key : Key) : (0 : Holdings Key).locks key = 0 := rfl

@[simp]
lemma add_uses (left right : Holdings Key) (key : Key) :
  (left + right).uses key = left.uses key + right.uses key := rfl

@[simp]
lemma add_locks (left right : Holdings Key) (key : Key) :
  (left + right).locks key = left.locks key + right.locks key := rfl

instance : AddCommMonoid (Holdings Key) where
  add_assoc _ _ _ := by ext <;> simp [Nat.add_assoc]
  zero_add _ := by ext <;> simp
  add_zero _ := by ext <;> simp
  add_comm _ _ := by ext <;> simp [Nat.add_comm]
  nsmul := nsmulRec

section Single

variable [DecidableEq Key]

def single (key : Key) (locked : Bool) : Holdings Key where
  uses other := if other = key then 1 else 0
  locks other := if other = key ∧ locked then 1 else 0
  locks_le_uses other := by split <;> simp_all

@[simp]
lemma single_uses (key other : Key) (locked : Bool) :
  (single key locked).uses other = if other = key then 1 else 0 := rfl

@[simp]
lemma single_locks (key other : Key) (locked : Bool) :
  (single key locked).locks other = if other = key ∧ locked then 1 else 0 := rfl

end Single

section Table

variable {Slot : Type v} {Entry : Type w}

def ofOption (holdings : Entry → Holdings Key) : Option Entry → Holdings Key
  | none => 0
  | some entry => holdings entry

variable [Fintype Slot] (holdings : Entry → Holdings Key)

@[irreducible]
def ofTable (table : Slot → Option Entry) : Holdings Key :=
  ∑ slot, ofOption holdings (table slot)

@[simp]
lemma ofTable_empty : ofTable holdings (fun _ : Slot => none) = 0 := by
  simp [ofTable, ofOption]

lemma ofTable_congr {left right : Slot → Option Entry}
  (same : ∀ slot, ofOption holdings (left slot) = ofOption holdings (right slot)) :
  ofTable holdings left = ofTable holdings right := by
  unfold ofTable
  exact Finset.sum_congr rfl fun slot _ => same slot

variable [DecidableEq Slot]

lemma ofTable_eq_clear_add (table : Slot → Option Entry) (slot : Slot) : ofTable holdings table =
    ofTable holdings (update table slot none) + ofOption holdings (table slot) := by
  unfold ofTable
  rw [← Finset.sum_erase_add _ _ (Finset.mem_univ slot),
    ← Finset.sum_erase_add _ (fun other => ofOption holdings (update table slot none other))
      (Finset.mem_univ slot)]
  have others : ∀ other ∈ Finset.univ.erase slot,
      ofOption holdings (update table slot none other) = ofOption holdings (table other) := by
    intro other ne
    rw [update_of_ne (Finset.ne_of_mem_erase ne)]
  rw [Finset.sum_congr rfl others]
  simp [ofOption]

lemma ofTable_update (table : Slot → Option Entry) (slot : Slot) (entry : Option Entry) :
  ofTable holdings (update table slot entry) =
    ofTable holdings (update table slot none) + ofOption holdings entry := by
  rw [ofTable_eq_clear_add holdings _ slot, update_idem, update_self]

end Table

end Holdings

end Pintos
