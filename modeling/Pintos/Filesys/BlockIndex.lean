import Pintos.Filesys.Contents

/-!
# The slots of block indexes

`byte_to_sector` takes the number of a sector from a slot: from the inode, or from an indirect
block. The last index of the single indirect block is one past its end, and for a doubly
indirect block the function takes the number of the second block from the inode.
-/

namespace Pintos

/-- A word of the inode, or of the block whose number stands in another slot. -/
inductive Slot
  | sectors (index : ℕ)
  | entry (block : Slot) (index : ℕ)
deriving DecidableEq

namespace Slot

def load (inode : Inode) : Slot → Kernel (Option Word)
  | sectors index => pure (inode.data.sectorAt index)
  | entry block index => do
    let number ← block.load inode
    let indirect ← blockRead number
    pure (indirectEntry indirect index)

def InRange : Slot → Prop
  | sectors index => index < 125
  | entry block index => block.InRange ∧ index < 128

/-- The slot that `byte_to_sector` uses for a block index. -/
def ofSpot (spot : ℕ) : Slot :=
  if spot ≤ 122 then sectors spot
  else if spot ≤ 250 then entry (sectors 123) (spot - 122)
  else entry (sectors ((spot - 250) / 128)) (spot - 250 - 128 * ((spot - 250) / 128))

/-- All indexes are in range, and a doubly indirect block is found through the first one. -/
def Resolves (spot : ℕ) : Prop :=
  (ofSpot spot).InRange ∧
    (250 < spot → ∃ first second, ofSpot spot = entry (entry (sectors 124) first) second)

/-- The function loads the slot; the first indirect block is read and not used. -/
lemma byteToSector_eq_load (inode : Inode) (pos : ℕ) : byteToSector inode pos =
  if 250 < pos / 512 then do
    let _tempIndir1 ← blockRead (inode.data.sectorAt 124)
    (ofSpot (pos / 512)).load inode
  else (ofSpot (pos / 512)).load inode := by
  unfold byteToSector ofSpot
  simp only [tdiv_blockSectorSize]
  by_cases direct : pos / 512 ≤ 122
  · rw [if_pos (by omega), if_neg (by omega), if_pos direct]
    rfl
  by_cases indirect : pos / 512 ≤ 250
  · rw [if_neg (by omega), if_pos (by omega), if_neg (by omega), if_neg direct, if_pos indirect,
      show ((pos / 512 : ℕ) - 122 : ℤ).toNat = pos / 512 - 122 by omega]
    rfl
  rw [if_neg (by omega), if_neg (by omega), if_pos (by omega), if_pos (by omega), if_neg direct,
    if_neg indirect, show ((pos / 512 : ℕ) - (122 + 128) : ℤ) = (pos / 512 - 250 : ℕ) by omega]
  generalize pos / 512 - 250 = beyond
  have first : (beyond : ℤ).tdiv 128 = (beyond / 128 : ℕ) := (Int.ofNat_tdiv beyond 128).symm
  rw [first, Int.toNat_natCast, show ((beyond : ℤ) - 128 * (beyond / 128 : ℕ)).toNat =
    beyond - 128 * (beyond / 128) by omega]
  rfl

lemma resolves_iff_le (spot : ℕ) : Resolves spot ↔ spot ≤ 249 := by
  unfold Resolves ofSpot
  split
  · simp only [InRange]
    omega
  split
  · simp only [InRange]
    omega
  next beyond =>
    simp only [entry.injEq, reduceCtorEq, false_and, exists_false, imp_false]
    exact ⟨fun fine => by omega, fun small => by omega⟩

theorem resolves_iff (spot : ℕ) : (Resolves spot ↔ spot ≤ 249) ∧
    (∀ other, Resolves spot → Resolves other → ofSpot spot = ofSpot other → spot = other) ∧
    ∀ inode : Inode, ∀ pos : ℕ, pos / 512 = spot → Resolves spot →
      byteToSector inode pos = (ofSpot spot).load inode := by
  refine ⟨resolves_iff_le spot, ?_, ?_⟩
  · intro other fine otherFine same
    rw [resolves_iff_le] at fine otherFine
    unfold ofSpot at same
    grind
  · rintro inode pos rfl fine
    rw [resolves_iff_le] at fine
    rw [byteToSector_eq_load, if_neg (by omega)]

theorem not_resolves_250 : ¬ Resolves 250 := by
  rintro ⟨⟨_, inside⟩, _⟩
  exact absurd inside (by decide)

end Slot

end Pintos
