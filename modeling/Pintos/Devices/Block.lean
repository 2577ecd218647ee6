import Pintos.Kernel.Stop
import Pintos.Library.Overlay
import Pintos.Library.Words

/-!
# Block devices

A block device as `devices/block.c` presents it to the file system: a number of
sectors of `BLOCK_SECTOR_SIZE` bytes each. Reading or writing past the end of
the device panics.
-/

namespace Pintos

def blockSectorSize : ℕ := 512

abbrev Sector := Fin blockSectorSize → Byte

namespace Sector

def bytes (sector : Sector) : ℕ → Byte :=
  fun index => if inside : index < blockSectorSize then sector ⟨index, inside⟩ else 0

def ofBytes (source : ℕ → Byte) : Sector :=
  fun index => source index

def zeros : Sector := fun _ => 0

lemma bytes_ofBytes (source : ℕ → Byte) {index : ℕ} (inside : index < blockSectorSize) :
  (ofBytes source).bytes index = source index := by
  simp [bytes, ofBytes, inside]

@[simp]
lemma zeros_bytes (idx : ℕ) : zeros.bytes idx = 0 := by
  simp [bytes, zeros]

lemma ofBytes_congr {left right : ℕ → Byte}
  (agree : ∀ idx, idx < blockSectorSize → left idx = right idx) :
  ofBytes left = ofBytes right := by
  funext idx
  exact agree idx idx.isLt

end Sector

/-- `struct block`: the size of the device in sectors and their contents. -/
structure Block where
  size : ℕ
  sectors : ℕ → Sector

namespace Block

def write (block : Block) (sector : ℕ) (data : Sector) : Block :=
  { block with sectors := Function.update block.sectors sector data }

@[simp]
lemma write_sectors_self (blk : Block) (sec : ℕ) (data : Sector) :
  (blk.write sec data).sectors sec = data := by
  simp [write]

lemma write_sectors_of_ne (blk : Block) {sec other : ℕ} (data : Sector)
  (ne : other ≠ sec) :
  (blk.write sec data).sectors other = blk.sectors other := by
  simp [write, Function.update_of_ne ne]

end Block

end Pintos
