import Pintos.Filesys.Inode

/-!
# File contents

The abstract view of a regular file: a flat array of `length` bytes. This file
defines the view for inodes that use direct sectors only, which are all inodes
of at most `123` sectors, and collects what the reading and writing loops
compute at an offset inside the file.
-/

namespace Pintos

open Pintos.Computation

variable {device : Block} {disk : InodeDisk} {ofs : ℕ} {inode : Inode}

namespace InodeDisk

def dataSector (disk : InodeDisk) (block : ℕ) : ℕ :=
  ((disk.sectorAt block).getD 0).toNat

def blockCnt (disk : InodeDisk) : ℕ := bytesToSectors disk.size

def contents (disk : InodeDisk) (device : Block) : ℕ → Byte :=
  concatBlocks blockSectorSize fun block => (device.sectors (disk.dataSector block)).bytes

structure Readable (disk : InodeDisk) (device : Block) : Prop where
  size_nonneg : 0 ≤ disk.size
  size_le : disk.size ≤ 123 * 512
  sector_lt : ∀ block, block < disk.blockCnt → disk.dataSector block < device.size

structure WellFormed (disk : InodeDisk) (device : Block) : Prop
    extends Readable disk device where
  sector_inj : ∀ left right, left < disk.blockCnt → right < disk.blockCnt →
    disk.dataSector left = disk.dataSector right → left = right

def len (disk : InodeDisk) : ℕ := disk.size.toNat

section

variable (readable : disk.Readable device)
include readable

lemma Readable.size_eq : disk.size = disk.len := by
  have := readable.size_nonneg
  unfold len
  omega

lemma Readable.len_le : disk.len ≤ 123 * 512 := by
  have := readable.size_le
  unfold len
  omega

lemma Readable.blockCnt_eq : disk.blockCnt = (disk.len + 511) / 512 := by
  unfold blockCnt bytesToSectors
  rw [readable.size_eq]
  have shifted : ((disk.len : ℤ) + (blockSectorSize : ℕ) - 1) = ((disk.len + 511 : ℕ) : ℤ) := by
    simp only [blockSectorSize]
    omega
  rw [shifted, ← Int.ofNat_tdiv]
  rfl

lemma Readable.block_lt (inside : ofs < disk.len) : ofs / 512 < disk.blockCnt := by
  rw [readable.blockCnt_eq]
  omega

end

lemma contents_congr (disk : InodeDisk) {pre after : Block} {idx : ℕ}
  (same : after.sectors (disk.dataSector (idx / 512)) =
    pre.sectors (disk.dataSector (idx / 512))) :
  disk.contents after idx = disk.contents pre idx := by
  simp [contents, concatBlocks, blockSectorSize, same]

lemma sectorAt_eq_some (disk : InodeDisk) {blk : ℕ} (direct : blk < 125) :
  ∃ sec : Word, disk.sectorAt blk = some sec ∧ sec.toNat = disk.dataSector blk := by
  refine ⟨disk.sectors ⟨blk, direct⟩, disk.sectorAt_of_lt direct, ?_⟩
  simp [dataSector, disk.sectorAt_of_lt direct]

end InodeDisk

def chunkLen (disk : InodeDisk) (size offset : ℕ) : ℕ :=
  min size (min (disk.len - offset) (512 - offset % 512))

lemma chunkLen_le_size (disk : InodeDisk) (size ofs : ℕ) : chunkLen disk size ofs ≤ size := by
  unfold chunkLen
  omega

lemma chunkLen_le_left (disk : InodeDisk) (size ofs : ℕ) :
  chunkLen disk size ofs ≤ disk.len - ofs := by
  unfold chunkLen
  omega

lemma chunkLen_fits (disk : InodeDisk) (size ofs : ℕ) :
  ofs % 512 + chunkLen disk size ofs ≤ 512 := by
  unfold chunkLen
  omega

lemma chunkLen_pos {size : ℕ} (positive : 0 < size) (inside : ofs < disk.len) :
  0 < chunkLen disk size ofs := by
  unfold chunkLen
  omega

lemma tmod_blockSectorSize (ofs : ℕ) : (ofs : ℤ).tmod blockSectorSize = ((ofs % 512 : ℕ) : ℤ) :=
  (Int.ofNat_tmod ofs 512).symm

lemma tdiv_blockSectorSize (ofs : ℕ) : (ofs : ℤ).tdiv blockSectorSize = ((ofs / 512 : ℕ) : ℤ) :=
  (Int.ofNat_tdiv ofs 512).symm

lemma chunkSize_eq (readable : inode.data.Readable device) (size : ℕ)
  (inside : ofs ≤ inode.data.len) : chunkSize inode size ofs = chunkLen inode.data size ofs := by
  have sizeEq := readable.size_eq
  simp only [chunkSize, chunkLen, inodeLength, tmod_blockSectorSize]
  simp only [blockSectorSize]
  omega

lemma chunkSize_nonpos {size ofs : ℤ} (past : inode.data.size ≤ ofs) :
  chunkSize inode size ofs ≤ 0 := by
  simp only [chunkSize, inodeLength]
  omega

lemma byteToSector_direct (inode : Inode) (direct : ofs / 512 ≤ 122) (fs : Fs) :
  byteToSector inode ofs fs = .ok (inode.data.sectorAt (ofs / 512), fs) := by
  unfold byteToSector
  simp only [tdiv_blockSectorSize]
  rw [if_pos (by omega)]
  rfl

lemma byteToSector_congr (inode : Inode) {one two : ℕ} (same : one / 512 = two / 512) :
  byteToSector inode one = byteToSector inode two := by
  have sameSpot : (one : ℤ).tdiv blockSectorSize = (two : ℤ).tdiv blockSectorSize := by
    rw [tdiv_blockSectorSize, tdiv_blockSectorSize, same]
  rw [byteToSector, byteToSector, sameSpot]

lemma byteToSector_state {pos : ℤ} {fs after : Fs} {sec : Option Word}
  (ran : byteToSector inode pos fs = .ok (sec, after)) : after = fs := by
  unfold byteToSector at ran
  split at ran
  · cases ran
    rfl
  split at ran
  · rcases bind_eq_ok ran with ⟨data, mid, read, rest⟩
    rcases blockRead_eq_ok read with ⟨_, _, _, _, rfl⟩
    cases rest
    rfl
  split at ran
  · rcases bind_eq_ok ran with ⟨first, mid, readFirst, rest⟩
    rcases blockRead_eq_ok readFirst with ⟨_, _, _, _, rfl⟩
    rcases bind_eq_ok rest with ⟨second, last, readSecond, final⟩
    rcases blockRead_eq_ok readSecond with ⟨_, _, _, _, rfl⟩
    cases final
    rfl
  cases ran
  rfl

lemma getBounce_of_heapOk {fs : Fs} (heap : fs.HeapOk) (bounce : Bool) :
  getBounce bounce fs = .ok (true, fs) := by
  cases bounce
  · exact malloc_of_heapOk heap
  · rfl

def smallDisk (dataSector length : Word) : InodeDisk :=
  { start := 0, length := length, magic := inodeMagic, sectors := fun _ => dataSector }

lemma smallDisk_wellFormed {dataSector length : Word} {device : Block}
  (nonneg : 0 ≤ (smallDisk dataSector length).size)
  (sizeLe : (smallDisk dataSector length).size ≤ 123 * 512)
  (blks : (smallDisk dataSector length).blockCnt = 1)
  (inRange : dataSector.toNat < device.size) :
  (smallDisk dataSector length).WellFormed device where
  size_nonneg := nonneg
  size_le := sizeLe
  sector_lt blk blkLt := by
    have first : blk = 0 := by omega
    subst first
    exact inRange
  sector_inj left right leftLt rightLt _ := by omega

def smallInode (length : Word) : Inode where
  sector := 2
  openCnt := 1
  removed := false
  denyWriteCnt := 0
  data := smallDisk 3 length

/-- A device of six sectors, none of them free: the headers of the free map, of the root directory
and of one file of at most one sector are in sectors 0 to 2, the data of the file in sector 3, and
that of the other two in sectors 4 and 5. The file and the free map are open. -/
def smallFs (length : Word) : Fs where
  device :=
    { size := 6
      sectors := fun sector =>
        if sector = 0 then (smallDisk 4 4).encode
        else if sector = 1 then (smallDisk 5 320).encode
        else if sector = 2 then (smallDisk 3 length).encode
        else .zeros }
  freeMap := { bitCnt := 6, bits := fun _ => 63 }
  freeMapFile := some { inode := 1, pos := 0, denyWrite := false }
  inodes := fun address =>
    if address = 0 then some (smallInode length)
    else if address = 1 then some { smallInode 4 with sector := 0, data := smallDisk 4 4 }
    else none
  openInodes := [0, 1]
  nextInode := 2
  i := 0
  mallocs := fun _ => true

lemma smallFs_heapOk (length : Word) : (smallFs length).HeapOk := fun _ => rfl

lemma smallFs_inodes (length : Word) : (smallFs length).inodes 0 = some (smallInode length) :=
  rfl

lemma smallFs_wellFormed_one : (smallInode 1).data.WellFormed (smallFs 1).device :=
  smallDisk_wellFormed (by decide) (by decide) (by decide) (by decide)

end Pintos
