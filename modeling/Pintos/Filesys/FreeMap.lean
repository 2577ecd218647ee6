import Pintos.Filesys.Inode

/-!
# The free map

`filesys/free-map.c` together with the parts of `filesys/inode.c` that need it.
Allocating a sector writes the free map to its file, and a write past the end of
a file allocates sectors. `freeMapAllocate` closes this recursion. Its first
argument bounds both the depth of the recursion and the rounds of each writing
loop.
-/

namespace Pintos

open Pintos.Computation

def bitmapWrite (writeAt : ℕ → (ℕ → Byte) → ℤ → ℤ → Kernel ℤ) (bitmap : Bitmap) (file : File) :
    Kernel Bool := do
  let size : ℤ := byteCnt bitmap.bitCnt
  let written ← writeAt file.inode (bytesOfWords bitmap.bits) size 0
  pure (written = size)

/-- What `free_map_allocate` does once it has marked the sectors: write the free map to its file,
and take the marks back if that fails. -/
def recordAllocation (writeAt : ℕ → (ℕ → Byte) → ℤ → ℤ → Kernel ℤ) (sector cnt : ℕ)
    (flipped : Bitmap) (file : File) : Kernel (Option Word) := do
  let written ← bitmapWrite writeAt flipped file
  if written then
    pure (some (BitVec.ofNat 32 sector))
  else do
    updates fun fs =>
      { fs with freeMap := bitmapSetMultiple fs.freeMap sector cnt false }
    pure none

/-- `free_map_allocate`: the first of `cnt` consecutive free sectors, now marked used. -/
def freeMapAllocate : ℕ → ℕ → Kernel (Option Word)
  | 0, _ => stop .running
  | fuel + 1, cnt => do
    let freeMap ← reads Fs.freeMap
    match bitmapScanAndFlip freeMap 0 cnt false with
    | (none, _) => pure none
    | (some sector, flipped) => do
      updates fun fs => { fs with freeMap := flipped }
      let freeMapFile ← reads Fs.freeMapFile
      match freeMapFile with
      | none => pure (some (BitVec.ofNat 32 sector))
      | some file =>
        recordAllocation (inodeWriteAtWith (freeMapAllocate fuel) fuel) sector cnt
          flipped file

def inodeWriteAt (fuel : ℕ) : ℕ → (ℕ → Byte) → ℤ → ℤ → Kernel ℤ :=
  inodeWriteAtWith (freeMapAllocate fuel) fuel

def freeMapRelease (fuel : ℕ) (sector : Word) (cnt : ℕ) : Kernel Unit := do
  let freeMap ← reads Fs.freeMap
  if sector.toNat + cnt ≤ freeMap.bitCnt ∧ bitmapAll freeMap sector.toNat cnt then do
    let cleared := bitmapSetMultiple freeMap sector.toNat cnt false
    updates fun fs => { fs with freeMap := cleared }
    let freeMapFile ← reads Fs.freeMapFile
    match freeMapFile with
    | none => stop .fault
    | some file => do
      let _written ← bitmapWrite (inodeWriteAt fuel) cleared file
      pure ()
  else
    stop .panic

/-- The 128 allocations for an indirect block. The source takes the sector number of the block
for the address of a `struct indirect`, so the first successful one stores to no valid address. -/
def allocateIndirect (fuel : ℕ) : ℕ → Kernel Unit
  | 0 => pure ()
  | left + 1 => do
    let sector ← freeMapAllocate fuel 1
    match sector with
    | some _ => stop .fault
    | none => allocateIndirect fuel left

/-- The out-parameter of `free_map_allocate`: stored into only on success. -/
def storeSector (disk : InodeDisk) (index : ℕ) : Option Word → InodeDisk
  | some sector => disk.setSector index sector
  | none => disk

/-- The loop of `inode_create`, with the number of sectors still needed. Each test of the source
allocates anew before it compares the index. The last branch loads from `sectors[124]` taken for
an address. -/
def inodeCreateLoop (fuel : ℕ) (sector : Word) : ℕ → ℕ → InodeDisk → Kernel Bool
  | 0, _, _ => pure true
  | secSave + 1, i, disk => do
    let first ← freeMapAllocate fuel 1
    let disk := storeSector disk i first
    if first.isSome ∧ i < 123 then do
      blockWrite (disk.sectorAt i) .zeros
      blockWrite (some sector) disk.encode
      inodeCreateLoop fuel sector secSave (i + 1) disk
    else do
      let second ← freeMapAllocate fuel 1
      let disk := storeSector disk i second
      if second.isSome ∧ i = 123 then do
        allocateIndirect fuel 128
        blockWrite (some sector) disk.encode
        inodeCreateLoop fuel sector secSave (i + 1) disk
      else do
        let third ← freeMapAllocate fuel 1
        if third.isSome ∧ i = 124 then stop .fault else pure false

def newInodeDisk (length : ℤ) : InodeDisk :=
  { InodeDisk.zeroed with length := BitVec.ofInt 32 length, magic := inodeMagic }

/-- `inode_create`. When `calloc` fails nothing is written and the result is still true. -/
def inodeCreate (fuel : ℕ) (sector : Word) (length : ℤ) : Kernel Bool :=
  if length < 0 then stop .panic
  else do
    let allocated ← malloc
    if allocated then do
      blockWrite (some sector) (newInodeDisk length).encode
      inodeCreateLoop fuel sector (bytesToSectors length) 0 (newInodeDisk length)
    else
      pure true

def inodeClose (fuel : ℕ) (address : ℕ) : Kernel Unit := do
  let inode ← derefInode address
  updates fun fs => fs.setInode address { inode with openCnt := inode.openCnt - 1 }
  if inode.openCnt - 1 = 0 then do
    updates fun fs => { fs with openInodes := fs.openInodes.erase address }
    if inode.removed then do
      freeMapRelease fuel inode.sector 1
      freeMapRelease fuel inode.data.start (bytesToSectors inode.data.size)
    else pure ()
    updates fun fs => { fs with inodes := Function.update fs.inodes address none }
  else
    pure ()

section Allocating

variable {fs : Fs} {cnt sec : ℕ} (fuel : ℕ)

lemma freeMapAllocate_full (missing : bitmapScan fs.freeMap 0 cnt false = none) :
  freeMapAllocate (fuel + 1) cnt fs = .ok (none, fs) := by
  unfold freeMapAllocate
  rw [reads_bind_apply, bitmapScanAndFlip, missing]
  rfl

lemma freeMapAllocate_unrecorded (found : bitmapScan fs.freeMap 0 cnt false = some sec)
  (noFile : fs.freeMapFile = none) :
  freeMapAllocate (fuel + 1) cnt fs = .ok (some (BitVec.ofNat 32 sec),
    { fs with freeMap := bitmapSetMultiple fs.freeMap sec cnt true }) := by
  unfold freeMapAllocate
  rw [reads_bind_apply, bitmapScanAndFlip, found]
  simp only [updates_bind_apply, noFile]
  rfl

lemma freeMapAllocate_recorded (found : bitmapScan fs.freeMap 0 cnt false = some sec)
  {file : File} (isOpen : fs.freeMapFile = some file) : freeMapAllocate (fuel + 1) cnt fs =
    recordAllocation (inodeWriteAtWith (freeMapAllocate fuel) fuel) sec cnt
      (bitmapSetMultiple fs.freeMap sec cnt true) file
      { fs with freeMap := bitmapSetMultiple fs.freeMap sec cnt true } := by
  unfold freeMapAllocate
  rw [reads_bind_apply, bitmapScanAndFlip, found]
  simp only [updates_bind_apply, isOpen]
  rfl

lemma freeMapRelease_eq_ok {sec : Word} {val : Unit} {after : Fs}
  (ran : freeMapRelease fuel sec cnt fs = .ok (val, after)) :
  sec.toNat + cnt ≤ fs.freeMap.bitCnt ∧ bitmapAll fs.freeMap sec.toNat cnt ∧
    ∃ file written, fs.freeMapFile = some file ∧
      bitmapWrite (inodeWriteAt fuel) (bitmapSetMultiple fs.freeMap sec.toNat cnt false) file
        { fs with freeMap := bitmapSetMultiple fs.freeMap sec.toNat cnt false } =
          .ok (written, after) := by
  unfold freeMapRelease at ran
  rw [reads_bind_apply] at ran
  split at ran
  · next marked =>
      refine ⟨marked.1, marked.2, ?_⟩
      simp only [updates_bind_apply, reads_bind_apply] at ran
      cases isOpen : fs.freeMapFile with
      | none =>
        rw [isOpen] at ran
        simp at ran
      | some file =>
        rw [isOpen] at ran
        obtain ⟨written, mid, wrote, same⟩ := bind_eq_ok ran
        cases same
        exact ⟨file, written, rfl, wrote⟩
  · simp at ran

end Allocating

end Pintos
