import Pintos.Filesys.State

/-!
# Inodes

The parts of `filesys/inode.c` that do not need the free map: finding the sector
of a file position, reading, and the loop of writing. The writing loop calls
`free_map_allocate` when it runs past the end of the file, and
`free_map_allocate` writes the free map through this very loop. The recursion is
left open here: the loop takes the allocator as an argument, and
`Pintos.Filesys.FreeMap` closes it.

An `off_t` is modelled as an integer. None of the computations below leaves the
range of the type for a file of at most `123` sectors and non-negative arguments.
-/

namespace Pintos

open Pintos.Computation

def bytesToSectors (size : ℤ) : ℕ :=
  ((size + blockSectorSize - 1).tdiv blockSectorSize).toNat

def divideUp (size : ℤ) : ℤ :=
  (size + (blockSectorSize - 1)).tdiv blockSectorSize

/-- Entry `index` of a `struct indirect` in a sector, indeterminate past its 128 entries. -/
def indirectEntry (sector : Sector) (index : ℕ) : Option Word :=
  if index < 128 then some (wordsOfBytes sector.bytes index) else none

/-- The sector that contains byte `pos` of the inode. The result is `none` where the source
returns a word read past the end of an array. -/
def byteToSector (inode : Inode) (pos : ℤ) : Kernel (Option Word) :=
  let spot := pos.tdiv blockSectorSize
  if 0 ≤ spot ∧ spot ≤ 122 then
    pure (inode.data.sectorAt spot.toNat)
  else if 122 < spot ∧ spot ≤ 250 then do
    let indir := spot - 122
    let tempIndir ← blockRead (inode.data.sectorAt 123)
    pure (indirectEntry tempIndir indir.toNat)
  else if 250 < spot then do
    let firstSpot := (spot - (122 + 128)).tdiv 128
    let secondSpot := (spot - (122 + 128)) - 128 * firstSpot
    let _tempIndir1 ← blockRead (inode.data.sectorAt 124)
    let tempIndir2 ← blockRead (inode.data.sectorAt firstSpot.toNat)
    pure (indirectEntry tempIndir2 secondSpot.toNat)
  else
    pure (some (-1#32))

def inodeLength (inode : Inode) : ℤ := inode.data.size

/-- The number of bytes one round of the reading or writing loop copies: what is left of the
request, of the inode and of the sector, whichever is least. -/
def chunkSize (inode : Inode) (size offset : ℤ) : ℤ :=
  let sectorOfs := offset.tmod blockSectorSize
  let inodeLeft := inodeLength inode - offset
  let sectorLeft := blockSectorSize - sectorOfs
  min size (min inodeLeft sectorLeft)

/-- The bounce buffer is allocated when it is first needed; `false` when that fails. -/
def getBounce (bounce : Bool) : Kernel Bool :=
  if bounce then pure true else malloc

/-- The loop of `inode_read_at`. The caller's buffer is an array of bytes, and the result is the
returned count with the buffer's new contents. -/
def inodeReadLoop (address : ℕ) : ℕ → (ℕ → Byte) → ℤ → ℤ → ℤ → Bool → Kernel (ℤ × (ℕ → Byte))
  | 0, buffer, size, _, bytesRead, _ =>
    if size > 0 then stop .running else pure (bytesRead, buffer)
  | fuel + 1, buffer, size, offset, bytesRead, bounce =>
    if size > 0 then do
      let inode ← derefInode address
      let sectorIdx ← byteToSector inode offset
      if offset ≥ inode.data.size then
        pure (0, buffer)
      else
        let sectorOfs := offset.tmod blockSectorSize
        let chunk := chunkSize inode size offset
        if chunk ≤ 0 then
          pure (bytesRead, buffer)
        else if sectorOfs = 0 ∧ chunk = blockSectorSize then do
          let data ← blockRead sectorIdx
          inodeReadLoop address fuel (overlay buffer bytesRead.toNat blockSectorSize data.bytes)
            (size - chunk) (offset + chunk) (bytesRead + chunk) bounce
        else do
          let ready ← getBounce bounce
          if ready then do
            let data ← blockRead sectorIdx
            inodeReadLoop address fuel
              (overlay buffer bytesRead.toNat chunk.toNat
                fun index => data.bytes (sectorOfs.toNat + index))
              (size - chunk) (offset + chunk) (bytesRead + chunk) true
          else
            pure (bytesRead, buffer)
    else
      pure (bytesRead, buffer)

/-- `inode_read_at`. Every round copies at least one byte, so `size` rounds are enough. -/
def inodeReadAt (address : ℕ) (buffer : ℕ → Byte) (size offset : ℤ) :
    Kernel (ℤ × (ℕ → Byte)) :=
  inodeReadLoop address size.toNat buffer size offset 0 false

/-- `memcpy (bounce + sector_ofs, source, chunk)`; a negative count is a huge `size_t`. -/
def copyIntoSector (bounce : Sector) (sectorOfs chunk : ℤ) (source : ℕ → Byte) : Kernel Sector :=
  if chunk < 0 then stop .fault
  else pure (.ofBytes (overlay bounce.bytes sectorOfs.toNat chunk.toNat source))

/-- The branch taken past the end of the file. The allocator stores the new sector through
`disk_inode->sectors[sector_idx]`, a word of a fresh zero-filled structure or past its end, which
is no valid address; so only a failed allocation returns from here. -/
def allocatePastEnd (allocate : ℕ → Kernel (Option Word)) (chunk remainingSize : ℤ) :
    Kernel Unit :=
  if chunk ≤ 0 then do
    let sectorsToAlloc := divideUp remainingSize
    let sector ← allocate (sectorsToAlloc % 2 ^ 32).toNat
    match sector with
    | some _ => stop .fault
    | none => pure ()
  else
    pure ()

/-- Copy one chunk to the device: a whole sector directly, anything else by way of the bounce
buffer. The result says whether that buffer is allocated now, and is `none` where the source
breaks out of its loop. -/
def writeSectorChunk (sectorIdx : Option Word) (sectorOfs chunk : ℤ) (source : ℕ → Byte)
    (bounce : Bool) : Kernel (Option Bool) :=
  if sectorOfs = 0 ∧ chunk = blockSectorSize then do
    blockWrite sectorIdx (.ofBytes source)
    pure (some bounce)
  else do
    let ready ← getBounce bounce
    if ready then do
      let old ← if sectorOfs > 0 ∨ chunk < blockSectorSize - sectorOfs then blockRead sectorIdx
        else pure .zeros
      let data ← copyIntoSector old sectorOfs chunk source
      blockWrite sectorIdx data
      pure (some true)
    else
      pure none

def inodeWriteLoop (allocate : ℕ → Kernel (Option Word)) (address : ℕ) (buffer : ℕ → Byte) :
    ℕ → ℤ → ℤ → ℤ → Bool → Kernel ℤ
  | 0, size, _, bytesWritten, _ =>
    if size > 0 then stop .running else pure bytesWritten
  | fuel + 1, size, offset, bytesWritten, bounce =>
    if size > 0 then do
      let inode ← derefInode address
      let sectorIdx ← byteToSector inode offset
      let chunk := chunkSize inode size offset
      allocatePastEnd allocate chunk (size - bytesWritten)
      let written ← writeSectorChunk sectorIdx (offset.tmod blockSectorSize) chunk
        (fun index => buffer (bytesWritten.toNat + index)) bounce
      match written with
      | some bounce =>
        inodeWriteLoop allocate address buffer fuel
          (size - chunk) (offset + chunk) (bytesWritten + chunk) bounce
      | none => pure bytesWritten
    else
      pure bytesWritten

/-- `inode_write_at` with the allocator left open. The unused `disk_inode` is still allocated and
stored into, so that an exhausted heap faults. -/
def inodeWriteAtWith (allocate : ℕ → Kernel (Option Word)) (fuel : ℕ) (address : ℕ)
    (buffer : ℕ → Byte) (size offset : ℤ) : Kernel ℤ := do
  let diskInode ← malloc
  if diskInode then do
    let inode ← derefInode address
    if inode.denyWriteCnt ≠ 0 then pure 0
    else inodeWriteLoop allocate address buffer fuel size offset 0 false
  else
    stop .fault

def Fs.findInode (fs : Fs) (sector : Word) : Option ℕ :=
  fs.openInodes.find? fun address => (fs.inodes address).any fun inode => inode.sector = sector

def openedInode (sector : Word) (data : Sector) : Inode where
  sector := sector
  openCnt := 1
  removed := false
  denyWriteCnt := 0
  data := .decode data

def Fs.pushInode (fs : Fs) (inode : Inode) : Fs :=
  { fs.setInode fs.nextInode inode with
    openInodes := fs.nextInode :: fs.openInodes
    nextInode := fs.nextInode + 1 }

def inodeOpen (sector : Word) : Kernel (Option ℕ) := do
  let found ← reads fun fs => fs.findInode sector
  match found with
  | some address => do
    let inode ← derefInode address
    updates fun fs => fs.setInode address { inode with openCnt := inode.openCnt + 1 }
    pure (some address)
  | none => do
    let allocated ← malloc
    if allocated then do
      let data ← blockRead (some sector)
      let address ← reads Fs.nextInode
      updates fun fs => fs.pushInode (openedInode sector data)
      pure (some address)
    else
      pure none

def inodeReopen (address : ℕ) : Kernel ℕ := do
  let inode ← derefInode address
  updates fun fs => fs.setInode address { inode with openCnt := inode.openCnt + 1 }
  pure address

/-- `inode_remove`. The length of the in-memory copy becomes zero. -/
def inodeRemove (address : ℕ) : Kernel Unit := do
  let inode ← derefInode address
  updates fun fs => fs.setInode address
    { inode with removed := true, data := { inode.data with length := 0 } }

def inodeDenyWrite (address : ℕ) : Kernel Unit := do
  let inode ← derefInode address
  updates fun fs => fs.setInode address { inode with denyWriteCnt := inode.denyWriteCnt + 1 }
  if inode.denyWriteCnt + 1 ≤ inode.openCnt then pure () else stop .panic

def inodeAllowWrite (address : ℕ) : Kernel Unit := do
  let inode ← derefInode address
  if 0 < inode.denyWriteCnt ∧ inode.denyWriteCnt ≤ inode.openCnt then
    updates fun fs => fs.setInode address { inode with denyWriteCnt := inode.denyWriteCnt - 1 }
  else
    stop .panic

section Opening

variable {fs : Fs} {sec : Word} {addr : ℕ} {ino : Inode}

lemma inodeOpen_shared (found : fs.findInode sec = some addr)
  (isOpen : fs.inodes addr = some ino) : inodeOpen sec fs =
    .ok (some addr, fs.setInode addr { ino with openCnt := ino.openCnt + 1 }) := by
  unfold inodeOpen
  rw [reads_bind_apply, found]
  exact bind_of_ok (derefInode_of_some isOpen)

lemma inodeOpen_fresh (heap : fs.HeapOk) (absent : fs.findInode sec = none)
  (inRange : sec.toNat < fs.device.size) : inodeOpen sec fs =
    .ok (some fs.nextInode,
      fs.pushInode (openedInode sec (fs.device.sectors sec.toNat))) := by
  unfold inodeOpen
  rw [reads_bind_apply, absent]
  simp only
  rw [bind_of_ok (malloc_of_heapOk heap), if_pos rfl, bind_of_ok (blockRead_of_lt inRange)]
  rfl

lemma Fs.findInode_eq_some (found : fs.findInode sec = some addr) :
  addr ∈ fs.openInodes ∧ ∃ ino, fs.inodes addr = some ino ∧ ino.sector = sec := by
  refine ⟨List.mem_of_find?_eq_some found, ?_⟩
  simpa [Option.any_eq_true] using List.find?_some found

lemma inodeOpen_eq_ok {opened : Option ℕ} {after : Fs}
  (ran : inodeOpen sec fs = .ok (opened, after)) :
  (∃ addr ino, addr ∈ fs.openInodes ∧ fs.inodes addr = some ino ∧
    ino.sector = sec ∧ opened = some addr ∧
    after = fs.setInode addr { ino with openCnt := ino.openCnt + 1 }) ∨
  fs.findInode sec = none ∧ ∃ alloc mid, malloc fs = .ok (alloc, mid) ∧
    (alloc = false ∧ opened = none ∧ after = mid ∨
      sec.toNat < mid.device.size ∧ opened = some mid.nextInode ∧
        after = mid.pushInode (openedInode sec (mid.device.sectors sec.toNat))) := by
  cases found : fs.findInode sec with
  | some addr =>
    rcases Fs.findInode_eq_some found with ⟨mem, ino, isOpen, isSec⟩
    rw [inodeOpen_shared found isOpen] at ran
    cases ran
    exact Or.inl ⟨addr, ino, mem, isOpen, isSec, rfl, rfl⟩
  | none =>
    unfold inodeOpen at ran
    rw [reads_bind_apply, found] at ran
    rcases bind_eq_ok ran with ⟨alloc, mid, asked, rest⟩
    refine Or.inr ⟨rfl, alloc, mid, asked, ?_⟩
    cases alloc with
    | false =>
      cases rest
      exact Or.inl ⟨rfl, rfl, rfl⟩
    | true =>
      rcases bind_eq_ok rest with ⟨data, same, read, pushed⟩
      rcases blockRead_eq_ok read with ⟨_, ⟨⟩, inRange, rfl, rfl⟩
      cases pushed
      exact Or.inr ⟨inRange, rfl, rfl⟩

@[grind =]
lemma Fs.setInode_at (fs : Fs) (addr other : ℕ) (ino : Inode) :
  (fs.setInode addr ino).inodes other = if other = addr then some ino else fs.inodes other :=
  Function.update_apply ..

@[grind =]
lemma Fs.pushInode_at (fs : Fs) (other : ℕ) (ino : Inode) : (fs.pushInode ino).inodes other =
    if other = fs.nextInode then some ino else fs.inodes other :=
  Function.update_apply ..

lemma Fs.findInode_eq_none (absent : fs.findInode sec = none) (mem : addr ∈ fs.openInodes)
  (isOpen : fs.inodes addr = some ino) : ino.sector ≠ sec := by
  have none := List.find?_eq_none.mp absent addr mem
  simpa [isOpen] using none

end Opening

end Pintos
