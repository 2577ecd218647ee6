import Pintos.Devices.Block
import Pintos.Kernel.Bitmap

/-!
# The state of the file system

The on-disk inode, the in-memory inode, open files, and the state all modules of
`filesys/` share: the device, the free map and the table of open inodes.

Pointers to in-memory inodes are addresses into `inodes`. A freed address is
never handed out again, so that a use after `free` is a fault of the model and
not a silent access to another inode. Whether a request for kernel heap memory
succeeds is an input: `mallocs` lists the outcomes of the requests to come.
-/

namespace Pintos

def inodeMagic : Word := 0x494e4f44#32

def freeMapSector : Word := 0#32

def rootDirSector : Word := 1#32

/-- `struct inode_disk`: exactly one sector, made of 128 words. -/
@[ext]
structure InodeDisk where
  start : Word
  length : Word
  magic : Word
  sectors : Fin 125 → Word

namespace InodeDisk

def size (disk : InodeDisk) : ℤ := disk.length.toInt

/-- `sectors[index]`, indeterminate past the end of the array. -/
def sectorAt (disk : InodeDisk) (index : ℕ) : Option Word :=
  if inside : index < 125 then some (disk.sectors ⟨index, inside⟩) else none

def words (disk : InodeDisk) : ℕ → Word
  | 0 => disk.start
  | 1 => disk.length
  | 2 => disk.magic
  | index + 3 => (disk.sectorAt index).getD 0

def encode (disk : InodeDisk) : Sector :=
  .ofBytes (bytesOfWords disk.words)

def decode (sector : Sector) : InodeDisk where
  start := wordsOfBytes sector.bytes 0
  length := wordsOfBytes sector.bytes 1
  magic := wordsOfBytes sector.bytes 2
  sectors index := wordsOfBytes sector.bytes (index + 3)

def zeroed : InodeDisk where
  start := 0
  length := 0
  magic := 0
  sectors _ := 0

def setSector (disk : InodeDisk) (index : ℕ) (sector : Word) : InodeDisk :=
  { disk with
    sectors := fun slot => if slot.val = index then sector else disk.sectors slot }

variable {idx : ℕ}

lemma sectorAt_of_lt (disk : InodeDisk) (inside : idx < 125) :
  disk.sectorAt idx = some (disk.sectors ⟨idx, inside⟩) := by
  simp [sectorAt, inside]

lemma wordsOfBytes_encode (disk : InodeDisk) (inside : idx < 128) :
  wordsOfBytes disk.encode.bytes idx = disk.words idx := by
  rw [← congrFun (wordsOfBytes_bytesOfWords disk.words) idx]
  apply wordsOfBytes_congr
  intro posn bound
  apply Sector.bytes_ofBytes
  unfold blockSectorSize
  omega

@[simp]
lemma decode_encode (disk : InodeDisk) : decode disk.encode = disk := by
  apply InodeDisk.ext
  · exact wordsOfBytes_encode disk (show 0 < 128 by omega)
  · exact wordsOfBytes_encode disk (show 1 < 128 by omega)
  · exact wordsOfBytes_encode disk (show 2 < 128 by omega)
  funext slot
  have word := wordsOfBytes_encode disk (show slot.val + 3 < 128 by omega)
  simpa [decode, words, sectorAt] using word

end InodeDisk

/-- `struct inode`, without the list element that links it into `open_inodes`. -/
structure Inode where
  sector : Word
  openCnt : ℤ
  removed : Bool
  denyWriteCnt : ℤ
  data : InodeDisk

structure File where
  inode : ℕ
  pos : ℤ
  denyWrite : Bool
deriving DecidableEq

/-- The state of the file system. -/
structure Fs where
  /-- `fs_device`. -/
  device : Block
  /-- `free_map`. -/
  freeMap : Bitmap
  /-- `free_map_file`, a null pointer before the file has been opened. -/
  freeMapFile : Option File
  /-- The in-memory inodes by address. -/
  inodes : ℕ → Option Inode
  /-- `open_inodes`, front first. -/
  openInodes : List ℕ
  /-- The address the next in-memory inode receives. -/
  nextInode : ℕ
  /-- `i`, the number of files created in the root directory so far, up to two. -/
  i : ℕ
  /-- The outcomes of the coming heap allocations. -/
  mallocs : ℕ → Bool

abbrev Kernel (Value : Type) := Computation Stop Fs Value

namespace Fs

/-- The heap meets every request. -/
def HeapOk (fs : Fs) : Prop := ∀ request, fs.mallocs request = true

def writeSector (fs : Fs) (sector : ℕ) (data : Sector) : Fs :=
  { fs with device := fs.device.write sector data }

def setInode (fs : Fs) (address : ℕ) (inode : Inode) : Fs :=
  { fs with inodes := Function.update fs.inodes address (some inode) }

end Fs

/-- One heap allocation; `false` stands for a null result. -/
def malloc : Kernel Bool := fun fs =>
  .ok (fs.mallocs 0, { fs with mallocs := fun request => fs.mallocs (request + 1) })

def derefInode (address : ℕ) : Kernel Inode := fun fs =>
  match fs.inodes address with
  | some inode => .ok (inode, fs)
  | none => .error .fault

/-- `block_read` from `fs_device`; an indeterminate sector number is a fault. -/
def blockRead : Option Word → Kernel Sector
  | none => .stop .fault
  | some sector => fun fs =>
    if sector.toNat < fs.device.size then .ok (fs.device.sectors sector.toNat, fs)
    else .error .panic

def blockWrite : Option Word → Sector → Kernel Unit
  | none, _ => .stop .fault
  | some sector, data => fun fs =>
    if sector.toNat < fs.device.size then .ok ((), fs.writeSector sector.toNat data)
    else .error .panic

variable {fs after : Fs} {addr : ℕ} {ino : Inode} {sec : Word} {data : Sector}

lemma malloc_of_heapOk (heap : fs.HeapOk) : malloc fs = .ok (true, fs) := by
  have rest : (fun req => fs.mallocs (req + 1)) = fs.mallocs := by
    funext req
    rw [heap, heap]
  simp [malloc, heap 0, rest]

lemma derefInode_of_some (present : fs.inodes addr = some ino) :
  derefInode addr fs = .ok (ino, fs) := by
  simp [derefInode, present]

lemma blockRead_of_lt (inRange : sec.toNat < fs.device.size) :
  blockRead (some sec) fs = .ok (fs.device.sectors sec.toNat, fs) := by
  simp [blockRead, inRange]

lemma blockWrite_of_lt (inRange : sec.toNat < fs.device.size) :
  blockWrite (some sec) data fs = .ok ((), fs.writeSector sec.toNat data) := by
  simp [blockWrite, inRange]

lemma blockRead_eq_ok {after : Fs} {sec : Option Word}
  (ran : blockRead sec fs = .ok (data, after)) :
  ∃ num : Word, sec = some num ∧ num.toNat < fs.device.size ∧
    data = fs.device.sectors num.toNat ∧ after = fs := by
  cases sec with
  | none => simp [blockRead] at ran
  | some num =>
    simp only [blockRead] at ran
    split at ran
    · next inRange =>
        cases ran
        exact ⟨num, rfl, inRange, rfl, rfl⟩
    · simp at ran

lemma blockWrite_eq_ok {sec : Option Word} {val : Unit}
  (ran : blockWrite sec data fs = .ok (val, after)) :
  ∃ num : Word, sec = some num ∧ num.toNat < fs.device.size ∧
    after = fs.writeSector num.toNat data := by
  cases sec with
  | none => simp [blockWrite] at ran
  | some num =>
    simp only [blockWrite] at ran
    split at ran
    · next inRange =>
        cases ran
        exact ⟨num, rfl, inRange, rfl⟩
    · simp at ran

lemma derefInode_eq_ok (ran : derefInode addr fs = .ok (ino, after)) :
  fs.inodes addr = some ino ∧ after = fs := by
  simp only [derefInode] at ran
  split at ran
  · next present =>
      cases ran
      exact ⟨present, rfl⟩
  · simp at ran

end Pintos
