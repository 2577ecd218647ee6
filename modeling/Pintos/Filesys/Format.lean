import Pintos.Filesys.DirectoryAdd
import Pintos.Filesys.Filesys

/-!
# Formatting

`filesys_init` with `format` set builds the free map file and the root directory
from nothing. When it returns, exactly these two inodes are live, they own their
sectors as every inode should, and the free map file is open.
-/

namespace Pintos

open Pintos.Computation Function

variable {fs after : Fs} {live : Set ℕ} {holds : ℕ → ℕ} {fuel address entryCnt : ℕ} {num : Word}
  {res : Bool} {inode : Inode} {val : Unit} {file : File}

/-- The file system's state when the kernel starts: no inode is in memory, and kernel memory is
plentiful. -/
structure Booting (fs : Fs) : Prop where
  heap : fs.HeapOk
  size_le : fs.device.size ≤ 2 ^ 32
  noInodes : ∀ address, fs.inodes address = none
  noFile : fs.freeMapFile = none

def initialMap (memory : ℕ → Word) (size : ℕ) : Bitmap :=
  bitmapMark (bitmapMark (bitmapCreate memory size) freeMapSector.toNat) rootDirSector.toNat

def Fs.initialized (fs : Fs) (memory : ℕ → Word) : Fs :=
  { fs with openInodes := [], freeMap := initialMap memory fs.device.size }

lemma initialMap_bitCnt (mem : ℕ → Word) (size : ℕ) :
  (initialMap mem size).bitCnt = size := by
  change (bitmapCreate mem size).bitCnt = size
  simp [bitmapCreate, bitmapSetAll]

lemma bitmapTest_initialMap (mem : ℕ → Word) {size sec : ℕ} (bound : sec < size) :
  bitmapTest (initialMap mem size) sec = true ↔ sec = 0 ∨ sec = 1 := by
  have clear : bitmapTest (bitmapCreate mem size) sec = false := by
    unfold bitmapCreate bitmapSetAll
    rw [bitmapTest_bitmapSetMultiple, if_pos (by simpa using bound)]
  have first := bitmapTest_bitmapSet (bitmapCreate mem size) 0 sec true
  have second := bitmapTest_bitmapSet (bitmapSet (bitmapCreate mem size) 0 true) 1 sec true
  change bitmapTest (bitmapSet (bitmapSet (bitmapCreate mem size) 0 true) 1 true) sec =
    true ↔ _
  rw [second, first, clear]
  by_cases isOne : sec = 1
  · simp [isOne]
  · simp [isOne]

lemma freeMapInit_of_heapOk (heap : fs.HeapOk) (mem : ℕ → Word) :
  freeMapInit mem fs =
    .ok ((), { fs with freeMap := initialMap mem fs.device.size }) := by
  unfold freeMapInit
  rw [bind_of_ok (malloc_of_heapOk heap), bind_of_ok (malloc_of_heapOk heap)]
  rfl

lemma owned_initialized (booting : Booting fs) (memory : ℕ → Word) :
  Owned (fs.initialized memory) ∅ fun _ => 0 where
  heap := booting.heap
  bitCnt_eq := initialMap_bitCnt memory fs.device.size
  size_le := booting.size_le
  lt _ isLive := isLive.elim
  wellFormed _ isLive := isLive.elim
  header_apart _ isLive := isLive.elim
  used _ isLive := isLive.elim
  disjoint _ isLive := isLive.elim
  mem_openInodes address := by
    constructor
    · intro member
      cases member
    intro isOpen
    exact absurd (booting.noInodes address) isOpen
  nodup := List.nodup_nil
  lt_nextInode _ member := by cases member
  live_of_open address inode isOpen := by
    have none : fs.inodes address = some inode := isOpen
    simp [booting.noInodes] at none
  cached address inode isOpen := by
    have none : fs.inodes address = some inode := isOpen
    simp [booting.noInodes] at none
  writable address inode isOpen := by
    have none : fs.inodes address = some inode := isOpen
    simp [booting.noInodes] at none
  unique left right one two isOne := by
    have none : fs.inodes left = some one := isOne
    simp [booting.noInodes] at none
  held address inode isOpen := by
    have none : fs.inodes address = some inode := isOpen
    simp [booting.noInodes] at none
  open_of_held _ positive := absurd positive (lt_irrefl 0)

lemma Owned.of_freeMapFile (owned : Owned fs live holds) (file : Option File) :
  Owned { fs with freeMapFile := file } live holds :=
  { owned with }

lemma Fs.not_mapSector_of_noFile (noFile : fs.freeMapFile = none) (sec : ℕ) :
  ¬ fs.MapSector sec := by
  rintro ⟨file, _, _, isFile, _⟩
  rw [noFile] at isFile
  cases isFile

lemma Owned.mapReady_of_noFile (owned : Owned fs live holds) (noFile : fs.freeMapFile = none) :
  fs.MapReady where
  heap := owned.heap
  bitCnt_eq := owned.bitCnt_eq
  size_le := owned.size_le
  file_open file isFile := by
    rw [noFile] at isFile
    cases isFile
  file_used sec isMap := absurd isMap (Fs.not_mapSector_of_noFile noFile sec)

lemma inodeCreate_header_lt {len : ℕ} (heap : fs.HeapOk)
  (ran : inodeCreate fuel num len fs = .ok (res, after)) :
  num.toNat < fs.device.size := by
  unfold inodeCreate at ran
  rw [if_neg (by omega), bind_of_ok (malloc_of_heapOk heap)] at ran
  obtain ⟨_, _, write, _⟩ := bind_eq_ok ran
  obtain ⟨_, same, inRange, _⟩ := blockWrite_eq_ok write
  cases same
  exact inRange

def Fs.MapOnDisk (fs : Fs) : Prop :=
  ∀ index, index < byteCnt fs.freeMap.bitCnt →
    (fs.diskAt 0).contents fs.device index = bytesOfWords fs.freeMap.bits index

structure Fs.FileIntact (fs : Fs) (address : ℕ) : Prop where
  file : fs.freeMapFile = some { inode := address, pos := 0, denyWrite := false }
  inode : ∃ inode, fs.inodes address = some inode ∧ inode.sector = freeMapSector ∧
    inode.removed = false

lemma Fs.FileIntact.fileHeld (intact : fs.FileIntact address) : fs.FileHeld := by
  obtain ⟨inode, isOpen, sec, _⟩ := intact.inode
  exact ⟨_, inode, intact.file, isOpen, sec⟩

lemma Fs.FileIntact.of_keeps (intact : fs.FileIntact address) (keeps : fs.Keeps after)
  (sameFile : after.freeMapFile = fs.freeMapFile) : after.FileIntact address where
  file := sameFile.trans intact.file
  inode := by
    obtain ⟨inode, isOpen, sec, removed⟩ := intact.inode
    obtain ⟨changed, isChanged, changedSec, changedRemoved, _⟩ := keeps _ _ isOpen
    exact ⟨changed, isChanged, changedSec.trans sec, changedRemoved.trans removed⟩

lemma card_freeSectors_initialized (fs : Fs) (mem : ℕ → Word) :
  fs.device.size ≤ (fs.initialized mem).freeSectors.card + 2 := by
  have subset : Finset.range fs.device.size ⊆ insert 0 (insert 1
      (fs.initialized mem).freeSectors) := by
    intro sec member
    rw [Finset.mem_range] at member
    simp only [Finset.mem_insert, Fs.mem_freeSectors]
    have bound : sec < (fs.initialized mem).freeMap.bitCnt := by
      change sec < (initialMap mem fs.device.size).bitCnt
      rwa [initialMap_bitCnt]
    have used : (fs.initialized mem).Used sec ↔ sec = 0 ∨ sec = 1 :=
      bitmapTest_initialMap mem member
    by_cases isZero : sec = 0
    · exact Or.inl isZero
    by_cases isOne : sec = 1
    · exact Or.inr (Or.inl isOne)
    refine Or.inr (Or.inr ⟨bound, ?_⟩)
    rw [used]
    rintro (zero | one)
    · exact isZero zero
    · exact isOne one
  have card := Finset.card_le_card subset
  have outer := Finset.card_insert_le 0 (insert 1 (fs.initialized mem).freeSectors)
  have inner := Finset.card_insert_le 1 (fs.initialized mem).freeSectors
  rw [Finset.card_range] at card
  omega

structure Fs.MapKept (fs : Fs) (address : ℕ) : Prop extends fs.FileIntact address where
  recorded : fs.Recorded
  fits : fs.MapFits

lemma Fs.MapKept.of_keeps (kept : fs.MapKept address) (ready : fs.MapReady)
  (keeps : fs.Keeps after) (sameFile : after.freeMapFile = fs.freeMapFile)
  (sameMap : after.freeMap = fs.freeMap) (secs : ∀ sec, fs.MapSector sec →
    after.device.sectors sec = fs.device.sectors sec) : after.MapKept address where
  toFileIntact := kept.toFileIntact.of_keeps keeps sameFile
  recorded := by
    intro file changed isFile isChanged index bound idxLt
    rw [sameFile] at isFile
    obtain ⟨inode, isOpen, _, wf⟩ := ready.file_open file isFile
    obtain ⟨other, isOther, _, _, data⟩ := keeps _ _ isOpen
    rw [isChanged] at isOther
    cases isOther
    rw [data] at idxLt ⊢
    rw [sameMap] at bound ⊢
    rw [← kept.recorded file inode isFile isOpen index bound idxLt]
    exact inode.data.contents_congr (secs _ ⟨file, inode, index / 512, isFile, isOpen,
      wf.toReadable.block_lt idxLt, rfl⟩)
  fits := by
    intro file changed isFile isChanged
    rw [sameFile] at isFile
    obtain ⟨inode, isOpen, _⟩ := ready.file_open file isFile
    obtain ⟨other, isOther, _, _, data⟩ := keeps _ _ isOpen
    rw [isChanged] at isOther
    cases isOther
    rw [data, sameMap]
    exact kept.fits file inode isFile isOpen

lemma Owned.data_of_not_removed (owned : Owned fs live holds)
  (isOpen : fs.inodes address = some inode) (notRemoved : inode.removed = false) :
  inode.data = fs.diskAt inode.sector.toNat := by
  rcases owned.cached address inode isOpen with ⟨_, data⟩ | ⟨removed, _⟩
  · exact data
  rw [notRemoved] at removed
  cases removed

lemma Fs.MapKept.mapOnDisk (kept : fs.MapKept address) (owned : Owned fs live holds) :
  fs.MapOnDisk := by
  obtain ⟨inode, isOpen, sec, notRemoved⟩ := kept.inode
  have fits := kept.fits _ inode kept.file isOpen
  have data := owned.data_of_not_removed isOpen notRemoved
  rw [sec] at data
  intro index bound
  change (fs.diskAt freeMapSector.toNat).contents fs.device index = _
  rw [← data]
  exact kept.recorded _ inode kept.file isOpen index bound (Nat.lt_of_lt_of_le bound fits)

lemma Fs.MapKept.map_le (kept : fs.MapKept address) (owned : Owned fs live holds) :
  byteCnt fs.freeMap.bitCnt ≤ (fs.diskAt 0).len := by
  obtain ⟨inode, isOpen, sec, notRemoved⟩ := kept.inode
  have data := owned.data_of_not_removed isOpen notRemoved
  rw [sec] at data
  change _ ≤ (fs.diskAt freeMapSector.toNat).len
  rw [← data]
  exact kept.fits _ inode kept.file isOpen

lemma fileOpen_of_heapOk (heap : fs.HeapOk) (fuel address : ℕ) :
  fileOpen fuel (some address) fs =
    .ok (some { inode := address, pos := 0, denyWrite := false }, fs) :=
  (bind_of_ok (malloc_of_heapOk heap)).trans rfl

structure MapCreated (fs after : Fs) (address : ℕ) : Prop where
  owned : Owned after {0} (hold (fun _ => 0) address)
  kept : after.MapKept address
  bitCnt_eq : after.freeMap.bitCnt = fs.freeMap.bitCnt
  size_eq : after.device.size = fs.device.size
  used : ∀ sector, fs.Used sector → after.Used sector
  fresh : ∀ sector, after.OwnsData 0 sector → ¬ fs.Used sector
  card_le : fs.freeSectors.card ≤
    after.freeSectors.card + (byteCnt fs.freeMap.bitCnt + 511) / 512

lemma Owned.not_removed (owned : Owned fs live holds) (isOpen : fs.inodes address = some inode)
  (positive : 0 < inode.data.len) : inode.removed = false := by
  rcases owned.cached address inode isOpen with ⟨kept, _⟩ | ⟨_, data⟩
  · exact kept
  rw [data, InodeDisk.len] at positive
  exact absurd positive (lt_irrefl 0)

def Fs.Unremoved (fs : Fs) (number : Word) : Prop :=
  ∀ address inode, fs.inodes address = some inode → inode.sector = number → inode.removed = false

lemma Owned.inodeOpen_returns (owned : Owned fs live holds) (isLive : num.toNat ∈ live) :
  ∃ address opened, inodeOpen num fs = .ok (some address, opened) ∧
    (fs.Unremoved num → ∀ inode, opened.inodes address = some inode →
      inode.removed = false) := by
  cases found : fs.findInode num with
  | some address =>
    obtain ⟨_, inode, isOpen, sec⟩ := Fs.findInode_eq_some found
    refine ⟨_, _, inodeOpen_shared found isOpen, ?_⟩
    intro unremoved changed isChanged
    simp only [Fs.setInode, update_self, Option.some.injEq] at isChanged
    subst isChanged
    exact unremoved address inode isOpen sec
  | none =>
    refine ⟨_, _, inodeOpen_fresh owned.heap found (owned.lt _ isLive), ?_⟩
    intro _ changed isChanged
    simp only [Fs.pushInode, Fs.setInode, update_self, Option.some.injEq] at isChanged
    subst isChanged
    rfl

lemma Owned.open_map (owned : Owned fs live holds) (isLive : 0 ∈ live) :
  ∃ address mid inode,
    (∀ fuel (next : Option File → Kernel Unit),
      (do
        let opened ← inodeOpen freeMapSector
        let freeMapFile ← fileOpen fuel opened
        updates fun fs => { fs with freeMapFile := freeMapFile }
        next freeMapFile : Kernel Unit) fs =
          next (some { inode := address, pos := 0, denyWrite := false }) mid) ∧
    Owned mid live (hold holds address) ∧
    mid.freeMapFile = some { inode := address, pos := 0, denyWrite := false } ∧
    mid.inodes address = some inode ∧ inode.sector = freeMapSector ∧
    mid.device = fs.device ∧ mid.freeMap = fs.freeMap ∧
    (fs.Unremoved freeMapSector → inode.removed = false) := by
  have isLiveMap : freeMapSector.toNat ∈ live := isLive
  obtain ⟨address, opened, opening, unremoved⟩ := owned.inodeOpen_returns isLiveMap
  obtain ⟨_, same, ownedOpen, _, dev, map, _, inode, isOpen, sec⟩ :=
    owned.of_inodeOpen isLiveMap opening
  cases same
  refine ⟨address, _, inode, ?_, ownedOpen.of_freeMapFile _, rfl, isOpen, sec, dev, map,
    fun none => unremoved none inode isOpen⟩
  intro fuel next
  refine (bind_of_ok opening).trans ?_
  exact (bind_of_ok (fileOpen_of_heapOk ownedOpen.heap fuel address)).trans rfl

lemma Owned.of_bitmapWrite {written : Bool} (owned : Owned fs live holds)
  (positive : 0 < fs.freeMap.bitCnt)
  (isFile : fs.freeMapFile = some { inode := address, pos := 0, denyWrite := false })
  (isOpen : fs.inodes address = some inode) (sec : inode.sector = freeMapSector)
  (ran : bitmapWrite (inodeWriteAt fuel) fs.freeMap
    { inode := address, pos := 0, denyWrite := false } fs = .ok (written, after)) :
  Owned after live holds ∧ after.MapKept address ∧ fs.OnlyData after ∧
    after.freeMap = fs.freeMap := by
  have fileHeld : fs.FileHeld := ⟨_, inode, isFile, isOpen, sec⟩
  obtain ⟨_, mapWritten⟩ := bitmapWrite_eq_ok (freeMapAllocate_onlyData fuel)
    (owned.mapReady fileHeld) isFile ran
  obtain ⟨cnt, mid, write, same⟩ := bind_eq_ok ran
  cases same
  obtain ⟨ownedWritten, onlyData, sameMap, _, inside, _⟩ := owned.of_inodeWriteAt isOpen
    (show inodeWriteAt fuel address _ (byteCnt fs.freeMap.bitCnt : ℕ) (0 : ℕ) fs = _ from write)
  have bytes : 0 < byteCnt fs.freeMap.bitCnt := by
    simp only [byteCnt, elemCnt, elemBits]
    omega
  have stillFile := onlyData.freeMapFile_eq.trans isFile
  have stillOpen : after.inodes address = some inode := by rw [onlyData.inodes_eq, isOpen]
  refine ⟨ownedWritten, ⟨⟨stillFile, inode, stillOpen, sec,
    owned.not_removed isOpen (by omega)⟩, mapWritten.recorded, ?_⟩, onlyData, sameMap⟩
  intro file other isOther isOtherOpen
  rw [stillFile] at isOther
  cases isOther
  rw [stillOpen] at isOtherOpen
  cases isOtherOpen
  rw [sameMap]
  omega

lemma freeMapCreate_eq_ok (owned : Owned fs ∅ fun _ => 0) (noFile : fs.freeMapFile = none)
  (usedZero : 0 < fs.device.size → fs.Used 0) (spare : fs.device.size ≤ fs.freeSectors.card + 2)
  (ran : freeMapCreate fuel fs = .ok (val, after)) :
  ∃ address, MapCreated fs after address := by
  have ready := owned.mapReady_of_noFile noFile
  have bitCnt := owned.bitCnt_eq
  unfold freeMapCreate at ran
  rw [reads_bind_apply] at ran
  obtain ⟨success, created, create, opening⟩ := bind_eq_ok ran
  have positive := inodeCreate_header_lt owned.heap create
  have new : NewHeader fs freeMapSector.toNat :=
    { lt := bitCnt.symm ▸ positive
      used := usedZero positive
      notMap := Fs.not_mapSector_of_noFile noFile _ }
  have direct : byteCnt fs.freeMap.bitCnt ≤ 123 * 512 := by
    by_contra long
    refine inodeCreate_long ready new (Nat.lt_of_not_le long) ?_ fuel success create
    simp only [byteCnt, elemCnt, elemBits] at long
    omega
  rcases inodeCreate_eq_ok ready new direct create with ⟨rfl, final, whole⟩ | ⟨rfl, _⟩
  · have ownedCreated := owned.of_created (fun other isLive => isLive.elim) new
      (fun other isLive => isLive.elim) whole direct
    rw [show insert freeMapSector.toNat (∅ : Set ℕ) = {0} by simp [freeMapSector]] at ownedCreated
    obtain ⟨address, opened, inode, run, ownedOpen, isFile, isOpen, sec, dev, map, _⟩ :=
      ownedCreated.open_map rfl
    obtain ⟨written, recorded, write, finish⟩ := bind_eq_ok
      (show (bitmapWrite (inodeWriteAt fuel) opened.freeMap _ >>= _) opened = _ from
        (run fuel _).symm.trans opening)
    have cnt : opened.freeMap.bitCnt = fs.freeMap.bitCnt := by
      rw [map, whole.onlyData.bitCnt_eq]
    obtain ⟨ownedRecorded, kept, onlyData, sameMap⟩ := ownedOpen.of_bitmapWrite
      (by omega) isFile isOpen sec write
    have last : after = recorded := by
      split at finish
      · cases finish
        rfl
      · simp at finish
    subst last
    have disk : after.diskAt 0 = final := by
      obtain ⟨same, isSame, _, notRemoved⟩ := kept.inode
      rw [onlyData.inodes_eq, isOpen] at isSame
      cases isSame
      have pre := ownedOpen.data_of_not_removed isOpen notRemoved
      have now := ownedRecorded.data_of_not_removed
        ((congrFun onlyData.inodes_eq address).trans isOpen) notRemoved
      rw [sec] at pre now
      change after.diskAt freeMapSector.toNat = final
      rw [← now, pre, ← whole.diskAt_eq]
      unfold Fs.diskAt
      rw [dev]
    refine ⟨address, ownedRecorded, kept, ?_, ?_, ?_, ?_, ?_⟩
    · rw [sameMap, cnt]
    · rw [onlyData.size_eq, dev, whole.onlyData.size_eq]
    · intro other isUsed
      unfold Fs.Used
      rw [sameMap, map]
      exact (whole.used_iff other).mpr (Or.inl isUsed)
    · rintro other ⟨blk, bound, rfl⟩
      rw [disk] at bound ⊢
      rw [whole.blockCnt_eq direct] at bound
      exact whole.fresh blk (Nat.zero_le _) bound
    unfold Fs.freeSectors
    rw [sameMap, map]
    exact whole.card_le
  · simp at opening

lemma Fs.MapKept.fileHeld (kept : fs.MapKept address) : fs.FileHeld :=
  kept.toFileIntact.fileHeld

lemma Owned.mapKept_of_dirAdd {fuel address : ℕ} {dir : Dir} {inode : Inode} {name : List Byte}
  {sec : Word} {res : Bool} (owned : Owned fs live holds) (kept : fs.MapKept address)
  (isOpen : fs.inodes dir.inode = some inode) (notMap : inode.sector ≠ freeMapSector)
  (isLive : sec.toNat ∈ live)
  (ran : dirAdd fuel dir name sec fs = .ok (res, after)) :
  Owned after live holds ∧ after.MapKept address ∧
    ∃ changed, after.inodes dir.inode = some changed ∧ changed.sector = inode.sector := by
  have ready := owned.mapReady kept.fileHeld
  obtain ⟨ownedAdded, keeps, sameMap, sameFile, others⟩ := owned.of_dirAdd isOpen isLive ran
  obtain ⟨changed, isChanged, sameSec, _⟩ := keeps _ _ isOpen
  refine ⟨ownedAdded, kept.of_keeps ready keeps sameFile sameMap ?_, changed, isChanged,
    sameSec⟩
  intro mapSec isMap
  apply others
  intro isData
  refine owned.disjoint 0 (owned.zero_live kept.fileHeld) _
    (owned.live_of_open _ _ isOpen) ?_ mapSec
    (Or.inr (owned.ownsData_of_mapSector kept.fileHeld isMap)) (Or.inr isData)
  intro isZero
  exact notMap (BitVec.eq_of_toNat_eq isZero.symm)

lemma dirOpen_of_heapOk (heap : fs.HeapOk) (fuel address : ℕ) :
  dirOpen fuel (some address) fs =
    .ok (some { inode := address, empty := false, pos := 0 }, fs) :=
  (bind_of_ok (malloc_of_heapOk heap)).trans rfl

lemma le_hold (holds : ℕ → ℕ) (address other : ℕ) : holds other ≤ hold holds address other := by
  by_cases same : other = address
  · simp [hold, same]
  · simp [hold, same]

lemma dirCreate_eq_ok (ran : dirCreate fuel num entryCnt fs = .ok (res, after)) :
  ∃ created, inodeCreate fuel num (entryCnt * dirEntrySize : ℕ) fs = .ok (res, created) ∧
    (do
      let inode ← inodeOpen num
      let firstDir ← dirOpen fuel inode
      match firstDir with
      | none => stop .fault
      | some firstDir => do
        let _added ← dirAdd fuel firstDir dotName num
        let _added ← dirAdd fuel firstDir dotDotName num
        pure res : Kernel Bool) created = .ok (res, after) := by
  obtain ⟨⟨success, firstDir⟩, ready, making, adding⟩ := bind_eq_ok ran
  obtain ⟨_, created, create, filling⟩ := bind_eq_ok making
  obtain ⟨inode, opened, opens, directory⟩ := bind_eq_ok filling
  obtain ⟨_, _, makes, done⟩ := bind_eq_ok directory
  cases done
  cases firstDir with
  | none => simp at adding
  | some firstDir =>
    obtain ⟨_, _, addDot, second⟩ := bind_eq_ok adding
    obtain ⟨_, _, addDotDot, finish⟩ := bind_eq_ok second
    cases finish
    refine ⟨created, create, ?_⟩
    rw [bind_of_ok opens, bind_of_ok makes]
    exact adding

lemma Owned.of_dirCreate (owned : Owned fs live holds) (kept : fs.MapKept address)
  (new : NewHeader fs num.toNat) (foreign : ∀ other ∈ live, ¬ fs.Owns other num.toNat)
  (direct : entryCnt * 20 ≤ 123 * 512)
  (ran : dirCreate fuel num entryCnt fs = .ok (true, after)) :
  Owned after (insert num.toNat live) holds ∧ after.MapKept address := by
  have notMap : num ≠ freeMapSector := by
    rintro rfl
    exact foreign 0 (owned.zero_live kept.fileHeld) (fs.owns_header 0)
  obtain ⟨created, create, opening⟩ := dirCreate_eq_ok ran
  obtain ⟨_, opened, isOpening, filling⟩ := bind_eq_ok opening
  rcases inodeCreate_eq_ok (owned.mapReady kept.fileHeld) new direct create with
    ⟨_, final, whole⟩ | ⟨impossible, _⟩
  · have ownedCreated := owned.of_created (owned.not_mapSector kept.fileHeld) new foreign whole
      direct
    have keptCreated : created.MapKept address :=
      { toFileIntact := kept.toFileIntact.of_keeps whole.onlyData.keeps
          whole.onlyData.freeMapFile_eq
        recorded := whole.recorded kept.recorded
        fits := whole.onlyData.mapFits kept.fits }
    obtain ⟨dirAddr, rfl, ownedOpen, keeps, dev, map, file, inode, isOpen, sec⟩ :=
      ownedCreated.of_inodeOpen (Set.mem_insert _ _) isOpening
    have keptOpen := keptCreated.of_keeps (ownedCreated.mapReady keptCreated.fileHeld) keeps file
      map (fun _ _ => by rw [dev])
    have adding := (bind_of_ok (dirOpen_of_heapOk ownedOpen.heap fuel dirAddr)).symm.trans
      filling
    obtain ⟨_, first, addDot, addingSecond⟩ := bind_eq_ok adding
    obtain ⟨ownedFirst, keptFirst, changed, isChanged, sameSec⟩ := ownedOpen.mapKept_of_dirAdd
      keptOpen isOpen (by rwa [sec]) (Set.mem_insert _ _) addDot
    obtain ⟨_, second, addDotDot, finish⟩ := bind_eq_ok addingSecond
    obtain ⟨ownedSecond, keptSecond, _⟩ := ownedFirst.mapKept_of_dirAdd keptFirst isChanged
      (by rwa [sameSec, sec]) (Set.mem_insert _ _) addDotDot
    cases finish
    exact ⟨ownedSecond.mono (le_hold holds dirAddr), keptSecond⟩
  · cases impossible

lemma Owned.of_freeMapClose (owned : Owned fs live holds) (kept : fs.MapKept address)
  (positive : 0 < holds address) (ran : freeMapClose fuel fs = .ok (val, after)) :
  Owned after live (unhold holds address) ∧ after.MapOnDisk := by
  have onDisk := kept.mapOnDisk owned
  unfold freeMapClose at ran
  rw [reads_bind_apply, kept.file] at ran
  have close := ran
  obtain ⟨inode, isOpen, _, notRemoved⟩ := kept.inode
  obtain ⟨same, isSame, cases⟩ := inodeClose_eq_ok close
  rw [isOpen] at isSame
  cases isSame
  rcases cases with ⟨_, rfl⟩ | ⟨isLast, _, rfl⟩ | ⟨_, removed, _⟩
  · exact ⟨owned.count_down isOpen positive, onDisk⟩
  · exact ⟨owned.drop_last isOpen isLast, onDisk⟩
  rw [notRemoved] at removed
  cases removed

lemma bitmapRead_stored {bitmap newMap : Bitmap} {file : File} {inode : Inode}
  (heap : fs.HeapOk) (isOpen : fs.inodes file.inode = some inode)
  (readable : inode.data.Readable fs.device)
  (ran : bitmapRead bitmap file fs = .ok ((true, newMap), after)) :
  after = fs ∧ newMap.bitCnt = bitmap.bitCnt ∧ byteCnt bitmap.bitCnt ≤ inode.data.len ∧
    ∀ idx, idx < bitmap.bitCnt → bitmapTest newMap idx =
      bitmapTest { bitmap with bits := wordsOfBytes (inode.data.contents fs.device) } idx := by
  unfold bitmapRead at ran
  split at ran
  · next positive =>
      obtain ⟨⟨cnt, bytes⟩, mid, read, finish⟩ := bind_eq_ok ran
      have bytesPositive : 0 < byteCnt bitmap.bitCnt := by
        simp only [byteCnt, elemCnt, elemBits]
        omega
      have isRead : inodeReadAt file.inode (bytesOfWords bitmap.bits)
          (byteCnt bitmap.bitCnt : ℕ) (0 : ℕ) fs = .ok ((cnt, bytes), mid) := read
      simp only [pure_apply, Except.ok.injEq, Prod.mk.injEq, decide_eq_true_eq] at finish
      obtain ⟨⟨complete, isNew⟩, rfl⟩ := finish
      by_cases inside : 0 + byteCnt bitmap.bitCnt ≤ inode.data.len
      · rw [inodeReadAt_inside heap isOpen readable inside] at isRead
        cases isRead
        subst isNew
        refine ⟨rfl, rfl, by omega, ?_⟩
        intro idx bound
        refine bitmapTest_masked
          { bitmap with bits := wordsOfBytes (inode.data.contents fs.device) }
          ?_ bound
        intro elem elemLt
        change elem < elemCnt bitmap.bitCnt at elemLt
        apply wordsOfBytes_congr
        intro posn posnLt
        rw [overlay_inside (Nat.zero_le _) (by unfold byteCnt; omega), Nat.sub_zero,
          Nat.zero_add]
      obtain ⟨_, same⟩ := (inodeReadAt_past_iff heap isOpen readable bytesPositive
        (Nat.lt_of_not_le inside) _).mp isRead
      cases same
      omega
  cases ran
  refine ⟨rfl, rfl, ?_, fun _ _ => by omega⟩
  simp only [byteCnt, elemCnt, elemBits]
  omega

lemma bitmapRead_returns (bitmap : Bitmap) (file : File) (heap : fs.HeapOk)
  (isOpen : fs.inodes file.inode = some inode) (readable : inode.data.Readable fs.device)
  (fits : byteCnt bitmap.bitCnt ≤ inode.data.len) :
  ∃ newMap, bitmapRead bitmap file fs = .ok ((true, newMap), fs) := by
  have read := inodeReadAt_inside heap isOpen readable
    (show 0 + byteCnt bitmap.bitCnt ≤ inode.data.len by omega) (bytesOfWords bitmap.bits)
  unfold bitmapRead
  generalize overlay _ 0 (byteCnt _) _ = bytes at read
  split
  · refine ⟨{ bitmap with
      bits := update (wordsOfBytes bytes) (elemCnt bitmap.bitCnt - 1)
        (wordsOfBytes bytes (elemCnt bitmap.bitCnt - 1) &&& lastMask bitmap) },
      (bind_of_ok read).trans ?_⟩
    simp
  · exact ⟨bitmap, rfl⟩

lemma bitmapRead_eq_ok {bitmap newMap : Bitmap} (heap : fs.HeapOk)
  (isOpen : fs.inodes file.inode = some inode) (readable : inode.data.Readable fs.device)
  (onFile : ∀ index, index < byteCnt bitmap.bitCnt → index < inode.data.len →
    inode.data.contents fs.device index = bytesOfWords bitmap.bits index)
  (ran : bitmapRead bitmap file fs = .ok ((true, newMap), after)) :
  after = fs ∧ newMap.bitCnt = bitmap.bitCnt ∧
    ∀ idx, idx < bitmap.bitCnt → bitmapTest newMap idx = bitmapTest bitmap idx := by
  rcases bitmapRead_stored heap isOpen readable ran with ⟨same, bitCnt, inside, stored⟩
  refine ⟨same, bitCnt, fun idx bound => (stored idx bound).trans ?_⟩
  refine bitmapTest_of_bytes bound ?_
  exact fun index idxLt => onFile index idxLt (by omega)

lemma Owned.owns_lt (owned : Owned fs live holds) {hdr sec : ℕ} (isLive : hdr ∈ live)
  (isOwned : fs.Owns hdr sec) : sec < fs.device.size := by
  rcases isOwned with rfl | ⟨blk, bound, rfl⟩
  · exact owned.lt _ isLive
  · exact (owned.wellFormed hdr isLive).sector_lt blk bound

lemma Owned.of_freeMapOpen (owned : Owned fs live holds) (onDisk : fs.MapOnDisk)
  (isLive : 0 ∈ live) (ran : freeMapOpen fuel fs = .ok (val, after)) :
  ∃ file, after.freeMapFile = some file ∧ Owned after live (hold holds file.inode) ∧
    after.FileHeld := by
  obtain ⟨address, opened, inode, run, ownedOpen, isFile, isOpen, sec, dev, map, _⟩ :=
    owned.open_map isLive
  obtain ⟨⟨success, newMap⟩, mid, read, finish⟩ := bind_eq_ok
    (show (bitmapRead opened.freeMap _ >>= _) opened = _ from (run fuel _).symm.trans ran)
  cases success with
  | false => simp at finish
  | true =>
    cases finish
    have onFile : ∀ index, index < byteCnt opened.freeMap.bitCnt → index < inode.data.len →
        inode.data.contents opened.device index = bytesOfWords opened.freeMap.bits index := by
      intro index bound idxLt
      have notRemoved := ownedOpen.not_removed isOpen (by omega)
      rw [ownedOpen.data_of_not_removed isOpen notRemoved, sec, map, dev]
      rw [map] at bound
      have same : opened.diskAt freeMapSector.toNat = fs.diskAt 0 := by
        unfold Fs.diskAt
        rw [dev]
        rfl
      rw [same]
      exact onDisk index bound
    obtain ⟨rfl, sameCnt, sameBits⟩ := bitmapRead_eq_ok ownedOpen.heap isOpen
      (ownedOpen.wellFormed_open isOpen).toReadable onFile read
    refine ⟨_, isFile, ?_, _, inode, isFile, isOpen, sec⟩
    refine ownedOpen.of_data (Fs.onlyData_freeMap _ sameCnt) subset_rfl (fun _ _ => rfl) ?_
      ownedOpen.live_of_open
    intro hdr hdrLive other isOwned
    have lt := ownedOpen.owns_lt hdrLive isOwned
    rw [← ownedOpen.bitCnt_eq] at lt
    exact (sameBits other lt).trans (ownedOpen.used hdr hdrLive other isOwned)

lemma MapCreated.root_header (created : MapCreated fs after address)
  (oneLt : 1 < fs.freeMap.bitCnt) (usedOne : fs.Used 1) : NewHeader after rootDirSector.toNat ∧
    ∀ other ∈ ({0} : Set ℕ), ¬ after.Owns other rootDirSector.toNat := by
  have notData : ¬ after.OwnsData 0 1 := fun isData => created.fresh 1 isData usedOne
  constructor
  · exact
      { lt := created.bitCnt_eq.symm ▸ oneLt
        used := created.used 1 usedOne
        notMap := fun isMap =>
          notData (created.owned.ownsData_of_mapSector created.kept.fileHeld isMap) }
  rintro other rfl (isHdr | isData)
  · cases isHdr
  · exact notData isData

lemma doFormat_eq_ok (owned : Owned fs ∅ fun _ => 0) (noFile : fs.freeMapFile = none)
  (used : ∀ sec, sec < fs.device.size → (fs.Used sec ↔ sec = 0 ∨ sec = 1))
  (spare : fs.device.size ≤ fs.freeSectors.card + 2)
  (ran : doFormat fuel fs = .ok (val, after)) :
  Owned after {1, 0} (fun _ => 0) ∧ after.MapOnDisk := by
  obtain ⟨_, mapped, createMap, rest⟩ := bind_eq_ok ran
  obtain ⟨address, created⟩ := freeMapCreate_eq_ok owned noFile
    (fun positive => (used 0 positive).mpr (Or.inl rfl)) spare createMap
  obtain ⟨success, rooted, createRoot, closing⟩ := bind_eq_ok rest
  cases success with
  | false => simp at closing
  | true =>
    obtain ⟨_, create, _⟩ := dirCreate_eq_ok createRoot
    have oneLt : 1 < fs.device.size := by
      have lt := inodeCreate_header_lt created.owned.heap create
      rwa [created.size_eq] at lt
    obtain ⟨new, foreign⟩ := created.root_header (owned.bitCnt_eq.symm ▸ oneLt)
      ((used 1 oneLt).mpr (Or.inr rfl))
    obtain ⟨ownedRoot, keptRoot⟩ := created.owned.of_dirCreate created.kept new foreign
      (by omega) createRoot
    obtain ⟨ownedClosed, onDisk⟩ := ownedRoot.of_freeMapClose keptRoot (by simp [hold]) closing
    exact ⟨ownedClosed.mono fun _ => Nat.zero_le _, onDisk⟩

lemma filesysInit_formatted {memory : ℕ → Word} (booting : Booting fs)
  (returned : filesysInit fuel memory true fs = .ok (val, after)) :
  ∃ file, after.freeMapFile = some file ∧ Owned after {1, 0} (hold (fun _ => 0) file.inode) ∧
    after.FileHeld := by
  have initialized := freeMapInit_of_heapOk
    (show ({ fs with openInodes := [] } : Fs).HeapOk from booting.heap) memory
  replace returned := (bind_of_ok initialized).symm.trans returned
  obtain ⟨_, formatted, format, opening⟩ := bind_eq_ok returned
  obtain ⟨ownedFormatted, onDisk⟩ := doFormat_eq_ok (owned_initialized booting memory)
    booting.noFile (fun sec bound => bitmapTest_initialMap memory bound)
    (card_freeSectors_initialized fs memory) format
  obtain ⟨_, opened, openMap, finish⟩ := bind_eq_ok opening
  obtain ⟨file, isFile, ownedOpen, fileHeld⟩ := ownedFormatted.of_freeMapOpen onDisk
    (Or.inr rfl) openMap
  cases finish
  exact ⟨file, isFile, { ownedOpen with }, fileHeld⟩

end Pintos
