import Pintos.Filesys.OpenByName

/-!
# Opening what has been created

`filesys_create` puts the first two files into the root directory under their
whole name and later ones into the current directory under the last component of
their path, while `filesys_open` looks up the name in the root directory without
a leading slash. What is created can be opened by the same name exactly when
these agree.
-/

namespace Pintos

open Pintos.Computation

variable {fs after mid : Fs} {number : Word} {res : Dir × Word} {size : ℤ} {sector fuel : ℕ}
  {dir : Dir} {inode : Inode} {name entry : List Byte} {atRoot : Prop}

section NewInode

variable {disk : InodeDisk} {length : ℤ}

def Fs.NextSector (fs : Fs) (number : Word) : Prop :=
  ∃ sector, bitmapScan fs.freeMap 0 1 false = some sector ∧ number = BitVec.ofNat 32 sector

lemma nextSector_of_freeMapAllocate
  (ran : freeMapAllocate fuel 1 fs = .ok (some number, after)) : fs.NextSector number := by
  cases fuel with
  | zero => simp [freeMapAllocate] at ran
  | succ fuel =>
    cases scan : bitmapScan fs.freeMap 0 1 false with
    | none =>
      rw [freeMapAllocate_full fuel scan] at ran
      cases ran
    | some sector =>
      refine ⟨sector, scan, ?_⟩
      cases isFile : fs.freeMapFile with
      | none =>
        rw [freeMapAllocate_unrecorded fuel scan isFile] at ran
        cases ran
        rfl
      | some file =>
        rw [freeMapAllocate_recorded fuel scan isFile] at ran
        rcases bind_eq_ok ran with ⟨written, mid, wrote, rest⟩
        cases written with
        | false => cases rest
        | true =>
          cases rest
          rfl

lemma allocateIndirect_leaked (ready : fs.MapReady) {left hdr : ℕ} {val : Unit}
  (ran : allocateIndirect fuel left fs = .ok (val, after)) :
  Leaked fs after hdr := by
  induction left generalizing fs with
  | zero =>
    cases ran
    exact .refl _ hdr
  | succ left ih =>
    rcases bind_eq_ok ran with ⟨sector, mid, alloc, rest⟩
    have leaked := Leaked.of_freeMapAllocate ready alloc hdr
    cases sector with
    | none => exact leaked.trans (ih (leaked.mapReady ready) rest)
    | some sector => cases rest

lemma storeSector_length (disk : InodeDisk) (idx : ℕ) (sector : Option Word) :
  (storeSector disk idx sector).length = disk.length := by
  cases sector <;> rfl

lemma inodeCreateLoop_true {secSave i : ℕ} (ready : fs.MapReady)
  (new : NewHeader fs number.toNat)
  (hdrEq : fs.device.sectors number.toNat = disk.encode)
  (ran : inodeCreateLoop fuel number secSave i disk fs = .ok (true, after)) :
  Leaked fs after number.toNat ∧
    ∃ final : InodeDisk, after.device.sectors number.toNat = final.encode ∧
      final.length = disk.length := by
  induction secSave generalizing fs i disk with
  | zero =>
    cases ran
    exact ⟨.refl _ _, disk, hdrEq, rfl⟩
  | succ secSave ih =>
    have opened := ran
    rcases bind_eq_ok opened with ⟨first, mid, firstRan, rest⟩
    have leakedFirst := Leaked.of_freeMapAllocate ready firstRan number.toNat
    split at rest
    · next direct =>
        rcases freeMapAllocate_eq_ok ready firstRan with ⟨rfl, _⟩ | ⟨sector, rfl, alloc⟩
        · simp at direct
        rw [inodeCreateLoop_allocated ready new alloc direct.2 firstRan] at ran
        have created := created_round ready new disk alloc (show i < 125 by omega)
        have leaked := Leaked.of_created created
        rcases ih (leaked.mapReady ready) (new.of_leaked leaked) created.header_eq ran
          with ⟨leakedRest, final, isFinal, length⟩
        exact ⟨leaked.trans leakedRest, final, isFinal, length⟩
    rcases bind_eq_ok rest with ⟨second, middle', secondRan, rest⟩
    have readyFirst := leakedFirst.mapReady ready
    have leakedSecond := leakedFirst.trans
      (Leaked.of_freeMapAllocate readyFirst secondRan number.toNat)
    split at rest
    · rcases bind_eq_ok rest with ⟨_, indirect, allocates, rest⟩
      have leakedIndirect := leakedSecond.trans
        (allocateIndirect_leaked (leakedSecond.mapReady ready) allocates)
      rcases bind_eq_ok rest with ⟨_, written, write, rest⟩
      rcases blockWrite_eq_ok write with ⟨_, isHdr, _, rfl⟩
      cases isHdr
      have leaked := leakedIndirect.trans (leaked_header indirect number.toNat
        (storeSector (storeSector disk i first) i second).encode)
      rcases ih (leaked.mapReady ready) (new.of_leaked leaked)
        (Block.write_sectors_self _ _ _) rest with ⟨leakedRest, final, isFinal, length⟩
      refine ⟨leaked.trans leakedRest, final, isFinal, ?_⟩
      rw [length, storeSector_length, storeSector_length]
    rcases bind_eq_ok rest with ⟨third, last, _, rest⟩
    split at rest
    · cases rest
    · cases rest

lemma inodeCreate_true (ready : fs.MapReady) (new : NewHeader fs number.toNat)
  (ran : inodeCreate fuel number length fs = .ok (true, after)) :
  Leaked fs after number.toNat ∧
    ∃ final : InodeDisk, after.device.sectors number.toNat = final.encode ∧
      final.length = BitVec.ofInt 32 length := by
  have hdrLt := new.lt
  rw [ready.bitCnt_eq] at hdrLt
  unfold inodeCreate at ran
  split at ran
  · cases ran
  rw [bind_of_ok (malloc_of_heapOk ready.heap), if_pos rfl,
    bind_of_ok (blockWrite_of_lt hdrLt)] at ran
  have leaked := leaked_header fs number.toNat (newInodeDisk length).encode
  rcases inodeCreateLoop_true (leaked.mapReady ready) (new.of_leaked leaked)
    (Block.write_sectors_self _ _ _) ran with ⟨leakedLoop, final, isFinal, sameLen⟩
  exact ⟨leaked.trans leakedLoop, final, isFinal, sameLen⟩

/-- The new inode of `filesys_create` is in the next free sector, and no sector in use has
changed. -/
structure NewInode (fs after : Fs) (number : Word) (length : ℤ) : Prop where
  onlyData : fs.OnlyData after
  next : fs.NextSector number
  free : ¬ fs.Used number.toNat
  lt : number.toNat < fs.device.size
  length_eq : (after.diskAt number.toNat).length = BitVec.ofInt 32 length
  sectors_eq : ∀ other, fs.Used other → ¬ fs.MapSector other →
    after.device.sectors other = fs.device.sectors other

lemma newInode_of_filesysCreateInode (ready : fs.MapReady)
  (ran : filesysCreateInode fuel (some dir) length fs = .ok (some res, after)) :
  res.1 = dir ∧ NewInode fs after res.2 length := by
  rcases bind_eq_ok ran with ⟨allocNum, mid, allocating, rest⟩
  rcases freeMapAllocate_eq_ok ready allocating with ⟨rfl, _⟩ | ⟨sector, rfl, alloc⟩
  · cases rest
  rcases bind_eq_ok rest with ⟨created, last, creating, finish⟩
  cases created with
  | false => cases finish
  | true =>
    cases finish
    have lt := alloc.lt
    have bitCnt := ready.bitCnt_eq
    have sizeLe := ready.size_le
    have secNum : (BitVec.ofNat 32 sector).toNat = sector := by
      rw [BitVec.toNat_ofNat, Nat.mod_eq_of_lt (by omega)]
    have new : NewHeader mid (BitVec.ofNat 32 sector).toNat := by
      rw [secNum]
      exact alloc.newHeader ready
    rcases inodeCreate_true (alloc.mapReady ready) new creating with
      ⟨leaked, final, isFinal, sameLen⟩
    refine ⟨rfl, IsTrans.trans _ _ _ alloc.onlyData leaked.onlyData,
      nextSector_of_freeMapAllocate allocating, ?_, ?_, ?_, ?_⟩
    · rw [secNum]
      exact alloc.free
    · change (BitVec.ofNat 32 sector).toNat < fs.device.size
      omega
    · rw [Fs.diskAt, isFinal, InodeDisk.decode_encode, sameLen]
    intro other isUsed notMap
    have ne : other ≠ (BitVec.ofNat 32 sector).toNat := by
      rintro rfl
      rw [secNum] at isUsed
      exact alloc.free isUsed
    rw [leaked.sectors_eq other ((alloc.used_iff other).mpr (Or.inr isUsed)) _ ne,
      alloc.sectors_eq other notMap]
    rw [alloc.onlyData.mapSector_iff]
    exact notMap

end NewInode

namespace Fs

/-- A file system in use. The free map is consistent, the root directory can be read and written,
its sectors are in use and not the free map's, and its entries and all open inodes have their
headers in sectors in use. -/
structure Mounted (fs : Fs) : Prop extends RootReady fs where
  mapReady : fs.MapReady
  map_member : ∀ file, fs.freeMapFile = some file → file.inode ∈ fs.openInodes
  wellFormed : (fs.diskAt 1).WellFormed fs.device
  root_used : ∀ sector, fs.Owns 1 sector → fs.Used sector ∧ ¬ fs.MapSector sector
  root_apart : ¬ fs.OwnsData 1 1
  entry_used : ∀ step, step < 16 →
    DirEntry.inUse ((fs.diskAt 1).entryAt fs.device (20 * step)) = true →
    fs.Used (DirEntry.inodeSector ((fs.diskAt 1).entryAt fs.device (20 * step))).toNat
  open_used : ∀ address inode, address ∈ fs.openInodes → fs.inodes address = some inode →
    fs.Used inode.sector.toNat

structure OpenDir (fs : Fs) (dir : Dir) (inode : Inode) : Prop where
  isOpen : fs.inodes dir.inode = some inode
  wellFormed : inode.data.WellFormed fs.device
  data_used : ∀ block, block < inode.data.blockCnt → fs.Used (inode.data.dataSector block)
  data_foreign : inode.sector ≠ rootDirSector → ∀ block, block < inode.data.blockCnt →
    ¬ fs.Owns 1 (inode.data.dataSector block)
  root_member : inode.sector = rootDirSector → dir.inode ∈ fs.openInodes

namespace Mounted

lemma of_opened {addr : ℕ} (mounted : fs.Mounted)
  (opened : fs.InodeOpened after rootDirSector addr inode) (ready : after.RootReady) :
  after.Mounted := by
  have disk : after.diskAt 1 = fs.diskAt 1 := by
    unfold diskAt
    rw [opened.device_eq]
  have used : ∀ sector, after.Used sector ↔ fs.Used sector := by
    intro sector
    unfold Used
    rw [opened.freeMap_eq]
  have owns : ∀ sector, after.Owns 1 sector ↔ fs.Owns 1 sector :=
    owns_congr (by rw [opened.device_eq])
  have kept : ∀ file record, fs.freeMapFile = some file → fs.inodes file.inode = some record →
      ∃ changed, after.inodes file.inode = some changed ∧ changed.data = record.data ∧
        changed.denyWriteCnt = record.denyWriteCnt := by
    intro file record isFile isRecord
    by_cases same : file.inode = addr
    · have counted := opened.counted record (same ▸ mounted.map_member file isFile)
        (same ▸ isRecord)
      exact ⟨inode, same ▸ opened.isOpen, by rw [counted], by rw [counted]⟩
    · exact ⟨record, (opened.others _ same).trans isRecord, rfl, rfl⟩
  have map : ∀ sector, after.MapSector sector → fs.MapSector sector := by
    rintro sector ⟨file, changed, blk, isFile, isChanged, blkLt, rfl⟩
    rw [opened.freeMapFile_eq] at isFile
    rcases mounted.mapReady.file_open file isFile with ⟨record, isRecord, _⟩
    rcases kept file record isFile isRecord with ⟨other, isOther, sameData, _⟩
    rw [isChanged] at isOther
    cases isOther
    rw [sameData] at blkLt ⊢
    exact ⟨file, record, blk, isFile, isRecord, blkLt, rfl⟩
  refine
    { ready with
      mapReady :=
        { heap := ready.heap
          bitCnt_eq := by rw [opened.freeMap_eq, opened.device_eq, mounted.mapReady.bitCnt_eq]
          size_le := by
            rw [opened.device_eq]
            exact mounted.mapReady.size_le
          file_open := ?_
          file_used := fun sector isMap =>
            (used sector).mpr (mounted.mapReady.file_used sector (map sector isMap)) }
      map_member := ?_
      wellFormed := by
        rw [disk, opened.device_eq]
        exact mounted.wellFormed
      root_used := ?_
      root_apart := by
        unfold OwnsData
        rw [disk]
        exact mounted.root_apart
      entry_used := ?_
      open_used := ?_ }
  · intro file isFile
    rw [opened.freeMapFile_eq] at isFile
    rcases mounted.mapReady.file_open file isFile with ⟨record, isRecord, writable, wf⟩
    rcases kept file record isFile isRecord with ⟨changed, isChanged, sameData, sameDeny⟩
    refine ⟨changed, isChanged, sameDeny.trans writable, ?_⟩
    rw [sameData, opened.device_eq]
    exact wf
  · intro file isFile
    rw [opened.freeMapFile_eq] at isFile
    exact (opened.mem_openInodes _).mpr (Or.inr (mounted.map_member file isFile))
  · intro sector isOwned
    rcases mounted.root_used sector ((owns sector).mp isOwned) with ⟨isUsed, notMap⟩
    exact ⟨(used sector).mpr isUsed, fun isMap => notMap (map sector isMap)⟩
  · intro step stepLt
    rw [disk, opened.device_eq, used]
    exact mounted.entry_used step stepLt
  intro other record isMem isRecord
  rw [used]
  by_cases same : other = addr
  · subst same
    rw [opened.isOpen] at isRecord
    cases isRecord
    rw [opened.sector_eq]
    exact (mounted.root_used _ (owns_header fs 1)).1
  rw [opened.others other same] at isRecord
  rcases (opened.mem_openInodes other).mp isMem with isAddr | old
  · exact absurd isAddr same
  · exact mounted.open_used other record old isRecord

end Mounted

end Fs

section Adding

/-- A successful `dir_add` has written the entry to a slot that was not in use, and opened the
inode it names. -/
structure Added (fs after : Fs) (disk : InodeDisk) (name : List Byte) (number : Word)
    (device : Block) (step : ℕ) : Prop where
  short : name.length ≤ nameMax
  absent : disk.NoEntry fs.device (DirEntry.Matches · name)
  fits : 20 * step + 20 ≤ disk.len
  unused : DirEntry.inUse (disk.entryAt fs.device (20 * step)) = false
  overwritten : ∃ entry, Overwritten disk fs.device device (20 * step) 20
    (DirEntry.filled entry name number)
  opening : ∃ opened, inodeOpen number { fs with device := device } = .ok (opened, after)

lemma dirAdd_writes {addr ofs : ℕ} {entry : DirEntry} {cnt : ℤ} (heap : fs.HeapOk)
  (isOpen : fs.inodes addr = some inode) (wf : inode.data.WellFormed fs.device)
  (isWritten : cnt = dirEntrySize)
  (write : inodeWriteAt fuel addr entry dirEntrySize ofs fs = .ok (cnt, after)) :
  ofs + 20 ≤ inode.data.len ∧
    ∃ dev, Overwritten inode.data fs.device dev ofs 20 entry ∧
      after = { fs with device := dev } := by
  by_cases writable : inode.denyWriteCnt = 0
  · rcases inodeWriteAtWith_eq_ok (freeMapAllocate_onlyData fuel) heap isOpen writable wf
      write with ⟨_, inside, dev, overwritten, rfl⟩
    rcases inside with nothing | inside
    · cases nothing
    · exact ⟨inside, dev, overwritten, rfl⟩
  rw [inodeWriteAt, inodeWriteAtWith, bind_of_ok (malloc_of_heapOk heap), if_pos rfl,
    bind_of_ok (derefInode_of_some isOpen), if_pos writable] at write
  cases write
  cases isWritten

lemma inodeOpen_heapOk {opened : Option ℕ} (heap : fs.HeapOk)
  (ran : inodeOpen number fs = .ok (opened, after)) : after.HeapOk := by
  rcases inodeOpen_eq_ok ran with ⟨addr, record, _, _, _, _, rfl⟩ |
    ⟨_, alloc, mid, asked, rest⟩
  · exact heap
  rw [malloc_of_heapOk heap] at asked
  cases asked
  rcases rest with ⟨⟨⟩, _⟩ | ⟨_, _, rfl⟩
  exact heap

lemma added_of_dirAdd (heap : fs.HeapOk) (isOpen : fs.inodes dir.inode = some inode)
  (wf : inode.data.WellFormed fs.device)
  (ran : dirAdd fuel dir name number fs = .ok (true, after)) :
  ∃ dev step, Added fs after inode.data name number dev step := by
  unfold dirAdd at ran
  split at ran
  · cases ran
  next valid =>
    have short : name.length ≤ nameMax := by
      by_contra long
      exact valid (Or.inr (Nat.lt_of_not_le long))
    have readable := wf.toReadable
    rcases bind_eq_ok ran with ⟨found, searched, search, adding⟩
    rcases lookup_eq_ok heap isOpen readable search with ⟨same, cases⟩
    rw [same] at adding
    rcases cases with ⟨_, _, rfl⟩ | ⟨rfl, absent⟩
    · cases adding
    rcases bind_eq_ok adding with ⟨⟨entry, ofs⟩, scanned, scan, writing⟩
    rcases freeSlotLoop_eq_ok heap isOpen readable
      (show freeSlotLoop dir.inode fuel ((20 * 0 : ℕ) : ℤ) fs = _ from scan) with
      ⟨sameScan, step, isOfs, unused, _⟩
    simp only at isOfs
    rw [sameScan, isOfs] at writing
    rcases bind_eq_ok writing with ⟨cnt, written, write, looking⟩
    rcases bind_eq_ok looking with ⟨opened, looked, look, asking⟩
    rcases bind_eq_ok asking with ⟨dirAdded, last, asked, finish⟩
    cases dirAdded with
    | false => cases finish
    | true =>
      rcases Prod.mk.inj (Except.ok.inj finish) with ⟨isWritten, rfl⟩
      rcases dirAdd_writes heap isOpen wf (of_decide_eq_true isWritten) write with
        ⟨fits, dev, overwritten, rfl⟩
      have matching := matches_overwritten readable overwritten fits short
      rcases bind_eq_ok look with ⟨foundEntry, searchedAgain, searchAgain, opening⟩
      rcases lookup_eq_ok
        (show ({ fs with device := dev } : Fs).HeapOk from heap) isOpen
        (wf.of_size_eq overwritten.size_eq).toReadable searchAgain with
        ⟨rfl, ⟨other, isFirst, rfl⟩ | ⟨_, missing⟩⟩
      · have sameStep : other = step := by
          by_contra ne
          have old := isFirst.found
          rw [entryAt_overwritten_of_ne readable overwritten ne isFirst.fits] at old
          exact absent other isFirst.fits old
        subst sameStep
        simp only [inodeSector_overwritten readable overwritten fits] at opening
        have openingHeap := inodeOpen_heapOk
          (show ({ fs with device := dev } : Fs).HeapOk from heap) opening
        rw [malloc_of_heapOk openingHeap] at asked
        cases asked
        exact ⟨dev, other, short, absent, fits, unused fits, ⟨entry, overwritten⟩,
          ⟨opened, opening⟩⟩
      · exact absurd matching (missing step fits)

end Adding

/-- The root directory before and after a successful `filesys_create`: a new entry if the file was
added to the root directory, and no change otherwise. -/
structure Entered (fs after : Fs) (atRoot : Prop) (name : List Byte) (number : Word)
    (length : ℤ) : Prop where
  ready : after.RootReady
  disk_eq : after.diskAt 1 = fs.diskAt 1
  next : fs.NextSector number
  free : ¬ fs.Used number.toNat
  length_eq : (after.inodeData number).length = BitVec.ofInt 32 length
  elsewhere : ¬ atRoot → ∀ step, step < 16 →
    (fs.diskAt 1).entryAt after.device (20 * step) = (fs.diskAt 1).entryAt fs.device (20 * step)
  here : atRoot → (fs.diskAt 1).NoEntry fs.device (DirEntry.Matches · name) ∧
    ∃ slot, slot < 16 ∧ DirEntry.inUse ((fs.diskAt 1).entryAt fs.device (20 * slot)) = false ∧
      DirEntry.Matches ((fs.diskAt 1).entryAt after.device (20 * slot)) name ∧
      DirEntry.inodeSector ((fs.diskAt 1).entryAt after.device (20 * slot)) = number ∧
      ∀ step, step < 16 → step ≠ slot →
        (fs.diskAt 1).entryAt after.device (20 * step) =
          (fs.diskAt 1).entryAt fs.device (20 * step)

section Entering

variable {length : ℤ} {dev : Block} {step : ℕ} (mounted : fs.Mounted)
  (isDir : fs.OpenDir dir inode) (new : NewInode fs mid number length)
  (added : Added mid after inode.data name number dev step)

include mounted isDir new added

lemma rootHeader_kept : dev.sectors 1 = fs.device.sectors 1 := by
  rcases mounted.root_used 1 (fs.owns_header 1) with ⟨isUsed, notMap⟩
  rcases added.overwritten with ⟨entry, overwritten⟩
  rw [← new.sectors_eq 1 isUsed notMap]
  apply overwritten.sectors_eq
  intro blk blkLt isHdr
  by_cases isRoot : inode.sector = rootDirSector
  · rcases mounted.cached _ _ (isDir.root_member isRoot) isDir.isOpen isRoot with ⟨_, _, data⟩
    rw [data] at blkLt isHdr
    exact mounted.root_apart ⟨blk, blkLt, isHdr⟩
  · exact isDir.data_foreign isRoot blk blkLt (Or.inl isHdr)

omit mounted in
lemma newHeader_kept : dev.sectors number.toNat = mid.device.sectors number.toNat := by
  rcases added.overwritten with ⟨entry, overwritten⟩
  apply overwritten.sectors_eq
  intro blk blkLt isHdr
  exact new.free (isHdr ▸ isDir.data_used blk blkLt)

omit isDir added in
lemma rootEntry_created {slot : ℕ} (slotLt : slot < 16) :
  (fs.diskAt 1).entryAt mid.device (20 * slot) =
    (fs.diskAt 1).entryAt fs.device (20 * slot) := by
  have len := mounted.len_eq
  apply overlay_congr
  intro idx bound
  unfold dirEntrySize at bound
  apply InodeDisk.contents_congr
  rcases mounted.root_used _
    (Or.inr ⟨_, mounted.readable.block_lt (show 20 * slot + idx < _ by omega), rfl⟩) with
    ⟨isUsed, notMap⟩
  exact new.sectors_eq _ isUsed notMap

lemma rootEntry_elsewhere (notRoot : inode.sector ≠ rootDirSector) {slot : ℕ}
  (slotLt : slot < 16) :
  (fs.diskAt 1).entryAt dev (20 * slot) = (fs.diskAt 1).entryAt fs.device (20 * slot) := by
  have len := mounted.len_eq
  rcases added.overwritten with ⟨entry, overwritten⟩
  rw [← rootEntry_created mounted new slotLt]
  apply overlay_congr
  intro idx bound
  unfold dirEntrySize at bound
  apply InodeDisk.contents_congr
  apply overwritten.sectors_eq
  intro blk blkLt isData
  refine isDir.data_foreign notRoot blk blkLt (Or.inr ?_)
  rw [isData]
  exact ⟨_, mounted.readable.block_lt (show 20 * slot + idx < _ by omega), rfl⟩

lemma rootEntry_here (isRoot : inode.sector = rootDirSector) :
  (fs.diskAt 1).NoEntry fs.device (DirEntry.Matches · name) ∧
  step < 16 ∧ DirEntry.inUse ((fs.diskAt 1).entryAt fs.device (20 * step)) = false ∧
    DirEntry.Matches ((fs.diskAt 1).entryAt dev (20 * step)) name ∧
    DirEntry.inodeSector ((fs.diskAt 1).entryAt dev (20 * step)) = number ∧
    ∀ slot, slot < 16 → slot ≠ step →
      (fs.diskAt 1).entryAt dev (20 * slot) =
        (fs.diskAt 1).entryAt fs.device (20 * slot) := by
  rcases mounted.cached _ _ (isDir.root_member isRoot) isDir.isOpen isRoot with ⟨_, _, data⟩
  rcases added with ⟨short, absent, fits, unused, ⟨entry, overwritten⟩, _⟩
  rw [data] at absent fits unused overwritten
  have len := mounted.len_eq
  have readable := (mounted.wellFormed.of_size_eq new.onlyData.size_eq).toReadable
  refine ⟨?_, by omega, ?_, matches_overwritten readable overwritten fits short,
    inodeSector_overwritten readable overwritten fits, ?_⟩
  · intro slot slotFits
    rw [← rootEntry_created mounted new (show slot < 16 by omega)]
    exact absent slot slotFits
  · rw [← rootEntry_created mounted new (show step < 16 by omega)]
    exact unused
  intro slot slotLt ne
  rw [entryAt_overwritten_of_ne readable overwritten ne (by omega),
    rootEntry_created mounted new slotLt]

lemma rootReady_written : ({ mid with device := dev } : Fs).RootReady := by
  have hdr := rootHeader_kept mounted isDir new added
  have disk : ({ mid with device := dev } : Fs).diskAt 1 = fs.diskAt 1 := by
    rw [Fs.diskAt, hdr]
    rfl
  have size : dev.size = fs.device.size := by
    rcases added.overwritten with ⟨entry, overwritten⟩
    rw [overwritten.size_eq, new.onlyData.size_eq]
  refine
    { heap := new.onlyData.heapOk mounted.heap
      root_lt := by
        rw [show ({ mid with device := dev } : Fs).device.size = _ from size]
        exact mounted.root_lt
      readable := by
        rw [disk]
        exact (mounted.wellFormed.of_size_eq size).toReadable
      size_eq := by
        rw [disk]
        exact mounted.size_eq
      entry_lt := ?_
      present := by
        rw [show ({ mid with device := dev } : Fs).openInodes = _ from
          new.onlyData.openInodes_eq, show ({ mid with device := dev } : Fs).inodes = _ from
          new.onlyData.inodes_eq]
        exact mounted.present
      lt_nextInode := by
        rw [show ({ mid with device := dev } : Fs).openInodes = _ from
          new.onlyData.openInodes_eq, show ({ mid with device := dev } : Fs).nextInode = _
          from new.onlyData.nextInode_eq]
        exact mounted.lt_nextInode
      cached := by
        rw [disk, show ({ mid with device := dev } : Fs).openInodes = _ from
          new.onlyData.openInodes_eq, show ({ mid with device := dev } : Fs).inodes = _ from
          new.onlyData.inodes_eq]
        exact mounted.cached }
  intro slot slotLt
  rw [disk]
  rw [size]
  by_cases isRoot : inode.sector = rootDirSector
  · rcases rootEntry_here mounted isDir new added isRoot with ⟨_, _, _, _, isNum, others⟩
    by_cases same : slot = step
    · subst same
      rw [isNum]
      exact fun _ => new.lt
    rw [others slot slotLt same]
    exact mounted.entry_lt slot slotLt
  rw [rootEntry_elsewhere mounted isDir new added isRoot slotLt]
  exact mounted.entry_lt slot slotLt

lemma entered_of_added :
  Entered fs after (inode.sector = rootDirSector) name number length := by
  have ready := rootReady_written mounted isDir new added
  have size : dev.size = fs.device.size := by
    rcases added.overwritten with ⟨entry, overwritten⟩
    rw [overwritten.size_eq, new.onlyData.size_eq]
  rcases ready.inodeOpen_opened (show number.toNat < dev.size by rw [size]; exact new.lt) with
    ⟨addr, copy, last, opening, readyLast, opened⟩
  rcases added.opening with ⟨_, openingAdded⟩
  rw [opening] at openingAdded
  cases openingAdded
  have sameDev := opened.device_eq
  have absent : ({ mid with device := dev } : Fs).findInode number = none := by
    rw [Fs.findInode, List.find?_eq_none]
    intro other mem
    have isMem : other ∈ fs.openInodes := by
      rw [← new.onlyData.openInodes_eq]
      exact mem
    rcases Option.ne_none_iff_exists'.mp (mounted.present other isMem) with ⟨record, isRecord⟩
    rw [show ({ mid with device := dev } : Fs).inodes = _ from new.onlyData.inodes_eq,
      isRecord]
    have isUsed := mounted.open_used other record isMem isRecord
    simp only [Option.any_some, decide_eq_true_eq]
    intro same
    exact new.free (same ▸ isUsed)
  refine ⟨readyLast, ?_, new.next, new.free, ?_, ?_, ?_⟩
  · rw [Fs.diskAt, sameDev, rootHeader_kept mounted isDir new added]
    rfl
  · rw [opened.inodeData_eq, Fs.inodeData_of_absent absent, Fs.diskAt]
    rw [newHeader_kept isDir new added]
    exact new.length_eq
  · intro notRoot slot slotLt
    rw [sameDev]
    exact rootEntry_elsewhere mounted isDir new added notRoot slotLt
  intro isRoot
  rcases rootEntry_here mounted isDir new added isRoot with ⟨noEntry, rest⟩
  rw [sameDev]
  exact ⟨noEntry, step, rest⟩

end Entering

/-- The file created under a name is opened by the same name: `filesys_open` returns a file whose
inode is in the sector that was next to be allocated and has the given length, and every other
path that could be opened still opens the same inode. -/
def OpensCreated (fs after : Fs) (name : List Byte) (size : ℤ) : Prop :=
  OpensAs after name (fun inode =>
      fs.NextSector inode.sector ∧ inode.data.length = BitVec.ofInt 32 size) ∧
    ∀ other sector, 0 ∉ other → other ≠ name → OpensAs fs other (·.sector = sector) →
      OpensAs after other (·.sector = sector)

/-- `filesys_create` enters the file where `filesys_open` looks it up: one of the first two files
has a name without leading slash, and a later one is created in the root directory, by its last
component alone or with one slash before it. -/
def SameName (fs : Fs) (currentDir : Option Dir) (name : List Byte) : Prop :=
  if fs.i ≤ 1 then name.head? ≠ some slash
  else
    (∃ dir inode, currentDir = some dir ∧ fs.inodes dir.inode = some inode ∧
      inode.sector = rootDirSector) ∧
    (pathTokens name).getLast? = some (lookupName name)

lemma Fs.NextSector.unique {left right : Word} (one : fs.NextSector left)
  (two : fs.NextSector right) : left = right := by
  rcases one with ⟨sector, scan, rfl⟩
  rcases two with ⟨other, scanOther, rfl⟩
  rw [scan] at scanOther
  cases scanOther
  rfl

namespace Entered

variable {length : ℤ}

lemma of_same {other : Fs} (entered : Entered other after atRoot entry number length)
  (dev : other.device = fs.device) (freeMap : other.freeMap = fs.freeMap) :
  Entered fs after atRoot entry number length := by
  have disk : other.diskAt 1 = fs.diskAt 1 := by
    unfold Fs.diskAt
    rw [dev]
  rcases entered with ⟨ready, diskEq, next, free, lenEq, elsewhere, here⟩
  rw [disk, dev] at elsewhere here
  refine ⟨ready, diskEq.trans disk, ?_, ?_, lenEq, elsewhere, here⟩
  · rwa [Fs.NextSector, ← freeMap]
  · rwa [Fs.Used, ← freeMap]

lemma counted (entered : Entered fs after atRoot entry number length) (i : ℕ) :
  Entered fs { after with i := i } atRoot entry number length :=
  have ready := entered.ready
  { ready :=
      ⟨ready.heap, ready.root_lt, ready.readable, ready.size_eq, ready.entry_lt, ready.present,
        ready.lt_nextInode, ready.cached⟩
    disk_eq := entered.disk_eq
    next := entered.next
    free := entered.free
    length_eq := entered.length_eq
    elsewhere := entered.elsewhere
    here := entered.here }

variable (entered : Entered fs after atRoot entry number length) (mounted : fs.Mounted)

include entered mounted

omit mounted in
lemma entry_cases {step : ℕ} (stepLt : step < 16) :
  (fs.diskAt 1).entryAt after.device (20 * step) =
      (fs.diskAt 1).entryAt fs.device (20 * step) ∨
    (atRoot ∧ DirEntry.inUse ((fs.diskAt 1).entryAt fs.device (20 * step)) = false ∧
      DirEntry.Matches ((fs.diskAt 1).entryAt after.device (20 * step)) entry ∧
      DirEntry.inodeSector ((fs.diskAt 1).entryAt after.device (20 * step)) = number) := by
  by_cases isRoot : atRoot
  · rcases entered.here isRoot with ⟨_, slot, _, unused, matching, sector, others⟩
    by_cases same : step = slot
    · subst same
      exact Or.inr ⟨isRoot, unused, matching, sector⟩
    · exact Or.inl (others step stepLt same)
  · exact Or.inl (entered.elsewhere isRoot step stepLt)

lemma name_of_opens (noNul : 0 ∉ lookupName name) (entryNoNul : 0 ∉ entry)
  (notRoot : name ≠ [slash])
  (opens : OpensAs after name fun inode => fs.NextSector inode.sector) :
  atRoot ∧ lookupName name = entry := by
  rcases firstEntry_of_opensAs entered.ready notRoot opens with ⟨step, isFirst⟩
  rcases opens.and (opensAs_of_firstEntry entered.ready notRoot isFirst rfl) with
    ⟨inode, isNext, sector, _⟩
  rw [isNext.unique entered.next] at sector
  have len := entered.ready.len_eq
  have fits := isFirst.fits
  have found := isFirst.found
  rw [entered.disk_eq] at sector found
  rcases entered.entry_cases (show step < 16 by omega) with
    same | ⟨isRoot, _, matching, _⟩
  · rw [same] at found sector
    have isUsed := mounted.entry_used step (by omega) found.1
    rw [← sector] at isUsed
    exact absurd isUsed entered.free
  · exact ⟨isRoot, DirEntry.hasName_unique noNul entryNoNul found.2 matching.2⟩

lemma opens_of_name (notRoot : name ≠ [slash]) (isRoot : atRoot)
  (isName : lookupName name = entry) :
  OpensAs after name fun inode =>
    fs.NextSector inode.sector ∧ inode.data.length = BitVec.ofInt 32 length := by
  rcases entered.here isRoot with ⟨absent, slot, slotLt, _, matching, sector, others⟩
  have len := mounted.len_eq
  have isFirst : (after.diskAt 1).FirstEntry after.device
      (DirEntry.Matches · (lookupName name)) slot := by
    rw [entered.disk_eq, isName]
    refine ⟨by omega, matching, ?_⟩
    intro prior pre
    rw [others prior (by omega) (by omega)]
    exact absent prior (by omega)
  have isNew : DirEntry.inodeSector ((after.diskAt 1).entryAt after.device (20 * slot)) =
      number := by
    rw [entered.disk_eq]
    exact sector
  refine (opensAs_of_firstEntry entered.ready notRoot isFirst isNew).mono ?_
  rintro inode ⟨isNum, data⟩
  rw [isNum, data]
  exact ⟨entered.next, entered.length_eq⟩

lemma opens_other {other : List Byte} {sector : Word} (noNul : 0 ∉ lookupName other)
  (entryNoNul : 0 ∉ entry) (opens : OpensAs fs other (·.sector = sector)) :
  OpensAs after other (·.sector = sector) := by
  have len := mounted.len_eq
  by_cases isSlash : other = [slash]
  · subst isSlash
    rcases opens.and (opensAs_root mounted.toRootReady) with ⟨inode, isSec, isRoot⟩
    rw [← isSec, isRoot]
    exact opensAs_root entered.ready
  rcases firstEntry_of_opensAs mounted.toRootReady isSlash opens with ⟨step, isFirst⟩
  rcases opens.and (opensAs_of_firstEntry mounted.toRootReady isSlash isFirst rfl) with
    ⟨inode, rfl, isSec, _⟩
  have fits := isFirst.fits
  have same : (fs.diskAt 1).entryAt after.device (20 * step) =
      (fs.diskAt 1).entryAt fs.device (20 * step) := by
    rcases entered.entry_cases (show step < 16 by omega) with same | ⟨_, unused, _⟩
    · exact same
    have inUse := isFirst.found.1
    rw [unused] at inUse
    cases inUse
  have isFirstAfter : (after.diskAt 1).FirstEntry after.device
      (DirEntry.Matches · (lookupName other)) step := by
    rw [entered.disk_eq]
    refine ⟨fits, by rw [same]; exact isFirst.found, ?_⟩
    intro prior pre matching
    rcases entered.entry_cases (show prior < 16 by omega) with
      samePrior | ⟨isRoot, _, isEntry, _⟩
    · rw [samePrior] at matching
      exact isFirst.first prior pre matching
    rcases entered.here isRoot with ⟨absent, _⟩
    have isName := DirEntry.hasName_unique noNul entryNoNul matching.2 isEntry.2
    exact absent step fits (isName ▸ isFirst.found)
  refine (opensAs_of_firstEntry entered.ready isSlash isFirstAfter
    (by rw [entered.disk_eq, same])).mono ?_
  rintro copy ⟨isCopy, _⟩
  rw [isCopy, isSec]

end Entered

lemma Fs.Mounted.openDir_root (mounted : fs.Mounted) (dir : Dir)
  (mem : dir.inode ∈ fs.openInodes) (isOpen : fs.inodes dir.inode = some inode)
  (isRoot : inode.sector = rootDirSector) : fs.OpenDir dir inode := by
  rcases mounted.cached _ _ mem isOpen isRoot with ⟨_, _, data⟩
  refine ⟨isOpen, ?_, ?_, fun notRoot => absurd isRoot notRoot, fun _ => mem⟩
  · rw [data]
    exact mounted.wellFormed
  intro blk blkLt
  rw [data] at blkLt ⊢
  exact (mounted.root_used _ (Or.inr ⟨blk, blkLt, rfl⟩)).1

lemma entered_of_creating (mounted : fs.Mounted) (isDir : fs.OpenDir dir inode)
  (creating : filesysCreateInode fuel (some dir) size fs = .ok (some res, mid))
  (adding : dirAdd fuel res.1 entry res.2 mid = .ok (true, after)) :
  Entered fs after (inode.sector = rootDirSector) entry res.2 size := by
  rcases newInode_of_filesysCreateInode mounted.mapReady creating with ⟨isDirRes, new⟩
  rw [isDirRes] at adding
  rcases added_of_dirAdd (new.onlyData.heapOk mounted.heap)
    (show mid.inodes dir.inode = some inode by rw [new.onlyData.inodes_eq, isDir.isOpen])
    (isDir.wellFormed.of_size_eq new.onlyData.size_eq) adding with ⟨dev, step, added⟩
  exact entered_of_added mounted isDir new added

lemma not_mem_lookupName (noNul : 0 ∉ name) : 0 ∉ lookupName name := by
  unfold lookupName
  split
  · exact fun isTail => noNul (List.mem_of_mem_tail isTail)
  · exact noNul

lemma tail_ne_self {character : Byte} (leading : name.head? = some character) :
  name.tail ≠ name := by
  cases name with
  | nil => cases leading
  | cons first rest =>
    intro same
    exact absurd (congrArg List.length same) (by simp)

lemma pathTokens_slash : pathTokens [slash] = [] := by decide

lemma Entered.opens_iff (entered : Entered fs after atRoot entry number size)
  (mounted : fs.Mounted) (noNul : 0 ∉ name) (component : pathTokens name ≠ [])
  (entryNoNul : 0 ∉ entry) :
  OpensCreated fs after name size ↔ atRoot ∧ lookupName name = entry := by
  have notRoot : name ≠ [slash] := by
    rintro rfl
    exact component pathTokens_slash
  constructor
  · rintro ⟨opens, _⟩
    exact entered.name_of_opens mounted (not_mem_lookupName noNul) entryNoNul notRoot
      (opens.mono fun _ => And.left)
  rintro ⟨isRoot, isName⟩
  refine ⟨entered.opens_of_name mounted notRoot isRoot isName, ?_⟩
  intro other sector otherNoNul _ opens
  exact entered.opens_other mounted (not_mem_lookupName otherNoNul) entryNoNul opens

lemma entered_of_filesysCreate {currentDir : Option Dir} (mounted : fs.Mounted)
  (cur : ∀ dir, currentDir = some dir → ∃ inode, fs.OpenDir dir inode) (noNul : 0 ∉ name)
  (created : filesysCreate fuel currentDir name size fs = .ok (true, after)) :
  ∃ atRoot entry number, 0 ∉ entry ∧ Entered fs after atRoot entry number size ∧
    (atRoot ∧ lookupName name = entry ↔ SameName fs currentDir name) := by
  rcases filesysCreate_true created with
    ⟨dir, entry, first, ⟨other, number⟩, mid, last, entering, creating, adding, rfl⟩
  cases dir with
  | none => cases creating
  | some dir =>
    by_cases early : fs.i ≤ 1
    · rcases mounted.dirOpenRoot_opened with ⟨addr, root, opened, opening, ready, isOpened⟩
      rw [filesysCreateEntry, reads_bind_apply, if_pos early, bind_of_ok (opening fuel)]
        at entering
      cases entering
      have isDir := (mounted.of_opened isOpened ready).openDir_root
        { inode := addr, empty := false, pos := 0 } isOpened.member isOpened.isOpen
        isOpened.sector_eq
      have entered := entered_of_creating (mounted.of_opened isOpened ready) isDir creating
        adding
      rw [if_pos early, SameName, if_pos early]
      refine ⟨_, name, number, noNul,
        (entered.of_same isOpened.device_eq isOpened.freeMap_eq).counted _, ?_⟩
      constructor
      · rintro ⟨_, isName⟩ leading
        rw [lookupName, if_pos leading] at isName
        exact tail_ne_self leading isName
      intro notLeading
      exact ⟨isOpened.sector_eq, if_neg notLeading⟩
    rw [filesysCreateEntry_later (by omega)] at entering
    rw [if_neg early, SameName, if_neg early]
    cases isLast : (pathTokens name).getLast? with
    | none =>
      rw [isLast] at entering
      cases entering
    | some token =>
      rw [isLast] at entering
      cases entering
      rcases cur dir rfl with ⟨inode, isDir⟩
      refine ⟨_, entry, number, ?_, entered_of_creating mounted isDir creating adding, ?_⟩
      · exact fun isNul =>
          noNul (mem_of_mem_pathTokens (List.mem_of_getLast? isLast) isNul)
      constructor
      · rintro ⟨isRoot, isName⟩
        exact ⟨⟨dir, inode, rfl, isDir.isOpen, isRoot⟩, by rw [isName]⟩
      rintro ⟨⟨other, record, isOther, isRecord, isRoot⟩, isName⟩
      cases isOther
      rw [isDir.isOpen] at isRecord
      cases isRecord
      exact ⟨isRoot, (Option.some.inj isName).symm⟩

/-- What is created under a name is opened by that name, and other paths open what they opened
before, exactly when `filesys_create` and `filesys_open` agree on where the name is. -/
theorem opensCreated_iff {fuel : ℕ} {currentDir : Option Dir} {name : List Byte} {size : ℤ}
    (mounted : fs.Mounted)
    (current : ∀ dir, currentDir = some dir → ∃ inode, fs.OpenDir dir inode)
    (noNul : 0 ∉ name) (component : pathTokens name ≠ [])
    (created : filesysCreate fuel currentDir name size fs = .ok (true, after)) :
    OpensCreated fs after name size ↔ SameName fs currentDir name := by
  rcases entered_of_filesysCreate mounted current noNul created with
    ⟨atRoot, entry, number, entryNoNul, entered, sameName⟩
  rw [← sameName]
  exact entered.opens_iff mounted noNul component entryNoNul

/-- An empty file system on a device of eight sectors: the headers of the free map and of the root
directory are in sectors 0 and 1 and their data in sectors 2 and 3. -/
def emptyFs : Fs where
  device :=
    { size := 8
      sectors := fun sector =>
        if sector = 0 then (smallDisk 2 4).encode
        else if sector = 1 then (smallDisk 3 320).encode
        else .zeros }
  freeMap := { bitCnt := 8, bits := fun _ => 15 }
  freeMapFile := some { inode := 0, pos := 0, denyWrite := false }
  inodes := fun address =>
    if address = 0 then some (openedInode 0 (smallDisk 2 4).encode) else none
  openInodes := [0]
  nextInode := 1
  i := 0
  mallocs := fun _ => true

lemma emptyFs_diskAt : emptyFs.diskAt 1 = smallDisk 3 320 := InodeDisk.decode_encode _

lemma emptyFs_wellFormed : (emptyFs.diskAt 1).WellFormed emptyFs.device := by
  rw [emptyFs_diskAt]
  exact smallDisk_wellFormed (by decide) (by decide) (by decide) (by decide)

lemma emptyFs_dataSector (isData : emptyFs.OwnsData 1 sector) : sector = 3 := by
  rcases isData with ⟨blk, blkLt, rfl⟩
  rw [emptyFs_diskAt] at blkLt ⊢
  have blks : (smallDisk 3 320).blockCnt = 1 := by decide
  have first : blk = 0 := by omega
  subst first
  rfl

lemma emptyFs_mapSector (isMap : emptyFs.MapSector sector) : sector = 2 := by
  rcases isMap with ⟨file, inode, blk, isFile, isOpen, blkLt, rfl⟩
  cases isFile
  cases isOpen
  simp only [openedInode, InodeDisk.decode_encode] at blkLt ⊢
  have blks : (smallDisk 2 4).blockCnt = 1 := by decide
  have first : blk = 0 := by omega
  subst first
  rfl

lemma emptyFs_unused (step : ℕ) (stepLt : step < 16) :
  DirEntry.inUse ((emptyFs.diskAt 1).entryAt emptyFs.device (20 * step)) = false := by
  revert step
  decide +kernel

lemma emptyFs_mounted : emptyFs.Mounted where
  heap _ := rfl
  root_lt := by decide
  readable := emptyFs_wellFormed.toReadable
  size_eq := by
    decide
  entry_lt step stepLt inUse := by
    rw [emptyFs_unused step stepLt] at inUse
    cases inUse
  present := by
    intro address mem
    rw [List.mem_singleton.mp mem]
    exact Option.some_ne_none _
  lt_nextInode := by
    intro address mem
    rw [List.mem_singleton.mp mem]
    exact Nat.one_pos
  cached address inode mem isOpen isRoot := by
    rw [List.mem_singleton.mp mem] at isOpen
    cases isOpen
    cases isRoot
  mapReady :=
    { heap := fun _ => rfl
      bitCnt_eq := rfl
      size_le := by decide
      file_open := by
        intro file isFile
        cases isFile
        refine ⟨_, rfl, rfl, ?_⟩
        simp only [openedInode, InodeDisk.decode_encode]
        exact smallDisk_wellFormed (by decide) (by decide) (by decide) (by decide)
      file_used := by
        intro sector isMap
        rw [emptyFs_mapSector isMap]
        rfl }
  map_member file isFile := by
    cases isFile
    exact List.mem_singleton.mpr rfl
  wellFormed := emptyFs_wellFormed
  root_used sector isOwned := by
    rcases isOwned with rfl | isData
    · exact ⟨rfl, fun isMap => by cases emptyFs_mapSector isMap⟩
    rw [emptyFs_dataSector isData]
    exact ⟨rfl, fun isMap => by cases emptyFs_mapSector isMap⟩
  root_apart isData := by cases emptyFs_dataSector isData
  entry_used step stepLt inUse := by
    rw [emptyFs_unused step stepLt] at inUse
    cases inUse
  open_used address inode mem isOpen := by
    rw [List.mem_singleton.mp mem] at isOpen
    cases isOpen
    rfl

/-- The first file is created as "/a" and looked up as "a". -/
theorem not_opensCreated_slash :
    ∃ after, emptyFs.Mounted ∧ filesysCreate 20 none [slash, 97] 1 emptyFs = .ok (true, after) ∧
      ¬ OpensCreated emptyFs after [slash, 97] 1 := by
  have ran : (filesysCreate 20 none [slash, 97] 1 emptyFs).toOption.map Prod.fst = some true := by
    decide +kernel
  rcases Option.map_eq_some_iff.mp ran with ⟨⟨_, after⟩, isSome, rfl⟩
  have created := eq_ok_of_toOption isSome
  refine ⟨after, emptyFs_mounted, created, ?_⟩
  rcases entered_of_filesysCreate emptyFs_mounted (fun _ isDir => by cases isDir) (by decide)
    created with ⟨atRoot, entry, number, entryNoNul, entered, sameName⟩
  rw [entered.opens_iff emptyFs_mounted (by decide) (by decide) entryNoNul, sameName]
  exact fun notLeading => notLeading rfl

/-- A first file without a slash in its name. -/
theorem opensCreated_plain :
    ∃ after, filesysCreate 20 none [97] 1 emptyFs = .ok (true, after) ∧
      OpensCreated emptyFs after [97] 1 := by
  have ran : (filesysCreate 20 none [97] 1 emptyFs).toOption.map Prod.fst = some true := by
    decide +kernel
  rcases Option.map_eq_some_iff.mp ran with ⟨⟨_, after⟩, isSome, rfl⟩
  have created := eq_ok_of_toOption isSome
  exact ⟨after, created, (opensCreated_iff emptyFs_mounted (fun _ isDir => by cases isDir)
    (by decide) (by decide) created).mpr (by simp [SameName, emptyFs, slash])⟩

end Pintos
