import Pintos.Filesys.InodeWrite

/-!
# Allocating and releasing sectors

The effect of `free_map_allocate` for one sector and of `free_map_release`, for
calls that return. Both write the free map to its file, so both also change the
data sectors of that file; every other sector keeps its contents. An allocation
returns when the free map fits in its file.
-/

namespace Pintos

open Pintos.Computation

variable {fs after : Fs} {res : Option Word} {cnt fuel : ℕ} {file : File}

namespace Fs

def Used (fs : Fs) (sector : ℕ) : Prop := bitmapTest fs.freeMap sector = true

def MapSector (fs : Fs) (sector : ℕ) : Prop :=
  ∃ file inode block, fs.freeMapFile = some file ∧ fs.inodes file.inode = some inode ∧
    block < inode.data.blockCnt ∧ inode.data.dataSector block = sector

structure MapConsistent (fs : Fs) : Prop where
  bitCnt_eq : fs.freeMap.bitCnt = fs.device.size
  size_le : fs.device.size ≤ 2 ^ 32
  file_open : ∀ file, fs.freeMapFile = some file → ∃ inode, fs.inodes file.inode = some inode ∧
    inode.denyWriteCnt = 0 ∧ inode.data.WellFormed fs.device
  file_used : ∀ sector, fs.MapSector sector → fs.Used sector

structure MapReady (fs : Fs) : Prop extends MapConsistent fs where
  heap : fs.HeapOk

def MapFits (fs : Fs) : Prop :=
  ∀ file inode, fs.freeMapFile = some file → fs.inodes file.inode = some inode →
    byteCnt fs.freeMap.bitCnt ≤ inode.data.len

def Recorded (fs : Fs) : Prop :=
  ∀ file inode, fs.freeMapFile = some file → fs.inodes file.inode = some inode →
    ∀ index, index < byteCnt fs.freeMap.bitCnt → index < inode.data.len →
      inode.data.contents fs.device index = bytesOfWords fs.freeMap.bits index

lemma OnlyData.mapSector_iff (same : fs.OnlyData after) (sec : ℕ) :
    after.MapSector sec ↔ fs.MapSector sec := by
  unfold MapSector
  rw [same.freeMapFile_eq, same.inodes_eq]

lemma OnlyData.mapFits (same : fs.OnlyData after) (fits : fs.MapFits) : after.MapFits := by
  unfold MapFits
  rw [same.freeMapFile_eq, same.inodes_eq, same.bitCnt_eq]
  exact fits

lemma MapReady.of_onlyData (ready : fs.MapReady) (same : fs.OnlyData after)
    (used : ∀ sec, fs.MapSector sec → after.Used sec) : after.MapReady where
  heap := same.heapOk ready.heap
  bitCnt_eq := by rw [same.bitCnt_eq, ready.bitCnt_eq, same.size_eq]
  size_le := by
    rw [same.size_eq]
    exact ready.size_le
  file_open := by
    rw [same.freeMapFile_eq, same.inodes_eq]
    intro file isFile
    obtain ⟨ino, isOpen, writable, wf⟩ := ready.file_open file isFile
    exact ⟨ino, isOpen, writable, wf.of_size_eq same.size_eq⟩
  file_used sec isMap := used sec ((same.mapSector_iff sec).mp isMap)

lemma Recorded.of_sectors (recorded : fs.Recorded) (ready : fs.MapReady)
    (same : fs.OnlyData after) (freeMap : after.freeMap = fs.freeMap)
    (secs : ∀ sec, fs.MapSector sec →
      after.device.sectors sec = fs.device.sectors sec) : after.Recorded := by
  unfold Recorded
  rw [same.freeMapFile_eq, same.inodes_eq, freeMap]
  intro file ino isFile isOpen idx bound idxLt
  rw [← recorded file ino isFile isOpen idx bound idxLt]
  obtain ⟨found, isFound, _, wf⟩ := ready.file_open file isFile
  rw [isOpen] at isFound
  cases isFound
  have blk := wf.toReadable.block_lt idxLt
  exact ino.data.contents_congr (secs _ ⟨file, ino, idx / 512, isFile, isOpen, blk, rfl⟩)

/-- The two states differ in the inode table only, and there in neither the data nor the
writability of the free map's inode. -/
structure SameMapFile (fs after : Fs) : Prop where
  device_eq : after.device = fs.device
  freeMap_eq : after.freeMap = fs.freeMap
  freeMapFile_eq : after.freeMapFile = fs.freeMapFile
  mallocs_eq : after.mallocs = fs.mallocs
  inode_eq : ∀ file inode, fs.freeMapFile = some file → fs.inodes file.inode = some inode →
    ∃ same, after.inodes file.inode = some same ∧ same.denyWriteCnt = inode.denyWriteCnt ∧
      same.data = inode.data

namespace SameMapFile

section

variable (same : fs.SameMapFile after)
include same

lemma mapSector_iff (ready : fs.MapReady) (sec : ℕ) :
    after.MapSector sec ↔ fs.MapSector sec := by
  unfold MapSector
  rw [same.freeMapFile_eq]
  constructor
  · rintro ⟨file, ino, blk, isFile, isOpen, isBlk⟩
    rcases ready.file_open file isFile with ⟨record, isRecord, _⟩
    rcases same.inode_eq file record isFile isRecord with ⟨found, isFound, _, data⟩
    rw [isOpen] at isFound
    cases isFound
    rw [data] at isBlk
    exact ⟨file, record, blk, isFile, isRecord, isBlk⟩
  rintro ⟨file, ino, blk, isFile, isOpen, isBlk⟩
  rcases same.inode_eq file ino isFile isOpen with ⟨found, isFound, _, data⟩
  rw [← data] at isBlk
  exact ⟨file, found, blk, isFile, isFound, isBlk⟩

lemma used_iff (sec : ℕ) : after.Used sec ↔ fs.Used sec := by
  unfold Used
  rw [same.freeMap_eq]

lemma mapReady (ready : fs.MapReady) : after.MapReady where
  heap := by
    unfold HeapOk
    rw [same.mallocs_eq]
    exact ready.heap
  bitCnt_eq := by
    rw [same.freeMap_eq, same.device_eq]
    exact ready.bitCnt_eq
  size_le := by
    rw [same.device_eq]
    exact ready.size_le
  file_open := by
    rw [same.freeMapFile_eq, same.device_eq]
    intro file isFile
    rcases ready.file_open file isFile with ⟨ino, isOpen, writable, wf⟩
    rcases same.inode_eq file ino isFile isOpen with ⟨found, isFound, denied, data⟩
    refine ⟨found, isFound, denied.trans writable, ?_⟩
    rw [data]
    exact wf
  file_used sec isMap := by
    rw [same.mapSector_iff ready] at isMap
    rw [same.used_iff]
    exact ready.file_used sec isMap

lemma mapFits (ready : fs.MapReady) (fits : fs.MapFits) : after.MapFits := by
  unfold MapFits
  rw [same.freeMapFile_eq, same.freeMap_eq]
  intro file ino isFile isOpen
  rcases ready.file_open file isFile with ⟨record, isRecord, _⟩
  rcases same.inode_eq file record isFile isRecord with ⟨found, isFound, _, data⟩
  rw [isOpen] at isFound
  cases isFound
  rw [data]
  exact fits file record isFile isRecord

end

end SameMapFile

lemma onlyData_writeSector (fs : Fs) (sec : ℕ) (data : Sector) :
    fs.OnlyData (fs.writeSector sec data) :=
  ⟨rfl, rfl, rfl, rfl, rfl, rfl, rfl, id⟩

end Fs

/-- The free map file is written: only sectors of the free map change, and the file holds the
free map afterwards. -/
structure MapWritten (fs after : Fs) : Prop where
  onlyData : fs.OnlyData after
  freeMap_eq : after.freeMap = fs.freeMap
  recorded : after.Recorded
  sectors_eq : ∀ sector, ¬ fs.MapSector sector →
    after.device.sectors sector = fs.device.sectors sector

section Written

variable {allocate : ℕ → Kernel (Option Word)}
  (allocateKeeps : ∀ cnt, Preserves Fs.OnlyData (allocate cnt)) {written : Bool}

include allocateKeeps

lemma bitmapWrite_written (heap : fs.HeapOk) (isFile : fs.freeMapFile = some file) {ino : Inode}
    (isOpen : fs.inodes file.inode = some ino) (writable : ino.denyWriteCnt = 0)
    (wf : ino.data.WellFormed fs.device)
    (ran : bitmapWrite (inodeWriteAtWith allocate fuel) fs.freeMap file fs =
      .ok (written, after)) : written = true ∧ MapWritten fs after := by
  have onlyData := bitmapWrite_preserves (inodeWriteAtWith_onlyData allocateKeeps fuel) _ _ ran
  obtain ⟨count, mid, write, same⟩ := bind_eq_ok ran
  obtain ⟨rfl, inside, dev, overwritten, rfl⟩ :=
    inodeWriteAtWith_eq_ok allocateKeeps heap isOpen writable wf
      (show inodeWriteAtWith allocate fuel file.inode _ (byteCnt fs.freeMap.bitCnt : ℕ) (0 : ℕ)
        fs = _ from write)
  cases same
  refine ⟨by simp, onlyData, rfl, ?_, ?_⟩
  · intro otherFile otherIno isOther isOtherOpen idx bound idxLt
    rw [show otherFile = file by simpa [isFile] using isOther.symm, isOpen] at isOtherOpen
    cases isOtherOpen
    have blks := wf.toReadable.blockCnt_eq
    change idx < byteCnt fs.freeMap.bitCnt at bound
    rw [overwritten.contents_eq idx (by omega), overlay_inside (by omega) (by omega)]
    rfl
  intro sec notMap
  apply overwritten.sectors_eq
  intro blk blkLt isSec
  exact notMap ⟨file, ino, blk, isFile, isOpen, blkLt, isSec⟩

lemma bitmapWrite_eq_ok (ready : fs.MapReady) (isFile : fs.freeMapFile = some file)
    (ran : bitmapWrite (inodeWriteAtWith allocate fuel) fs.freeMap file fs =
      .ok (written, after)) : written = true ∧ MapWritten fs after := by
  rcases ready.file_open file isFile with ⟨ino, isOpen, writable, wf⟩
  exact bitmapWrite_written allocateKeeps ready.heap isFile isOpen writable wf ran

end Written

lemma bitmapWrite_returns (ready : fs.MapReady) (fits : fs.MapFits)
    (isFile : fs.freeMapFile = some file) :
    ∃ after, ∀ allocate fuel, byteCnt fs.freeMap.bitCnt ≤ fuel →
      bitmapWrite (inodeWriteAtWith allocate fuel) fs.freeMap file fs = .ok (true, after) := by
  obtain ⟨ino, isOpen, writable, wf⟩ := ready.file_open file isFile
  have inside : 0 + byteCnt fs.freeMap.bitCnt ≤ ino.data.len := by
    rw [Nat.zero_add]
    exact fits file ino isFile isOpen
  obtain ⟨dev, _, run⟩ := inodeWriteAtWith_inside ready.heap isOpen writable wf inside
    (bytesOfWords fs.freeMap.bits)
  refine ⟨{ fs with device := dev }, ?_⟩
  intro allocate fuel enough
  have written := run allocate fuel enough
  simp only [Nat.cast_zero] at written
  unfold bitmapWrite
  rw [bind_of_ok written]
  simp

structure Allocated (fs after : Fs) (sector : ℕ) : Prop where
  onlyData : fs.OnlyData after
  lt : sector < fs.freeMap.bitCnt
  free : ¬ fs.Used sector
  used_iff : ∀ other, after.Used other ↔ other = sector ∨ fs.Used other
  recorded : after.Recorded
  sectors_eq : ∀ other, ¬ fs.MapSector other →
    after.device.sectors other = fs.device.sectors other

section

variable (ready : fs.MapReady)
include ready

lemma Allocated.mapReady {sec : ℕ} (alloc : Allocated fs after sec) : after.MapReady := by
  refine ready.of_onlyData alloc.onlyData ?_
  intro other isMap
  rw [alloc.used_iff]
  exact Or.inr (ready.file_used other isMap)

lemma mark_sector {sec : ℕ} (found : bitmapScan fs.freeMap 0 1 false = some sec) :
    let marked := { fs with freeMap := bitmapSetMultiple fs.freeMap sec 1 true }
    marked.MapReady ∧ fs.OnlyData marked ∧ sec < fs.freeMap.bitCnt ∧ ¬ fs.Used sec ∧
      ∀ other, marked.Used other ↔ other = sec ∨ fs.Used other := by
  obtain ⟨_, bound, free⟩ := bitmapScan_eq_some found
  have onlyData := fs.onlyData_freeMap (bitmapSetMultiple_bitCnt fs.freeMap sec 1 true)
  have usedIff : ∀ other, Fs.Used
      { fs with freeMap := bitmapSetMultiple fs.freeMap sec 1 true } other ↔
        other = sec ∨ fs.Used other := by
    intro other
    unfold Fs.Used
    rw [bitmapTest_bitmapSetMultiple]
    by_cases same : other = sec
    · simp [same]
    rw [if_neg (by omega)]
    simp [same]
  refine ⟨ready.of_onlyData onlyData ?_, onlyData, by omega, ?_, usedIff⟩
  · intro other isMap
    exact (usedIff other).mpr (Or.inr (ready.file_used other isMap))
  · simpa [Fs.Used] using free 0 (by omega)

lemma freeMapAllocate_eq_ok (ran : freeMapAllocate fuel 1 fs = .ok (res, after)) :
    (res = none ∧ after = fs ∧ ∀ sec, sec < fs.freeMap.bitCnt → fs.Used sec) ∨
      ∃ sec, res = some (BitVec.ofNat 32 sec) ∧ Allocated fs after sec := by
  cases fuel with
  | zero => simp [freeMapAllocate] at ran
  | succ fuel =>
    cases scan : bitmapScan fs.freeMap 0 1 false with
    | none =>
      rw [freeMapAllocate_full fuel scan] at ran
      cases ran
      refine Or.inl ⟨rfl, rfl, ?_⟩
      intro sec bound
      obtain ⟨i, iLt, used⟩ := bitmapScan_eq_none scan sec (Nat.zero_le _) (by omega)
      have first : i = 0 := by omega
      simpa [Fs.Used, first] using used
    | some sec =>
      obtain ⟨markedReady, onlyData, lt, free, usedIff⟩ := mark_sector ready scan
      refine Or.inr ⟨sec, ?_⟩
      cases isFile : fs.freeMapFile with
      | none =>
        rw [freeMapAllocate_unrecorded fuel scan isFile] at ran
        cases ran
        refine ⟨rfl, onlyData, lt, free, usedIff, ?_, fun _ _ => rfl⟩
        intro file ino isSome
        rw [show _ = none from isFile] at isSome
        cases isSome
      | some file =>
        rw [freeMapAllocate_recorded fuel scan isFile] at ran
        obtain ⟨written, mid, wrote, rest⟩ := bind_eq_ok ran
        obtain ⟨rfl, mapWritten⟩ := bitmapWrite_eq_ok (freeMapAllocate_onlyData fuel)
          markedReady isFile wrote
        cases rest
        refine ⟨rfl, IsTrans.trans _ _ _ onlyData mapWritten.onlyData, lt, free, ?_,
          mapWritten.recorded, mapWritten.sectors_eq⟩
        intro other
        rw [← usedIff]
        unfold Fs.Used
        rw [mapWritten.freeMap_eq]

lemma freeMapAllocate_allocated {sec : Word}
    (ran : freeMapAllocate fuel 1 fs = .ok (some sec, after)) :
    Allocated fs after sec.toNat := by
  rcases freeMapAllocate_eq_ok ready ran with ⟨impossible, _⟩ | ⟨num, same, alloc⟩
  · cases impossible
  cases same
  have bitCnt := ready.bitCnt_eq
  have sizeLe := ready.size_le
  have lt := alloc.lt
  rwa [BitVec.toNat_ofNat, Nat.mod_eq_of_lt (by omega)]

lemma freeMapAllocate_returns (fits : fs.MapFits) {free : ℕ} (freeLt : free < fs.freeMap.bitCnt)
    (isFree : ¬ fs.Used free) : ∃ sec after, ∀ fuel, byteCnt fs.freeMap.bitCnt < fuel →
      freeMapAllocate fuel 1 fs = .ok (some sec, after) := by
  cases scan : bitmapScan fs.freeMap 0 1 false with
  | none =>
    obtain ⟨i, iLt, used⟩ := bitmapScan_eq_none scan free (Nat.zero_le _) (by omega)
    have first : i = 0 := by omega
    exact absurd (by simpa [Fs.Used, first] using used) isFree
  | some sec =>
    obtain ⟨markedReady, onlyData, _⟩ := mark_sector ready scan
    cases isFile : fs.freeMapFile with
    | none =>
      refine ⟨BitVec.ofNat 32 sec,
        { fs with freeMap := bitmapSetMultiple fs.freeMap sec 1 true }, ?_⟩
      intro fuel enough
      obtain ⟨less, rfl⟩ : ∃ less, fuel = less + 1 := ⟨fuel - 1, by omega⟩
      exact freeMapAllocate_unrecorded less scan isFile
    | some file =>
      obtain ⟨written, run⟩ := bitmapWrite_returns markedReady (onlyData.mapFits fits) isFile
      refine ⟨BitVec.ofNat 32 sec, written, ?_⟩
      intro fuel enough
      obtain ⟨less, rfl⟩ : ∃ less, fuel = less + 1 := ⟨fuel - 1, by omega⟩
      have wrote := run (freeMapAllocate less) less (by simp; omega)
      rw [freeMapAllocate_recorded less scan isFile, recordAllocation, bind_of_ok wrote]
      rfl

end

structure Released (fs after : Fs) (start cnt : ℕ) : Prop where
  onlyData : fs.OnlyData after
  le : start + cnt ≤ fs.freeMap.bitCnt
  used : ∀ other, start ≤ other → other < start + cnt → fs.Used other
  used_iff : ∀ other, after.Used other ↔ ¬(start ≤ other ∧ other < start + cnt) ∧ fs.Used other
  recorded : after.Recorded
  sectors_eq : ∀ other, ¬ fs.MapSector other →
    after.device.sectors other = fs.device.sectors other

lemma clear_sectors (ready : fs.MapReady) {start : ℕ}
    (foreign : ∀ other, fs.MapSector other → ¬(start ≤ other ∧ other < start + cnt)) :
    let cleared := { fs with freeMap := bitmapSetMultiple fs.freeMap start cnt false }
    cleared.MapReady ∧ fs.OnlyData cleared ∧
      ∀ other, cleared.Used other ↔ ¬(start ≤ other ∧ other < start + cnt) ∧ fs.Used other := by
  have onlyData := fs.onlyData_freeMap (bitmapSetMultiple_bitCnt fs.freeMap start cnt false)
  have usedIff : ∀ other, Fs.Used
      { fs with freeMap := bitmapSetMultiple fs.freeMap start cnt false } other ↔
        ¬(start ≤ other ∧ other < start + cnt) ∧ fs.Used other := by
    intro other
    unfold Fs.Used
    rw [bitmapTest_bitmapSetMultiple]
    split
    · next inside => simp [inside]
    · next outside => simp [outside]
  refine ⟨ready.of_onlyData onlyData ?_, onlyData, usedIff⟩
  intro other isMap
  exact (usedIff other).mpr ⟨foreign other isMap, ready.file_used other isMap⟩

lemma freeMapRelease_released (ready : fs.MapReady) {sec : Word}
    (foreign : ∀ other, fs.MapSector other →
      ¬(sec.toNat ≤ other ∧ other < sec.toNat + cnt)) {val : Unit}
    (ran : freeMapRelease fuel sec cnt fs = .ok (val, after)) :
    Released fs after sec.toNat cnt := by
  rcases freeMapRelease_eq_ok fuel ran with ⟨le, marked, file, written, isFile, wrote⟩
  rcases clear_sectors ready foreign with ⟨clearedReady, onlyData, usedIff⟩
  rcases bitmapWrite_eq_ok (freeMapAllocate_onlyData fuel) clearedReady isFile wrote with
    ⟨_, mapWritten⟩
  refine ⟨IsTrans.trans _ _ _ onlyData mapWritten.onlyData, le, ?_, ?_, mapWritten.recorded,
    mapWritten.sectors_eq⟩
  · intro other lower upper
    have isSet := bitmapAll_eq_true_iff.mp marked (other - sec.toNat) (by omega)
    rwa [Nat.add_sub_cancel' lower] at isSet
  intro other
  rw [← usedIff]
  unfold Fs.Used
  rw [mapWritten.freeMap_eq]

lemma freeMapRelease_returns (ready : fs.MapReady) (fits : fs.MapFits)
    (isFile : fs.freeMapFile = some file) {sec : Word}
    (le : sec.toNat + cnt ≤ fs.freeMap.bitCnt) (used : ∀ i, i < cnt → fs.Used (sec.toNat + i))
    (foreign : ∀ other, fs.MapSector other →
      ¬(sec.toNat ≤ other ∧ other < sec.toNat + cnt)) :
    ∃ after, ∀ fuel, byteCnt fs.freeMap.bitCnt ≤ fuel →
      freeMapRelease fuel sec cnt fs = .ok ((), after) := by
  rcases clear_sectors ready foreign with ⟨clearedReady, onlyData, _⟩
  rcases bitmapWrite_returns clearedReady (onlyData.mapFits fits) isFile with ⟨after, run⟩
  refine ⟨after, ?_⟩
  intro fuel enough
  have wrote := run (freeMapAllocate fuel) fuel (by rw [bitmapSetMultiple_bitCnt]; exact enough)
  unfold freeMapRelease
  rw [reads_bind_apply, if_pos ⟨le, bitmapAll_eq_true_iff.mpr used⟩]
  simp only [updates_bind_apply, isFile]
  rw [isFile] at wrote
  exact bind_of_ok wrote

namespace Fs

def SameUsed (fs after : Fs) : Prop := ∀ sector, after.Used sector ↔ fs.Used sector

instance : IsPreorder Fs SameUsed where
  refl _ _ := Iff.rfl
  trans _ _ _ first second sector := (second sector).trans (first sector)

def KeepsUsed (fs after : Fs) : Prop := ∀ sector, fs.Used sector → after.Used sector

instance : IsPreorder Fs KeepsUsed where
  refl _ _ := id
  trans _ _ _ first second sector := second sector ∘ first sector

lemma SameUsed.keepsUsed (same : fs.SameUsed after) : fs.KeepsUsed after :=
  fun sec => (same sec).mpr

end Fs

lemma malloc_sameUsed : Preserves Fs.SameUsed malloc := by
  intro pre val after ran
  cases ran
  exact fun _ => Iff.rfl

lemma blockWrite_sameUsed (sec : Option Word) (data : Sector) :
    Preserves Fs.SameUsed (blockWrite sec data) := by
  intro pre val after ran
  rcases blockWrite_eq_ok ran with ⟨_, _, _, rfl⟩
  exact fun _ => Iff.rfl

lemma freeMapAllocate_used (ran : freeMapAllocate fuel cnt fs = .ok (res, after)) :
    (res = none ∧ fs.SameUsed after) ∨
      ∃ start, res = some (BitVec.ofNat 32 start) ∧ (∀ i, i < cnt → ¬ fs.Used (start + i)) ∧
        ∀ sec, after.Used sec ↔
          (start ≤ sec ∧ sec < start + cnt) ∨ fs.Used sec := by
  induction fuel generalizing cnt fs res after with
  | zero => simp [freeMapAllocate] at ran
  | succ fuel ih =>
    cases scan : bitmapScan fs.freeMap 0 cnt false with
    | none =>
      rw [freeMapAllocate_full fuel scan] at ran
      cases ran
      exact Or.inl ⟨rfl, fun _ => Iff.rfl⟩
    | some start =>
      have isFree : ∀ i, i < cnt → ¬ fs.Used (start + i) := by
        intro i bound
        simpa [Fs.Used] using (bitmapScan_eq_some scan).2.2 i bound
      have marked : ∀ sec, Fs.Used
          { fs with freeMap := bitmapSetMultiple fs.freeMap start cnt true } sec ↔
            (start ≤ sec ∧ sec < start + cnt) ∨ fs.Used sec := by
        intro sec
        unfold Fs.Used
        rw [bitmapTest_bitmapSetMultiple]
        split
        · next inside => simp [inside]
        · next outside => simp [outside]
      cases isFile : fs.freeMapFile with
      | none =>
        rw [freeMapAllocate_unrecorded fuel scan isFile] at ran
        cases ran
        exact Or.inr ⟨start, rfl, isFree, marked⟩
      | some file =>
        rw [freeMapAllocate_recorded fuel scan isFile] at ran
        rcases bind_eq_ok ran with ⟨written, mid, wrote, rest⟩
        have failureKeeps : ∀ cnt pre after, freeMapAllocate fuel cnt pre = .ok (none, after) →
              Fs.SameUsed pre after := by
          intro cnt pre after failed
          rcases ih failed with ⟨_, same⟩ | ⟨_, impossible, _⟩
          · exact same
          · cases impossible
        have same := bitmapWrite_preserves (inodeWriteAtWith_preserves malloc_sameUsed
          blockWrite_sameUsed failureKeeps fuel) _ _ wrote
        split at rest
        · cases rest
          exact Or.inr ⟨start, rfl, isFree, fun sec =>
            (same sec).trans (marked sec)⟩
        cases rest
        refine Or.inl ⟨rfl, ?_⟩
        intro sec
        unfold Fs.Used
        rw [bitmapTest_bitmapSetMultiple]
        split
        · next inside =>
            have notUsed := isFree (sec - start) (by omega)
            rw [Nat.add_sub_cancel' inside.1, Fs.Used] at notUsed
            simp [notUsed]
        next outside =>
          have unmarked := (same sec).trans (marked sec)
          simp only [outside, false_or] at unmarked
          exact unmarked

lemma freeMapAllocate_failed (fuel cnt : ℕ) (pre after : Fs)
    (failed : freeMapAllocate fuel cnt pre = .ok (none, after)) : pre.SameUsed after := by
  rcases freeMapAllocate_used failed with ⟨_, same⟩ | ⟨_, impossible, _⟩
  · exact same
  · cases impossible

lemma freeMapAllocate_keepsUsed (fuel cnt : ℕ) :
    Preserves Fs.KeepsUsed (freeMapAllocate fuel cnt) := by
  intro pre val after ran
  rcases freeMapAllocate_used ran with ⟨_, same⟩ | ⟨_, _, _, used⟩
  · exact same.keepsUsed
  · exact fun sec isUsed => (used sec).mpr (Or.inr isUsed)

lemma inodeWriteAt_sameUsed (fuel addr : ℕ) (buf : ℕ → Byte) (size ofs : ℤ) :
    Preserves Fs.SameUsed (inodeWriteAt fuel addr buf size ofs) :=
  inodeWriteAtWith_preserves malloc_sameUsed blockWrite_sameUsed (freeMapAllocate_failed fuel) fuel
    addr buf size ofs

lemma inodeCreate_keepsUsed (fuel : ℕ) (sec : Word) (len : ℤ) :
    Preserves Fs.KeepsUsed (inodeCreate fuel sec len) :=
  inodeCreate_preserves (fun _ _ _ ran => (malloc_sameUsed ran).keepsUsed)
    (fun _ _ _ _ _ ran => (blockWrite_sameUsed _ _ ran).keepsUsed)
    (freeMapAllocate_keepsUsed fuel) sec len

end Pintos
