import Pintos.Filesys.FormatRoot
import Pintos.Library.Runs

/-!
# The free map after a remount

`free_map_allocate` and `free_map_release` write the whole free map to its file
each time. So the bits in the file are those in memory after every call, whatever
sectors were allocated and released, and `free_map_open` finds them again. Only
the bits past the size of the device may differ: `bitmap_read` clears them.
-/

namespace Pintos

open Pintos.Computation

variable {fs after : Fs} {fuel : ℕ} {file : File} {inode : Inode}

namespace Fs

def storedMap (fs : Fs) : Bitmap where
  bitCnt := fs.device.size
  bits := wordsOfBytes ((fs.diskAt 0).contents fs.device)

def Stored (fs : Fs) : Prop :=
  ∀ sector, sector < fs.device.size → bitmapTest fs.storedMap sector = bitmapTest fs.freeMap sector

/-- The free map can be written to its file, which is the inode in sector 0, also if the sectors
of the file are not marked used. -/
structure MapFile (fs : Fs) (file : File) (inode : Inode) : Prop where
  heap : fs.HeapOk
  positive : 0 < fs.device.size
  bitCnt_eq : fs.freeMap.bitCnt = fs.device.size
  isFile : fs.freeMapFile = some file
  isOpen : fs.inodes file.inode = some inode
  writable : inode.denyWriteCnt = 0
  data_eq : inode.data = fs.diskAt 0
  wellFormed : inode.data.WellFormed fs.device
  apart : ∀ block, block < inode.data.blockCnt → inode.data.dataSector block ≠ 0
  fits : byteCnt fs.freeMap.bitCnt ≤ inode.data.len

namespace MapFile

lemma of_freeMap (mapFile : fs.MapFile file inode) {freeMap : Bitmap}
  (bitCnt : freeMap.bitCnt = fs.freeMap.bitCnt) :
  MapFile { fs with freeMap := freeMap } file inode :=
  { mapFile with
    bitCnt_eq := bitCnt.trans mapFile.bitCnt_eq
    fits := by
      rw [bitCnt]
      exact mapFile.fits }

lemma of_bitmapWrite (mapFile : fs.MapFile file inode) {depth : ℕ} {written : Bool}
  (ran : bitmapWrite (inodeWriteAtWith (freeMapAllocate depth) depth) fs.freeMap file fs =
    .ok (written, after)) :
  written = true ∧ after.MapFile file inode ∧ after.Stored := by
  rcases bitmapWrite_written (freeMapAllocate_onlyData depth) mapFile.heap mapFile.isFile
    mapFile.isOpen mapFile.writable mapFile.wellFormed ran with ⟨isWritten, mapWritten⟩
  have onlyData := mapWritten.onlyData
  have hdr : after.device.sectors 0 = fs.device.sectors 0 := by
    refine mapWritten.sectors_eq 0 ?_
    rintro ⟨otherFile, record, blk, isFile, isOpen, bound, isZero⟩
    rw [mapFile.isFile] at isFile
    cases isFile
    rw [mapFile.isOpen] at isOpen
    cases isOpen
    exact mapFile.apart blk bound isZero
  have data : inode.data = after.diskAt 0 := by
    rw [mapFile.data_eq, diskAt, diskAt, hdr]
  have isOpen : after.inodes file.inode = some inode := by
    rw [onlyData.inodes_eq]
    exact mapFile.isOpen
  have isFile := onlyData.freeMapFile_eq.trans mapFile.isFile
  have bitCnt : after.freeMap.bitCnt = after.device.size := by
    rw [onlyData.bitCnt_eq, mapFile.bitCnt_eq, onlyData.size_eq]
  have fits : byteCnt after.freeMap.bitCnt ≤ inode.data.len := by
    rw [onlyData.bitCnt_eq]
    exact mapFile.fits
  refine ⟨isWritten, ?_, ?_⟩
  · exact
      { heap := onlyData.heapOk mapFile.heap
        positive := by
          rw [onlyData.size_eq]
          exact mapFile.positive
        bitCnt_eq := bitCnt
        isFile := isFile
        isOpen := isOpen
        writable := mapFile.writable
        data_eq := data
        wellFormed := mapFile.wellFormed.of_size_eq onlyData.size_eq
        apart := mapFile.apart
        fits := fits }
  intro sec bound
  refine bitmapTest_of_bytes (by omega) ?_
  intro index idxLt
  rw [← data]
  exact mapWritten.recorded file inode isFile isOpen index idxLt (by omega)

end MapFile

end Fs

inductive MapCall where
  | allocate (cnt : ℕ)
  | release (sector : Word) (cnt : ℕ)

namespace MapCall

def perform (fuel : ℕ) : Performs Stop Fs MapCall (Option Word)
  | fs, allocate cnt => freeMapAllocate fuel cnt fs
  | fs, release sector cnt =>
    (freeMapRelease fuel sector cnt fs).map fun outcome => (none, outcome.2)

lemma perform_stored {call : MapCall} {res : Option Word} (mapFile : fs.MapFile file inode)
  (stored : fs.Stored) (done : perform fuel fs call = .ok (res, after)) :
  after.MapFile file inode ∧ after.Stored := by
  cases call with
  | allocate cnt =>
    change freeMapAllocate fuel cnt fs = .ok (res, after) at done
    cases fuel with
    | zero => simp [freeMapAllocate] at done
    | succ fuel =>
      cases scan : bitmapScan fs.freeMap 0 cnt false with
      | none =>
        rw [freeMapAllocate_full fuel scan] at done
        cases done
        exact ⟨mapFile, stored⟩
      | some sec =>
        rw [freeMapAllocate_recorded fuel scan mapFile.isFile] at done
        rcases bind_eq_ok done with ⟨written, mid, wrote, rest⟩
        rcases (mapFile.of_freeMap (bitmapSetMultiple_bitCnt fs.freeMap sec cnt
          true)).of_bitmapWrite wrote with ⟨rfl, mapFileAfter, storedAfter⟩
        cases rest
        exact ⟨mapFileAfter, storedAfter⟩
  | release sec cnt =>
    rcases Performs.map_eq_ok done with ⟨⟨_, last⟩, released, same⟩
    cases same
    rcases freeMapRelease_eq_ok fuel released with ⟨_, _, found, written, isFile, wrote⟩
    rw [mapFile.isFile] at isFile
    cases isFile
    exact ((mapFile.of_freeMap (bitmapSetMultiple_bitCnt fs.freeMap sec.toNat cnt
      false)).of_bitmapWrite wrote).2

end MapCall

section Mounting

lemma freeMapOpen_reads {mount : Fs} (heap : mount.HeapOk)
  (absent : mount.findInode freeMapSector = none)
  (bitCnt : mount.freeMap.bitCnt = mount.device.size)
  (positive : 0 < mount.device.size) (readable : (mount.diskAt 0).Readable mount.device)
  (fits : byteCnt mount.device.size ≤ (mount.diskAt 0).len) :
  ∃ opened, (∀ fuel, freeMapOpen fuel mount = .ok ((), opened)) ∧
    ∀ sec, sec < mount.device.size →
      bitmapTest opened.freeMap sec = bitmapTest mount.storedMap sec := by
  let file : File := { inode := mount.nextInode, pos := 0, denyWrite := false }
  let pushed := mount.pushInode (openedInode freeMapSector (mount.device.sectors 0))
  let ready : Fs := { pushed with freeMapFile := some file }
  have opens := inodeOpen_fresh heap absent positive
  have isOpen : ready.inodes file.inode =
      some (openedInode freeMapSector (mount.device.sectors 0)) := Function.update_self _ _ _
  rcases bitmapRead_returns mount.freeMap file (show ready.HeapOk from heap) isOpen readable
    (by rw [bitCnt]; exact fits) with ⟨newMap, reads⟩
  rcases bitmapRead_stored (show ready.HeapOk from heap) isOpen readable reads with
    ⟨_, _, _, stored⟩
  refine ⟨{ ready with freeMap := newMap }, fun fuel => ?_, ?_⟩
  · refine (bind_of_ok opens).trans ?_
    refine (bind_of_ok (fileOpen_of_heapOk (show pushed.HeapOk from heap) fuel _)).trans ?_
    refine (bind_of_ok reads).trans ?_
    rfl
  intro sec bound
  refine (stored sec (by omega)).trans ?_
  rfl

variable {live : Set ℕ} {holds : ℕ → ℕ}

lemma freeMapOpen_stored (owned : Owned fs live holds) (isLive : 0 ∈ live)
  (noneRemoved : fs.NoneRemoved) (ran : freeMapOpen fuel fs = .ok ((), after)) :
  after.Stored := by
  rcases owned.open_map isLive with
    ⟨place, opened, inode, run, ownedOpen, isFile, isOpen, sec, dev, map, notRemoved⟩
  rcases bind_eq_ok
    (show (bitmapRead opened.freeMap _ >>= _) opened = _ from (run fuel _).symm.trans ran)
    with ⟨⟨success, newMap⟩, mid, read, finish⟩
  cases success with
  | false => cases finish
  | true =>
    cases finish
    rcases bitmapRead_stored ownedOpen.heap isOpen
      (ownedOpen.wellFormed_open isOpen).toReadable read with ⟨rfl, _, _, stored⟩
    have data : inode.data = mid.diskAt 0 := by
      rw [ownedOpen.data_of_not_removed isOpen
        (notRemoved fun place inode isOpen _ => noneRemoved place inode isOpen), sec]
      rfl
    intro sec bound
    refine Eq.symm ((stored sec ?_).trans ?_)
    · rw [ownedOpen.bitCnt_eq]
      exact bound
    rw [data, bitmapTest_eq_getLsbD, bitmapTest_eq_getLsbD]
    rfl

lemma Orderly.mapFile {addr : ℕ} {entries : List (List Byte × Word)}
  (orderly : Orderly fs live holds addr entries) : ∃ file inode, fs.MapFile file inode := by
  rcases orderly.intact.inode with ⟨inode, isOpen, isMap, _⟩
  have isLive := orderly.owned.zero_live orderly.fileHeld
  have data : inode.data = fs.diskAt 0 := by
    rw [orderly.data_eq isOpen, isMap]
    rfl
  refine ⟨{ inode := addr, pos := 0, denyWrite := false }, inode,
    { heap := orderly.owned.heap
      positive := orderly.owned.lt 0 isLive
      bitCnt_eq := orderly.owned.bitCnt_eq
      isFile := orderly.intact.file
      isOpen := isOpen
      writable := orderly.owned.writable _ _ isOpen
      data_eq := data
      wellFormed := ?_
      apart := ?_
      fits := ?_ }⟩
  · rw [data]
    exact orderly.owned.wellFormed 0 isLive
  · rw [data]
    exact fun blk bound isHdr => orderly.owned.header_apart 0 isLive ⟨blk, bound, isHdr⟩
  rw [data]
  exact orderly.map_le

lemma filesysInit_stored {mem : ℕ → Word} {start : Fs} (booting : Booting fs)
  (formats : filesysInit fuel mem true fs = .ok ((), start)) :
  start.Stored ∧ ∃ file inode, start.MapFile file inode := by
  rcases filesysInit_orderly booting formats with ⟨_, orderly, _⟩
  rcases filesysInit_formats booting formats with
    ⟨formatted, opened, _, _, _, _, owned, noneRemoved, _, _, openMap, rfl⟩
  have stored : opened.Stored := freeMapOpen_stored owned (Or.inr rfl) noneRemoved openMap
  exact ⟨stored, orderly.mapFile⟩

end Mounting

/-- The free map in memory can be had back from the device: by opening the free map in any state in
which its file is not open yet, and so by the next boot. -/
structure Fs.Survives (fs : Fs) : Prop where
  reopened : ∀ mount : Fs, mount.HeapOk → mount.device = fs.device →
    mount.freeMap.bitCnt = mount.device.size → mount.findInode freeMapSector = none →
      ∃ opened, (∀ fuel, freeMapOpen fuel mount = .ok ((), opened)) ∧
        ∀ sector, sector < fs.device.size →
          bitmapTest opened.freeMap sector = bitmapTest fs.freeMap sector
  remounted : ∀ (boot : Fs) (memory : ℕ → Word), Booting boot → boot.device = fs.device →
    ∃ mounted, (∀ fuel, filesysInit fuel memory false boot = .ok ((), mounted)) ∧
      ∀ sector, sector < fs.device.size →
        bitmapTest mounted.freeMap sector = bitmapTest fs.freeMap sector

lemma Fs.MapFile.survives (mapFile : fs.MapFile file inode) (stored : fs.Stored) :
  fs.Survives := by
  have reopened : ∀ mount : Fs, mount.HeapOk → mount.device = fs.device →
      mount.freeMap.bitCnt = mount.device.size → mount.findInode freeMapSector = none →
        ∃ opened, (∀ fuel, freeMapOpen fuel mount = .ok ((), opened)) ∧
          ∀ sec, sec < fs.device.size →
            bitmapTest opened.freeMap sec = bitmapTest fs.freeMap sec := by
    intro mount heap dev bitCnt absent
    have disk : mount.diskAt 0 = inode.data := by
      rw [mapFile.data_eq, Fs.diskAt, Fs.diskAt, dev]
    have sameMap : mount.storedMap = fs.storedMap := by
      rw [Fs.storedMap, Fs.storedMap, Fs.diskAt, Fs.diskAt, dev]
    rcases freeMapOpen_reads heap absent bitCnt (by rw [dev]; exact mapFile.positive)
      (by rw [disk, dev]; exact mapFile.wellFormed.toReadable)
      (by rw [disk, dev, ← mapFile.bitCnt_eq]; exact mapFile.fits) with ⟨opened, opens, reads⟩
    refine ⟨opened, opens, ?_⟩
    intro sec bound
    rw [reads sec (by rw [dev]; exact bound), sameMap]
    exact stored sec bound
  refine ⟨reopened, ?_⟩
  intro boot mem booting dev
  rcases reopened (boot.initialized mem) booting.heap dev (initialMap_bitCnt _ _) rfl with
    ⟨opened, opens, same⟩
  refine ⟨{ opened with i := 0 }, fun fuel => ?_, same⟩
  have initialized := freeMapInit_of_heapOk
    (show ({ boot with openInodes := [] } : Fs).HeapOk from booting.heap) mem
  refine (bind_of_ok initialized).trans ?_
  exact (bind_of_ok (opens fuel)).trans rfl

def RestoresMap (fuel cnt sector : ℕ) (file : File) (fs middle : Fs) : Prop :=
  bitmapScan fs.freeMap 0 cnt false = some sector → fs.freeMapFile = some file →
    bitmapWrite (inodeWriteAtWith (freeMapAllocate fuel) fuel)
      (bitmapSetMultiple fs.freeMap sector cnt true) file
      { fs with freeMap := bitmapSetMultiple fs.freeMap sector cnt true } = .ok (false, middle) →
    ∃ after, freeMapAllocate (fuel + 1) cnt fs = .ok (none, after) ∧ after.freeMap = fs.freeMap

lemma restoresMap (fuel cnt sec : ℕ) (file : File) (fs mid : Fs) :
  RestoresMap fuel cnt sec file fs mid := by
  intro scan isFile fails
  have failed := (freeMapAllocate_recorded fuel scan isFile).trans (bind_of_ok fails)
  refine ⟨_, failed, ?_⟩
  refine bitmap_eq_of_test (freeMapAllocate_onlyData _ _ failed).bitCnt_eq ?_
  intro idx
  have same := freeMapAllocate_failed _ _ _ _ failed idx
  exact Bool.eq_iff_iff.mpr same

/-- The free map survives a remount after any calls on a formatted device, and an allocation that
cannot write it leaves it as it was. -/
theorem freeMap_survives {memory : ℕ → Word} {start : Fs} (booting : Booting fs)
    (formats : filesysInit fuel memory true fs = .ok ((), start)) {bound : ℕ}
    {calls : List MapCall} {results : List (Option Word)}
    (ran : Performs.runAll (MapCall.perform bound) calls start = .ok (results, after)) :
    after.Survives ∧ ∀ fuel cnt sector file fs middle,
      RestoresMap fuel cnt sector file fs middle := by
  refine ⟨?_, restoresMap⟩
  rcases filesysInit_stored booting formats with ⟨stored, file, inode, mapFile⟩
  have kept := @Performs.runAll_invariant _ _ _ _ (MapCall.perform bound) _ _ _
    (fun state => state.MapFile file inode ∧ state.Stored)
    (fun _ _ _ _ held performed => MapCall.perform_stored held.1 held.2 performed) _
    ⟨mapFile, stored⟩ ran
  exact kept.1.survives kept.2

/-- Three sectors are allocated and another one is released on a formatted device. -/
theorem freeMap_survives_two : ∃ start after results,
    filesysInit 30 (fun _ => 0) true (blankFs 16) = .ok ((), start) ∧
    Performs.runAll (MapCall.perform 30) [.allocate 3, .release 1 1] start = .ok (results, after) ∧
    after.Survives := by
  rcases @formatted_of_check (fun fs => (Performs.runAll (MapCall.perform 30)
      [.allocate 3, .release 1 1] fs).toOption.any fun _ => true) (by decide +kernel) with
    ⟨start, booting, formats, returns⟩
  rcases exists_ok_of_any returns with ⟨⟨results, after⟩, ran, _⟩
  exact ⟨start, after, results, formats, ran, (freeMap_survives booting formats ran).1⟩

end Pintos
