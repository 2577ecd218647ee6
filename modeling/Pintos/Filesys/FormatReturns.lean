import Pintos.Filesys.Format
import Pintos.Filesys.Layout

/-!
# Searching and adding return

The searches of `dir_add` end because a directory has an end, and where a slot is
free they find one.
-/

namespace Pintos

open Pintos.Computation

variable {fs after : Fs} {addr : ℕ} {ino : Inode} {live : Set ℕ} {holds : ℕ → ℕ}

lemma Owned.dirLookup_returns {dir : Dir} {name : List Byte} (owned : Owned fs live holds)
  (isOpen : fs.inodes dir.inode = some ino) (direct : ino.data.len < 123 * 512)
  (names : ino.data.NamesLive fs.device name live) :
  ∃ res after, ∀ fuel, ino.data.len < fuel → dirLookup fuel dir name fs = .ok (res, after) := by
  have readable := (owned.wellFormed_open isOpen).toReadable
  obtain ⟨found, search⟩ := lookup_returns owned.heap isOpen readable direct name
  obtain ⟨_, ⟨step, isFirst, rfl⟩ | ⟨rfl, _⟩⟩ := lookup_eq_ok owned.heap isOpen readable
    (search (ino.data.len + 1) (by omega))
  · obtain ⟨addr, opened, opening, _⟩ :=
      owned.inodeOpen_returns (names step isFirst.fits isFirst.found)
    refine ⟨some addr, opened, fun fuel enough => ?_⟩
    rw [dirLookup, bind_of_ok (search fuel enough)]
    exact opening
  refine ⟨none, fs, fun fuel enough => ?_⟩
  rw [dirLookup, bind_of_ok (search fuel enough)]
  rfl

lemma Owned.dirAdd_returns (owned : Owned fs live holds) (dir : Dir) (name : List Byte)
  {sec : Word} (free : ℕ) (isOpen : fs.inodes dir.inode = some ino)
  (direct : ino.data.len < 123 * 512) (isLive : sec.toNat ∈ live)
  (fits : 20 * free + 20 ≤ ino.data.len)
  (isFree : DirEntry.inUse (ino.data.entryAt fs.device (20 * free)) = false) :
  ∃ result after, (∀ fuel, ino.data.len + 20 < fuel →
      dirAdd fuel dir name sec fs = .ok (result, after)) ∧
    ∀ idx, 20 * free + 20 ≤ idx → idx < ino.data.len →
      ino.data.contents after.device idx = ino.data.contents fs.device idx := by
  by_cases valid : name = [] ∨ name.length > nameMax
  · refine ⟨false, fs, fun fuel _ => ?_, fun _ _ _ => rfl⟩
    rw [dirAdd, if_pos valid]
    rfl
  have readable := (owned.wellFormed_open isOpen).toReadable
  obtain ⟨found, search⟩ := lookup_returns owned.heap isOpen readable direct name
  obtain ⟨entry, step, stepLe, scan⟩ := freeSlotLoop_returns owned.heap isOpen readable
    (show 20 * (0 + free) + 20 ≤ ino.data.len by omega) (by rwa [Nat.zero_add])
  rw [Nat.zero_add] at scan
  obtain ⟨dev, overwritten, write⟩ := inodeWriteAtWith_inside owned.heap isOpen
    (owned.writable _ _ isOpen) (owned.wellFormed_open isOpen)
    (show 20 * step + dirEntrySize ≤ ino.data.len by unfold dirEntrySize; omega)
    (DirEntry.filled entry name sec)
  have written : ∀ fuel, dirEntrySize ≤ fuel → inodeWriteAt fuel dir.inode
      (DirEntry.filled entry name sec) dirEntrySize ((20 * step : ℕ) : ℤ) fs =
        .ok ((dirEntrySize : ℤ), { fs with device := dev }) :=
    fun fuel enough => write (freeMapAllocate fuel) fuel enough
  obtain ⟨ownedWritten, _⟩ := owned.of_inodeWriteAt isOpen (written dirEntrySize le_rfl)
  obtain ⟨_, found⟩ := lookup_eq_ok owned.heap isOpen readable
    (search (ino.data.len + 1) (by omega))
  rcases found with ⟨_, _, rfl⟩ | ⟨rfl, absent⟩
  · refine ⟨false, fs, fun fuel enough => ?_, fun _ _ _ => rfl⟩
    rw [dirAdd, if_neg valid, bind_of_ok (search fuel (by omega))]
    rfl
  have names := names_of_overwritten readable overwritten absent isLive
  obtain ⟨opened, looked, look⟩ := ownedWritten.dirLookup_returns isOpen direct names
  obtain ⟨ownedLooked, _, _, _, sameDev⟩ := ownedWritten.of_dirLookup isOpen names
    (look (ino.data.len + 1) (by omega))
  refine ⟨true, looked, fun fuel enough => ?_, ?_⟩
  · rw [dirAdd, if_neg valid, bind_of_ok (search fuel (by omega))]
    refine (bind_of_ok (scan fuel (by omega))).trans ?_
    refine (bind_of_ok (written fuel (by unfold dirEntrySize; omega))).trans ?_
    refine (bind_of_ok (look fuel (by omega))).trans ?_
    refine (bind_of_ok (malloc_of_heapOk ownedLooked.heap)).trans ?_
    simp
  intro idx lower upper
  have blks := readable.blockCnt_eq
  rw [sameDev, overwritten.contents_eq idx (by omega)]
  exact overlay_outside (by unfold dirEntrySize; omega)

lemma inodeClose_returns (isOpen : fs.inodes addr = some ino)
  (notRemoved : ino.removed = false) :
  ∃ after, ∀ fuel, inodeClose fuel addr fs = .ok ((), after) := by
  by_cases isLast : ino.openCnt - 1 = 0
  · refine ⟨{ fs.closing addr ino with
      inodes := Function.update (fs.closing addr ino).inodes addr none }, fun fuel => ?_⟩
    rw [inodeClose, bind_of_ok (derefInode_of_some isOpen), updates_bind_apply, if_pos isLast,
      updates_bind_apply, if_neg (by simp [notRemoved])]
    rfl
  refine ⟨fs.setInode addr { ino with openCnt := ino.openCnt - 1 }, fun fuel => ?_⟩
  rw [inodeClose, bind_of_ok (derefInode_of_some isOpen), if_neg isLast]
  rfl

lemma formatted_of_check {check : Fs → Bool}
  (checked : ((filesysInit 30 (fun _ => 0) true (blankFs 16)).toOption.any fun formatted =>
    check formatted.2) = true) :
  ∃ fs, Booting (blankFs 16) ∧ filesysInit 30 (fun _ => 0) true (blankFs 16) = .ok ((), fs) ∧
    check fs = true := by
  rcases exists_ok_of_any checked with ⟨⟨_, fs⟩, formats, passes⟩
  exact ⟨fs, ⟨fun _ => rfl, by decide, fun _ => rfl, rfl⟩, formats, passes⟩

end Pintos
