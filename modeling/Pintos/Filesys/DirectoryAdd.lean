import Pintos.Filesys.DirectorySearch
import Pintos.Filesys.OwnershipSteps

/-!
# Adding a directory entry

A directory is searched entry by entry. The entry that `dir_add` looks up after
it has written it is the one it wrote: the name was not in use before, and only
one slot has changed. The inode opened by that second lookup is therefore the
one the new entry names.
-/

namespace Pintos

open Pintos.Computation

variable {fs after : Fs} {addr : ℕ} {ino : Inode} {live : Set ℕ} {holds : ℕ → ℕ}
  {name : List Byte} {sec : Word} {dir : Dir}

def InodeDisk.NamesLive (disk : InodeDisk) (device : Block) (name : List Byte) (live : Set ℕ) :
    Prop :=
  ∀ step, 20 * step + 20 ≤ disk.len → DirEntry.Matches (disk.entryAt device (20 * step)) name →
    (DirEntry.inodeSector (disk.entryAt device (20 * step))).toNat ∈ live

lemma names_of_overwritten {disk : InodeDisk} {pre dev : Block} (readable : disk.Readable pre)
  {entry : DirEntry} {step : ℕ}
  (overwritten : Overwritten disk pre dev (20 * step) 20 (DirEntry.filled entry name sec))
  (absent : disk.NoEntry pre (DirEntry.Matches · name)) (isLive : sec.toNat ∈ live) :
  disk.NamesLive dev name live := by
  intro other fits matching
  by_cases same : other = step
  · subst same
    rw [inodeSector_overwritten readable overwritten fits]
    exact isLive
  rw [entryAt_overwritten_of_ne readable overwritten same fits] at matching
  exact absurd matching (absent other fits)

lemma Owned.of_dirLookup {fuel : ℕ} {res : Option ℕ} (owned : Owned fs live holds)
  (isOpen : fs.inodes dir.inode = some ino) (names : ino.data.NamesLive fs.device name live)
  (ran : dirLookup fuel dir name fs = .ok (res, after)) :
  Owned after live holds ∧ fs.Keeps after ∧ after.freeMap = fs.freeMap ∧
    after.freeMapFile = fs.freeMapFile ∧ after.device = fs.device := by
  obtain ⟨found, searched, search, opening⟩ := bind_eq_ok ran
  obtain ⟨same, cases⟩ := lookup_eq_ok owned.heap isOpen
    (owned.wellFormed_open isOpen).toReadable search
  subst same
  rcases cases with ⟨step, isFirst, rfl⟩ | ⟨rfl, _⟩
  · obtain ⟨addr, _, ownedOpen, keeps, dev, map, file, _⟩ :=
      owned.of_inodeOpen (names step isFirst.fits isFirst.found) opening
    refine ⟨ownedOpen.mono ?_, keeps, map, file, dev⟩
    intro other
    by_cases isAddr : other = addr
    · simp [hold, isAddr]
    · simp [hold, isAddr]
  cases opening
  exact ⟨owned, Std.Refl.refl _, rfl, rfl, rfl⟩

lemma Owned.of_dirAdd {fuel : ℕ} {res : Bool} (owned : Owned fs live holds)
  (isOpen : fs.inodes dir.inode = some ino) (isLive : sec.toNat ∈ live)
  (ran : dirAdd fuel dir name sec fs = .ok (res, after)) :
  Owned after live holds ∧ fs.Keeps after ∧ after.freeMap = fs.freeMap ∧
    after.freeMapFile = fs.freeMapFile ∧
    ∀ other, ¬ fs.OwnsData ino.sector.toNat other →
      after.device.sectors other = fs.device.sectors other := by
  unfold dirAdd at ran
  split at ran
  · cases ran
    exact ⟨owned, Std.Refl.refl _, rfl, rfl, fun _ _ => rfl⟩
  have readable := (owned.wellFormed_open isOpen).toReadable
  obtain ⟨found, searched, search, adding⟩ := bind_eq_ok ran
  obtain ⟨same, cases⟩ := lookup_eq_ok owned.heap isOpen readable search
  rw [same] at adding
  rcases cases with ⟨_, _, rfl⟩ | ⟨rfl, absent⟩
  · cases adding
    exact ⟨owned, Std.Refl.refl _, rfl, rfl, fun _ _ => rfl⟩
  obtain ⟨⟨entry, ofs⟩, scanned, scan, writing⟩ := bind_eq_ok adding
  obtain ⟨sameScan, step, isOfs, _⟩ := freeSlotLoop_eq_ok owned.heap isOpen readable
    (show freeSlotLoop dir.inode fuel ((20 * 0 : ℕ) : ℤ) fs = _ from scan)
  simp only at isOfs
  rw [sameScan, isOfs] at writing
  obtain ⟨cnt, written, write, looking⟩ := bind_eq_ok writing
  obtain ⟨ownedWritten, onlyData, sameMap, overwritten, _, others⟩ :=
    owned.of_inodeWriteAt isOpen write
  have stillOpen : written.inodes dir.inode = some ino := by
    rw [onlyData.inodes_eq, isOpen]
  obtain ⟨opened, looked, lookUp, finish⟩ := bind_eq_ok looking
  obtain ⟨ownedLooked, keeps, map, file, dev⟩ := ownedWritten.of_dirLookup stillOpen
    (names_of_overwritten readable overwritten absent isLive) lookUp
  rw [bind_of_ok (malloc_of_heapOk ownedLooked.heap)] at finish
  cases finish
  refine ⟨ownedLooked, IsTrans.trans _ _ _ onlyData.keeps keeps, map.trans sameMap,
    file.trans onlyData.freeMapFile_eq, ?_⟩
  rw [dev]
  exact others

end Pintos
