import Pintos.Filesys.CreateOpen
import Pintos.Filesys.FormatRoot

/-!
# A creation that fails

`filesys_create` allocates a sector for the header of the new file, creates the
inode and adds an entry to the directory, one after another, and returns false as
soon as one of them fails. It never gives back what it has allocated before. So
only a creation that fails without having got a header sector leaves everything
as it was.
-/

namespace Pintos

open Pintos.Computation

variable {fs after : Fs} {fuel : ℕ}

namespace Fs

/-- The free map, the contents of every file and the entries of every directory are the same. A
file or directory is given by its header, a sector in use. -/
structure Unchanged (fs after : Fs) : Prop where
  freeMap : fs.SameUsed after
  size : ∀ header, fs.Used header → (after.diskAt header).size = (fs.diskAt header).size
  contents : ∀ header, fs.Used header → ∀ index, index < (fs.diskAt header).len →
    (after.diskAt header).contents after.device index =
      (fs.diskAt header).contents fs.device index
  entries : ∀ header, fs.Used header → ∀ ofs, ofs + dirEntrySize ≤ (fs.diskAt header).len →
    (after.diskAt header).entryAt after.device ofs = (fs.diskAt header).entryAt fs.device ofs

lemma unchanged_of_device (dev : after.device = fs.device)
  (freeMap : after.freeMap = fs.freeMap) : fs.Unchanged after where
  freeMap sec := by rw [Used, Used, freeMap]
  size hdr _ := by rw [diskAt, diskAt, dev]
  contents hdr _ idx _ := by rw [diskAt, diskAt, dev]
  entries hdr _ ofs _ := by rw [diskAt, diskAt, dev]

end Fs

lemma inodeOpen_sameMapFile {sec : Word} {opened : Option ℕ} (ready : fs.MapReady)
  (unused : fs.inodes fs.nextInode = none)
  (ran : inodeOpen sec fs = .ok (opened, after)) :
  fs.SameMapFile after ∧ opened ≠ none := by
  rcases inodeOpen_eq_ok ran with ⟨addr, ino, _, isOpen, _, rfl, rfl⟩ |
    ⟨_, alloc, mid, asked, rest⟩
  · refine ⟨⟨rfl, rfl, rfl, rfl, ?_⟩, by simp⟩
    grind
  rw [malloc_of_heapOk ready.heap] at asked
  cases asked
  rcases rest with ⟨⟨⟩, _⟩ | ⟨_, rfl, rfl⟩
  refine ⟨⟨rfl, rfl, rfl, rfl, ?_⟩, by simp⟩
  grind

lemma filesysCreateEntry_eq_ok {currentDir dir : Option Dir} {name entry : List Byte}
  (ready : fs.MapReady) (unused : fs.inodes fs.nextInode = none)
  (ran : filesysCreateEntry fuel currentDir name fs = .ok ((dir, entry), after)) :
  fs.SameMapFile after ∧ (dir = none ↔ 2 ≤ fs.i ∧ currentDir = none) := by
  by_cases later : 2 ≤ fs.i
  · rw [filesysCreateEntry_later later] at ran
    cases last : (pathTokens name).getLast? with
    | none =>
      rw [last] at ran
      cases ran
    | some token =>
      rw [last] at ran
      cases ran
      exact ⟨⟨rfl, rfl, rfl, rfl, fun _ ino _ isOpen => ⟨ino, isOpen, rfl, rfl⟩⟩,
        by simp [later]⟩
  unfold filesysCreateEntry at ran
  rw [reads_bind_apply, if_pos (by omega)] at ran
  rcases bind_eq_ok ran with ⟨root, mid, opens, rest⟩
  cases rest
  rcases bind_eq_ok opens with ⟨opened, first, opensIno, opensDir⟩
  rcases inodeOpen_sameMapFile ready unused opensIno with ⟨same, isOpened⟩
  cases opened with
  | none => exact absurd rfl isOpened
  | some addr =>
    rw [dirOpen_of_heapOk (same.mapReady ready).heap] at opensDir
    cases opensDir
    exact ⟨same, by simp [later]⟩

lemma filesysCreateInode_header {dir : Option Dir} {initSize : ℤ}
  {res : Option (Dir × Word)} (ready : fs.MapReady)
  (ran : filesysCreateInode fuel dir initSize fs = .ok (res, after)) :
  (res = none ∧ after = fs ∧
      (dir = none ∨ ∀ sec, sec < fs.freeMap.bitCnt → fs.Used sec)) ∨
    dir ≠ none ∧ ∃ sec, sec < fs.freeMap.bitCnt ∧ ¬ fs.Used sec ∧
      after.Used sec := by
  cases dir with
  | none =>
    cases ran
    exact Or.inl ⟨rfl, rfl, Or.inl rfl⟩
  | some dir =>
    rcases bind_eq_ok ran with ⟨num, mid, allocates, creating⟩
    rcases freeMapAllocate_eq_ok ready allocates with ⟨rfl, rfl, full⟩ | ⟨sec, rfl, alloc⟩
    · cases creating
      exact Or.inl ⟨rfl, rfl, Or.inr full⟩
    rcases bind_eq_ok creating with ⟨created, last, creates, finish⟩
    cases finish
    refine Or.inr ⟨by simp, sec, alloc.lt, alloc.free, ?_⟩
    exact inodeCreate_keepsUsed fuel _ _ creates sec
      ((alloc.used_iff sec).mpr (Or.inl rfl))

lemma dirAdd_sameUsed (dir : Dir) (name : List Byte) (sec : Word) :
  Preserves Fs.SameUsed (dirAdd fuel dir name sec) := by
  have openKeeps : ∀ sec, Preserves Fs.SameUsed (inodeOpen sec) := by
    intro sec pre val after ran other
    unfold Fs.Used
    rw [(inodeOpen_sameDevice sec ran).freeMap_eq]
  exact dirAdd_preserves malloc_sameUsed openKeeps inodeWriteAt_sameUsed fuel dir name sec

/-- A creation that fails changes nothing just when there was no directory for the file or no
sector for its header. -/
theorem unchanged_iff_of_filesysCreate {currentDir : Option Dir} {name : List Byte}
    {initialSize : ℤ} (ready : fs.MapReady) (unused : fs.inodes fs.nextInode = none)
    (returned : filesysCreate fuel currentDir name initialSize fs = .ok (false, after)) :
    fs.Unchanged after ↔ (2 ≤ fs.i ∧ currentDir = none) ∨
      ∀ sector, sector < fs.freeMap.bitCnt → fs.Used sector := by
  rcases filesysCreate_eq_ok returned with
    ⟨dir, entry, first, made, middle, last, enters, makes, adding, isAfter⟩
  rcases filesysCreateEntry_eq_ok ready unused enters with ⟨same, noDir⟩
  have used := same.used_iff
  have device : after.device = last.device := by
    rw [isAfter]
    split <;> rfl
  have freeMap : after.freeMap = last.freeMap := by
    rw [isAfter]
    split <;> rfl
  rcases filesysCreateInode_header (same.mapReady ready) makes with
    ⟨rfl, rfl, reason⟩ | ⟨isDir, sector, lt, free, marked⟩
  · rcases adding with ⟨_, _, rfl⟩ | ⟨_, impossible, _⟩
    · refine iff_of_true (Fs.unchanged_of_device (device.trans same.device_eq)
        (freeMap.trans same.freeMap_eq)) ?_
      rcases reason with isNone | full
      · exact Or.inl (noDir.mp isNone)
      rw [same.freeMap_eq] at full
      exact Or.inr fun sector bound => (used sector).mp (full sector bound)
    · cases impossible
  have stays : last.Used sector := by
    rcases adding with ⟨_, _, rfl⟩ | ⟨_, _, adds⟩
    · exact marked
    · exact (dirAdd_sameUsed _ _ _ adds sector).mpr marked
  rw [used] at free
  rw [same.freeMap_eq] at lt
  refine iff_of_false (fun unchanged => free ((unchanged.freeMap sector).mp ?_)) ?_
  · rw [Fs.Used, freeMap]
    exact stays
  rintro (missing | full)
  · exact isDir (noDir.mpr missing)
  · exact free (full sector lt)

/-- A third file, created by a thread without a current directory. -/
theorem unchanged_noDirectory : ∃ after, Fs.MapReady { emptyFs with i := 2 } ∧
    filesysCreate 20 none [97] 0 { emptyFs with i := 2 } = .ok (false, after) ∧
    Fs.Unchanged { emptyFs with i := 2 } after := by
  have ready : Fs.MapReady { emptyFs with i := 2 } :=
    { heap := emptyFs_mounted.mapReady.heap
      bitCnt_eq := emptyFs_mounted.mapReady.bitCnt_eq
      size_le := emptyFs_mounted.mapReady.size_le
      file_open := emptyFs_mounted.mapReady.file_open
      file_used := emptyFs_mounted.mapReady.file_used }
  have fails : ((filesysCreate 20 none [97] 0 { emptyFs with i := 2 }).toOption.any
      fun outcome => outcome.1 == false) = true := by decide +kernel
  rcases exists_ok_of_any fails with ⟨⟨success, after⟩, returned, isFalse⟩
  cases beq_iff_eq.mp isFalse
  have created := returned
  exact ⟨after, ready, created,
    (unchanged_iff_of_filesysCreate ready rfl created).mpr (Or.inl ⟨le_rfl, rfl⟩)⟩

/-- The first file gets an empty name: sector 4 has been allocated for its header and stays in
use. -/
theorem not_unchanged_emptyName : ∃ after, emptyFs.Mounted ∧
    filesysCreate 20 none [] 0 emptyFs = .ok (false, after) ∧ ¬ emptyFs.Unchanged after := by
  have fails : ((filesysCreate 20 none [] 0 emptyFs).toOption.any fun outcome =>
      outcome.1 == false && bitmapTest outcome.2.freeMap 4) = true := by decide +kernel
  rcases exists_ok_of_any fails with ⟨⟨success, after⟩, returned, checked⟩
  rw [Bool.and_eq_true] at checked
  cases beq_iff_eq.mp checked.1
  refine ⟨after, emptyFs_mounted, returned, fun unchanged => ?_⟩
  have isUsed : emptyFs.Used 4 := (unchanged.freeMap 4).mp checked.2
  cases isUsed

end Pintos
