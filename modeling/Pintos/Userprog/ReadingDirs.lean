import Pintos.Filesys.FormatRoot
import Pintos.Userprog.Descriptors

/-!
# Reading a directory

`readdir` makes a new `struct dir` with the position of the open file and advances the
position of that object only. The next call starts where the last one started, so all
calls give the same answer: a directory with an entry in use is never read to its end.
-/

namespace Pintos

open Pintos.Computation

def InodeDisk.entryNames (disk : InodeDisk) (device : Block) : List (List Byte) :=
  (((List.range (disk.len / dirEntrySize)).map fun step =>
    disk.entryAt device (dirEntrySize * step)).filter DirEntry.inUse).map DirEntry.storedName

/-- No slot from the position on is in use. -/
def InodeDisk.UnusedFrom (disk : InodeDisk) (device : Block) (pos : ℕ) : Prop :=
  ∀ step, pos + 20 * step + 20 ≤ disk.len →
    DirEntry.inUse (disk.entryAt device (pos + 20 * step)) = false

variable {pos addr : ℕ}

lemma InodeDisk.UnusedFrom.next {disk : InodeDisk} {dev : Block}
  (unused : disk.UnusedFrom dev pos) : disk.UnusedFrom dev (pos + 20) := by
  intro step fits
  have later := unused (step + 1) (by omega)
  rwa [show pos + 20 * (step + 1) = pos + 20 + 20 * step by omega] at later

variable {fuel : ℕ}

section Loop

variable {fs after : Fs} {inode : Inode} (heap : fs.HeapOk)
  (isOpen : fs.inodes addr = some inode) (readable : inode.data.Readable fs.device)

include heap isOpen readable

lemma dirReaddirLoop_eq_ok {entry : Option DirEntry} {behind : ℤ}
  (ran : dirReaddirLoop addr fuel pos fs = .ok ((entry, behind), after)) :
  after = fs ∧ (entry = none →
    inode.data.UnusedFrom fs.device pos ∧
      inode.data.Resolvable fs.device (max inode.data.len pos)) := by
  induction fuel generalizing pos with
  | zero => simp [dirReaddirLoop] at ran
  | succ fuel ih =>
    rcases bind_eq_ok ran with ⟨⟨cnt, read⟩, mid, reading, rest⟩
    rcases inodeReadAt_entry heap isOpen readable reading with ⟨rfl, cases⟩
    simp only at rest
    rcases cases with ⟨rfl, inside, rfl⟩ | ⟨nothing, past⟩
    · rw [if_pos rfl] at rest
      split at rest
      · cases rest
        exact ⟨rfl, fun impossible => by cases impossible⟩
      next unused =>
        have shifted : (pos : ℤ) + (dirEntrySize : ℕ) = ((pos + 20 : ℕ) : ℤ) := by
          simp only [dirEntrySize]
          omega
        rw [shifted] at rest
        rcases ih rest with ⟨rfl, ends⟩
        refine ⟨rfl, ?_⟩
        intro isNone
        rcases ends isNone with ⟨later, resolvable⟩
        rw [max_eq_left inside] at resolvable
        rw [max_eq_left (by omega)]
        refine ⟨?_, resolvable⟩
        intro step fits
        cases step with
        | zero => simpa using unused
        | succ step =>
          have unusedLater := later step (by omega)
          rwa [show pos + 20 + 20 * step = pos + 20 * (step + 1) by omega] at unusedLater
    rw [if_neg nothing] at rest
    cases rest
    refine ⟨rfl, fun _ => ⟨fun step fits => by omega, ?_⟩⟩
    exact ((inodeReadAt_past_iff heap isOpen readable (show 0 < dirEntrySize by decide) past
      _).mp reading).1

lemma dirReaddirLoop_of_past (past : inode.data.len < pos + 20)
  (resolvable : inode.data.Resolvable fs.device (max inode.data.len pos)) :
  dirReaddirLoop addr (fuel + 1) pos fs = .ok ((none, (pos : ℤ)), fs) := by
  have reading := (inodeReadAt_past_iff heap isOpen readable (show 0 < dirEntrySize by decide)
    past (fun _ => 0)).mpr ⟨resolvable, rfl⟩
  have nothing : (0 : ℤ) ≠ (dirEntrySize : ℕ) := by decide
  rw [dirReaddirLoop, bind_of_ok reading]
  exact congrFun (if_neg nothing) fs

lemma dirReaddirLoop_of_unused (unused : inode.data.UnusedFrom fs.device pos)
  (resolvable : inode.data.Resolvable fs.device (max inode.data.len pos))
  (enough : inode.data.len < pos + 20 * (fuel + 1)) :
  ∃ behind, dirReaddirLoop addr (fuel + 1) pos fs = .ok ((none, behind), fs) := by
  induction fuel generalizing pos with
  | zero =>
    exact ⟨_, dirReaddirLoop_of_past heap isOpen readable (by omega) resolvable⟩
  | succ fuel ih =>
    by_cases past : inode.data.len < pos + 20
    · exact ⟨_, dirReaddirLoop_of_past heap isOpen readable past resolvable⟩
    have inside := Nat.le_of_not_lt past
    have notUsed := unused 0 inside
    rw [Nat.mul_zero, Nat.add_zero] at notUsed
    rw [max_eq_left (by omega)] at resolvable
    rcases ih unused.next (by rw [max_eq_left inside]; exact resolvable) (by omega) with
      ⟨behind, run⟩
    refine ⟨behind, ?_⟩
    rw [dirReaddirLoop, bind_of_ok (inodeReadAt_entryAt heap isOpen readable inside)]
    simp only [if_true]
    rw [notUsed]
    exact run

end Loop

namespace Files

def readdirTimes (fuel : ℕ) (fd : ℤ) : ℕ → System (List (Option (List Byte)))
  | 0 => pure []
  | count + 1 => do
    let name ← readdirName fuel fd
    let names ← readdirTimes fuel fd count
    pure (name :: names)

/-- Repeated calls yield these names in some order, and then nothing. -/
def Enumerates (machine : Machine) (fd : ℤ) (names : List (List Byte)) : Prop :=
  ∃ order : List (List Byte), order.Perm names ∧
    ∃ bound, ∀ fuel, bound ≤ fuel → ∀ count, ∃ after,
      readdirTimes fuel fd count machine =
        .ok ((order.map some ++ List.replicate count none).take count, after)

variable {name : Option (List Byte)} {machine : Machine}

lemma readdirTimes_of_ok {fd : ℤ} (ran : readdirName fuel fd machine = .ok (name, machine))
  (cnt : ℕ) :
  readdirTimes fuel fd cnt machine = .ok (List.replicate cnt name, machine) := by
  induction cnt with
  | zero => rfl
  | succ cnt ih =>
    refine (bind_of_ok ran).trans ?_
    exact bind_of_ok ih

section Reading

variable {after : Machine} {fd : ℤ} {slot : Fin 130} {file : File} {inode : Inode}
  (isFd : (slot.val : ℤ) = fd) (isFile : machine.thread.filePointers slot = some file)
  (isPos : file.pos = pos) (heap : machine.fs.HeapOk)
  (isOpen : machine.fs.inodes file.inode = some inode)
  (readable : inode.data.Readable machine.fs.device)

include isFd isFile isPos heap

lemma readdirName_apply (fuel : ℕ) :
  readdirName fuel fd machine =
    (do
      let (entry, _) ← onFs (dirReaddir fuel { inode := file.inode, empty := false, pos := pos })
      pure (entry.map DirEntry.storedName) : System _) machine := by
  have gets : getFile fd machine = .ok (some file, machine) := by
    rw [getFile, bind_of_ok (slotOf_of_slot isFd), reads_apply, isFile]
  have allocates : onFs malloc machine = .ok (true, machine) := by
    rw [onFs, malloc_of_heapOk heap]
  rw [readdirName, bind_of_ok gets, bind_of_ok allocates]
  simp [isPos]

include isOpen readable

lemma readdirName_eq_ok (ran : readdirName fuel fd machine = .ok (name, after)) :
  after = machine ∧ (name = none →
    inode.data.UnusedFrom machine.fs.device pos ∧
      inode.data.Resolvable machine.fs.device (max inode.data.len pos)) := by
  rw [readdirName_apply isFd isFile isPos heap] at ran
  rcases bind_eq_ok ran with ⟨⟨entry, dir⟩, mid, reading, stores⟩
  rcases onFs_eq_ok reading with ⟨fs, loops, rfl⟩
  rcases bind_eq_ok loops with ⟨⟨found, behind⟩, last, loop, finish⟩
  cases finish
  cases stores
  rcases dirReaddirLoop_eq_ok heap isOpen readable loop with ⟨rfl, ends⟩
  refine ⟨rfl, ?_⟩
  intro isNone
  exact ends (Option.map_eq_none_iff.mp isNone)

lemma readdirName_of_unused (unused : inode.data.UnusedFrom machine.fs.device pos)
  (resolvable : inode.data.Resolvable machine.fs.device (max inode.data.len pos))
  (enough : inode.data.len < fuel) : readdirName fuel fd machine = .ok (none, machine) := by
  rcases (show ∃ less, fuel = less + 1 from ⟨fuel - 1, by omega⟩) with ⟨less, rfl⟩
  rcases dirReaddirLoop_of_unused heap isOpen readable unused resolvable
    (show inode.data.len < pos + 20 * (less + 1) by omega) with ⟨behind, loop⟩
  have reading : dirReaddir (less + 1) { inode := file.inode, empty := false, pos := pos }
      machine.fs = .ok ((none, { inode := file.inode, empty := false, pos := behind }),
        machine.fs) := bind_of_ok loop
  have onMach : onFs (dirReaddir (less + 1)
      { inode := file.inode, empty := false, pos := pos }) machine =
        .ok ((none, { inode := file.inode, empty := false, pos := behind }), machine) := by
    rw [onFs, reading]
  rw [readdirName_apply isFd isFile isPos heap]
  exact bind_of_ok onMach

lemma Enumerates.nothing {names : List (List Byte)} (enumerates : Enumerates machine fd names) :
  names = [] ∧ inode.data.UnusedFrom machine.fs.device pos ∧
    inode.data.Resolvable machine.fs.device (max inode.data.len pos) := by
  rcases enumerates with ⟨order, perm, bound, run⟩
  rcases run bound le_rfl 1 with ⟨_, once⟩
  rcases bind_eq_ok once with ⟨name, mid, first, _⟩
  rcases readdirName_eq_ok isFd isFile isPos heap isOpen readable first with ⟨rfl, ends⟩
  rcases run bound le_rfl (order.length + 1) with ⟨_, all⟩
  have same := (readdirTimes_of_ok first (order.length + 1)).symm.trans all
  have listed : List.replicate (order.length + 1) name = order.map some ++ [none] := by
    have taken := (Prod.mk.inj (Except.ok.inj same)).1
    rw [taken, List.take_append, List.take_of_length_le (by simp), List.take_replicate]
    simp
  have equal : ∀ other ∈ order.map some ++ [none], other = name := by
    intro other mem
    rw [← listed] at mem
    exact List.eq_of_mem_replicate mem
  have isNone : name = none := (equal none (by simp)).symm
  refine ⟨?_, ends isNone⟩
  have noOrder : order = [] := by
    refine List.eq_nil_iff_forall_not_mem.mpr fun stored mem => ?_
    have impossible := equal (some stored) (by simp [mem])
    rw [isNone] at impossible
    cases impossible
  rw [noOrder] at perm
  exact List.nil_perm.mp perm

/-- Successive calls enumerate a directory exactly when there is nothing to enumerate: no entry is
in use, and from the position of the open file on none is found. -/
theorem enumerates_iff :
    Enumerates machine fd (inode.data.entryNames machine.fs.device) ↔
      inode.data.entryNames machine.fs.device = [] ∧
        inode.data.UnusedFrom machine.fs.device pos ∧
        inode.data.Resolvable machine.fs.device (max inode.data.len pos) := by
  constructor
  · exact Enumerates.nothing isFd isFile isPos heap isOpen readable
  rintro ⟨noNames, unused, resolvable⟩
  refine ⟨[], by rw [noNames], inode.data.len + 1, ?_⟩
  intro fuel enough count
  have returned := readdirName_of_unused isFd isFile isPos heap isOpen readable unused resolvable
    enough
  refine ⟨machine, ?_⟩
  rw [readdirTimes_of_ok returned, List.map_nil, List.nil_append, List.take_replicate, min_self]

end Reading

def oneFile (file : File) : ThreadFiles :=
  { newThread with
    filePointers := Function.update newThread.filePointers 2 (some file)
    fdIndex := 3 }

/-- A directory of two slots, neither of them in use, has nothing to enumerate. -/
theorem enumerates_unused :
    (smallInode 40).data.len = 40 ∧
      Enumerates ⟨smallFs 40, oneFile { inode := 0, pos := 0, denyWrite := false }⟩ 2
        ((smallInode 40).data.entryNames (smallFs 40).device) := by
  have len : (smallInode 40).data.len = 40 := by decide
  have readable : (smallInode 40).data.Readable (smallFs 40).device :=
    (smallDisk_wellFormed (by decide) (by decide) (by decide) (by decide)).toReadable
  have isFd : ((2 : Fin 130).val : ℤ) = 2 := rfl
  refine ⟨len, (enumerates_iff isFd rfl rfl (fun _ => rfl) rfl readable).mpr ⟨?_, ?_, ?_⟩⟩
  · rw [InodeDisk.entryNames, len]
    rfl
  · intro step fits
    have isSlot : step = 0 ∨ step = 1 := by omega
    rcases isSlot with rfl | rfl <;> rfl
  exact Or.inl (by decide)

lemma openFile_root {fs : Fs} {live : Set ℕ} {holds : ℕ → ℕ} {addr : ℕ}
  {entries : List (List Byte × Word)} (orderly : Orderly fs live holds addr entries)
  (fuel : ℕ) :
  ∃ root inode after, openFile fuel [slash] { fs := fs, thread := newThread } =
      .ok (2, { fs := after, thread := oneFile { inode := root, pos := 0, denyWrite := false } }) ∧
    after.HeapOk ∧ after.inodes root = some inode ∧ inode.data.Readable after.device := by
  rcases orderly.dirOpenRoot_returns with ⟨root, inode, after, opening, orderlyAfter, _, isOpen, _⟩
  refine ⟨root, inode, after, ?_, orderlyAfter.owned.heap, isOpen,
    (orderlyAfter.owned.wellFormed_open isOpen).toReadable⟩
  have opens : filesysOpen fuel [slash] fs =
      .ok (some { inode := root, pos := 0, denyWrite := false }, after) := by
    rw [filesysOpen, bind_of_ok (opening fuel)]
    exact fileOpen_of_heapOk orderlyAfter.owned.heap fuel root
  have onMach : onFs (filesysOpen fuel [slash]) { fs := fs, thread := newThread } =
      .ok (some { inode := root, pos := 0, denyWrite := false },
        { fs := after, thread := newThread }) := by
    rw [onFs, opens]
  have isFd : ((2 : Fin 130).val : ℤ) = (newThread.fdIndex : ℤ) := rfl
  rw [openFile, bind_of_ok onMach, reads_bind_apply]
  rw [bind_of_ok (setFile_of_slot _ isFd)]
  rfl

/-- The root directory of a new device has two entries, and `readdir` stores the first of them
over and over. -/
theorem not_enumerates_root : ∃ (machine opened : Machine) (file : File) (inode : Inode),
    openFile 30 [slash] machine = .ok (2, opened) ∧
    opened.thread.filePointers 2 = some file ∧ opened.fs.inodes file.inode = some inode ∧
    inode.data.entryNames opened.fs.device = [dotName, dotDotName] ∧
    (readdirTimes 30 2 3 opened).toOption.map Prod.fst =
      some [some dotName, some dotName, some dotName] ∧
    ¬ Enumerates opened 2 [dotName, dotDotName] := by
  have checked := @formatted_of_check (fun fs =>
      (openFile 30 [slash] { fs := fs, thread := newThread }).toOption.any fun opened =>
        decide (opened.1 = 2) && (opened.2.thread.filePointers 2).any fun file =>
          (opened.2.fs.inodes file.inode).any fun inode =>
            decide (inode.data.entryNames opened.2.fs.device = [dotName, dotDotName]) &&
              decide ((readdirTimes 30 2 3 opened.2).toOption.map Prod.fst =
                some [some dotName, some dotName, some dotName])) (by decide +kernel)
  rcases checked with ⟨fs, booting, formats, checked⟩
  rcases exists_ok_of_any checked with ⟨⟨fd, opened⟩, opens, checked⟩
  simp only [Bool.and_eq_true, decide_eq_true_eq] at checked
  rcases checked with ⟨rfl, checked⟩
  rcases (Option.any_eq_true ..).mp checked with ⟨file, isFile, checked⟩
  rcases (Option.any_eq_true ..).mp checked with ⟨inode, isOpen, checked⟩
  simp only [Bool.and_eq_true, decide_eq_true_eq] at checked
  rcases filesysInit_orderly booting formats with ⟨_, orderly, _⟩
  rcases openFile_root orderly 30 with ⟨root, rootInode, after, opensRoot, heap, rootOpen, readable⟩
  refine ⟨_, opened, file, inode, opens, isFile, isOpen, checked.1, checked.2, ?_⟩
  have same := Except.ok.inj (opens.symm.trans opensRoot)
  cases same
  intro enumerates
  have isFd : ((2 : Fin 130).val : ℤ) = 2 := rfl
  have nothing := enumerates.nothing isFd rfl rfl heap rootOpen readable
  exact absurd nothing.1 (by decide)

end Files

end Pintos
