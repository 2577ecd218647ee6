import Pintos.Filesys.FormatReturns
import Pintos.Filesys.Names

/-!
# Opening a file by its name

`filesys_open` looks the whole name up in the root directory, after one leading
slash has been taken off. In a state where the root directory can be read, it
opens the inode of the first entry with that name, and returns a null pointer if
there is none.
-/

namespace Pintos

open Pintos.Computation Function

variable {fs after : Fs} {num : Word} {name : List Byte}

namespace Fs

/-- The root directory can be read: it has the sixteen slots `do_format` gives it, its entries
name sectors of the device, and an in-memory copy of its inode is up to date. -/
structure RootReady (fs : Fs) : Prop where
  heap : fs.HeapOk
  root_lt : rootDirSector.toNat < fs.device.size
  readable : (fs.diskAt 1).Readable fs.device
  size_eq : (fs.diskAt 1).size = 320
  entry_lt : ∀ step, step < 16 →
    DirEntry.inUse ((fs.diskAt 1).entryAt fs.device (20 * step)) = true →
    (DirEntry.inodeSector ((fs.diskAt 1).entryAt fs.device (20 * step))).toNat < fs.device.size
  present : ∀ address ∈ fs.openInodes, fs.inodes address ≠ none
  lt_nextInode : ∀ address ∈ fs.openInodes, address < fs.nextInode
  cached : ∀ address inode, address ∈ fs.openInodes → fs.inodes address = some inode →
    inode.sector = rootDirSector →
      inode.removed = false ∧ 0 < inode.openCnt ∧ inode.data = fs.diskAt 1

/-- The inode `inode_open` gives for a sector: the copy in memory if there is one, otherwise what
is on the device. -/
def inodeData (fs : Fs) (number : Word) : InodeDisk :=
  match (fs.findInode number).bind fs.inodes with
  | some inode => inode.data
  | none => fs.diskAt number.toNat

variable {addr other : ℕ} {ino : Inode}

lemma inodeData_of_found (found : fs.findInode num = some addr)
  (isOpen : fs.inodes addr = some ino) : fs.inodeData num = ino.data := by
  rw [inodeData, found, Option.bind_some, isOpen]

lemma inodeData_of_absent (absent : fs.findInode num = none) :
  fs.inodeData num = fs.diskAt num.toNat := by
  rw [inodeData, absent, Option.bind_none]

lemma findInode_congr (openInodes : after.openInodes = fs.openInodes)
  (secs : ∀ addr ∈ fs.openInodes,
    (after.inodes addr).map Inode.sector = (fs.inodes addr).map Inode.sector) :
  after.findInode num = fs.findInode num := by
  unfold findInode
  rw [openInodes]
  have tests : ∀ addr ∈ fs.openInodes, (after.inodes addr).any (fun ino => ino.sector = num) =
        (fs.inodes addr).any fun ino => ino.sector = num := by
    intro addr mem
    have same := secs addr mem
    cases isAfter : after.inodes addr <;> cases isBefore : fs.inodes addr <;>
      simp_all
  generalize fs.openInodes = list at tests
  induction list with
  | nil => rfl
  | cons addr rest ih =>
    rw [List.find?_cons, List.find?_cons, tests addr List.mem_cons_self,
      ih fun other mem => tests other (List.mem_cons_of_mem _ mem)]

lemma inodeData_setInode {changed : Inode} (isOpen : fs.inodes addr = some ino)
  (sec : changed.sector = ino.sector) (data : changed.data = ino.data) (num : Word) :
  (fs.setInode addr changed).inodeData num = fs.inodeData num := by
  have same : (fs.setInode addr changed).findInode num = fs.findInode num := by
    refine findInode_congr rfl ?_
    intro other _
    by_cases isAddr : other = addr
    · simp [setInode, isAddr, isOpen, sec]
    · simp [setInode, isAddr]
  cases found : fs.findInode num with
  | none => rw [inodeData_of_absent found, inodeData_of_absent (same.trans found)]; rfl
  | some other =>
    rcases findInode_eq_some found with ⟨_, record, isRecord, _⟩
    rw [inodeData_of_found found isRecord]
    by_cases isAddr : other = addr
    · subst isAddr
      rw [isOpen] at isRecord
      cases isRecord
      rw [inodeData_of_found (same.trans found) (update_self ..), data]
    · exact inodeData_of_found (same.trans found) ((update_of_ne isAddr ..).trans isRecord)

lemma inodeData_pushInode (lt_nextInode : ∀ addr ∈ fs.openInodes, addr < fs.nextInode)
  (absent : fs.findInode num = none) (other : Word) :
  (fs.pushInode (openedInode num (fs.device.sectors num.toNat))).inodeData other =
    fs.inodeData other := by
  set pushed := fs.pushInode (openedInode num (fs.device.sectors num.toNat)) with isPushed
  have isNew : pushed.inodes fs.nextInode =
      some (openedInode num (fs.device.sectors num.toNat)) := update_self ..
  by_cases same : other = num
  · subst same
    have found : pushed.findInode other = some fs.nextInode := by
      simp [findInode, isPushed, pushInode, setInode, openedInode]
    rw [inodeData_of_found found isNew, inodeData_of_absent absent]
    rfl
  have kept : ∀ addr ∈ fs.openInodes, pushed.inodes addr = fs.inodes addr := by
    intro addr mem
    exact update_of_ne (Nat.ne_of_lt (lt_nextInode addr mem)) ..
  have found : pushed.findInode other = fs.findInode other := by
    have skips : pushed.findInode other =
        ({ pushed with openInodes := fs.openInodes } : Fs).findInode other := by
      simp [findInode, isPushed, pushInode, setInode, openedInode, Ne.symm same]
    rw [skips]
    refine findInode_congr rfl ?_
    intro addr mem
    rw [show ({ pushed with openInodes := fs.openInodes } : Fs).inodes addr =
      fs.inodes addr from kept addr mem]
  cases isFound : fs.findInode other with
  | none => rw [inodeData_of_absent isFound, inodeData_of_absent (found.trans isFound)]; rfl
  | some addr =>
    rcases findInode_eq_some isFound with ⟨mem, record, isRecord, _⟩
    rw [inodeData_of_found isFound isRecord,
      inodeData_of_found (found.trans isFound) ((kept addr mem).trans isRecord)]

structure InodeOpened (fs after : Fs) (number : Word) (address : ℕ) (inode : Inode) : Prop where
  isOpen : after.inodes address = some inode
  sector_eq : inode.sector = number
  data_eq : inode.data = fs.inodeData number
  mem_openInodes : ∀ other, other ∈ after.openInodes ↔ other = address ∨ other ∈ fs.openInodes
  counted : ∀ record, address ∈ fs.openInodes → fs.inodes address = some record →
    inode = { record with openCnt := record.openCnt + 1 }
  others : ∀ other, other ≠ address → after.inodes other = fs.inodes other
  inodeData_eq : ∀ other, after.inodeData other = fs.inodeData other
  device_eq : after.device = fs.device
  freeMap_eq : after.freeMap = fs.freeMap
  freeMapFile_eq : after.freeMapFile = fs.freeMapFile
  i_eq : after.i = fs.i

lemma InodeOpened.member (opened : fs.InodeOpened after num addr ino) :
  addr ∈ after.openInodes :=
  (opened.mem_openInodes addr).mpr (Or.inl rfl)

lemma InodeOpened.still_open {record : Inode} (opened : fs.InodeOpened after num addr ino)
  (isOpen : fs.inodes other = some record) (mem : other ∈ fs.openInodes) :
  ∃ changed, after.inodes other = some changed ∧ changed.sector = record.sector ∧
    (other = addr → changed.openCnt = record.openCnt + 1) := by
  by_cases same : other = addr
  · subst same
    have counted := opened.counted record mem isOpen
    exact ⟨ino, opened.isOpen, by rw [counted], fun _ => by rw [counted]⟩
  exact ⟨record, (opened.others other same).trans isOpen, rfl, fun isAddr =>
    absurd isAddr same⟩

namespace RootReady

section

variable (ready : fs.RootReady)
include ready

lemma len_eq : (fs.diskAt 1).len = 320 := by
  rw [InodeDisk.len, ready.size_eq]
  rfl

lemma of_table (heap : after.HeapOk) (dev : after.device = fs.device)
  (present : ∀ addr ∈ after.openInodes, after.inodes addr ≠ none)
  (lt_nextInode : ∀ addr ∈ after.openInodes, addr < after.nextInode)
  (cached : ∀ addr ino, addr ∈ after.openInodes → after.inodes addr = some ino →
    ino.sector = rootDirSector →
      ino.removed = false ∧ 0 < ino.openCnt ∧ ino.data = fs.diskAt 1) :
  after.RootReady := by
  have disk : after.diskAt 1 = fs.diskAt 1 := by
    unfold diskAt
    rw [dev]
  refine ⟨heap, ?_, ?_, ?_, ?_, present, lt_nextInode, ?_⟩
  · rw [dev]
    exact ready.root_lt
  · rw [disk, dev]
    exact ready.readable
  · rw [disk]
    exact ready.size_eq
  · rw [disk, dev]
    exact ready.entry_lt
  rw [disk]
  exact cached

lemma inodeOpen_opened (inRange : num.toNat < fs.device.size) :
  ∃ addr ino after, inodeOpen num fs = .ok (some addr, after) ∧ after.RootReady ∧
    fs.InodeOpened after num addr ino := by
  cases found : fs.findInode num with
  | some addr =>
    rcases findInode_eq_some found with ⟨mem, record, isOpen, sec⟩
    set counted := { record with openCnt := record.openCnt + 1 } with isCounted
    have listed : (fs.setInode addr counted).openInodes = fs.openInodes := rfl
    refine ⟨addr, counted, _, inodeOpen_shared found isOpen, ?_, ?_⟩
    · rcases id ready with ⟨heap, _, _, _, _, present, lt_nextInode, cached⟩
      refine ready.of_table heap rfl ?_ lt_nextInode ?_ <;> grind
    exact ⟨update_self .., sec, (inodeData_of_found found isOpen).symm, by grind,
      by grind, by grind, inodeData_setInode isOpen rfl rfl, rfl, rfl, rfl, rfl⟩
  | none =>
    set fresh := openedInode num (fs.device.sectors num.toNat) with isFresh
    have listed : (fs.pushInode fresh).openInodes = fs.nextInode :: fs.openInodes := rfl
    have next : (fs.pushInode fresh).nextInode = fs.nextInode + 1 := rfl
    have root : num = rootDirSector → fresh.removed = false ∧ 0 < fresh.openCnt ∧
        fresh.data = fs.diskAt 1 := by
      rintro rfl
      exact ⟨rfl, Int.one_pos, rfl⟩
    have isNum : fresh.sector = num := rfl
    rcases id ready with ⟨heap, _, _, _, _, present, lt_nextInode, cached⟩
    refine ⟨_, fresh, _, inodeOpen_fresh heap found inRange, ?_, ?_⟩
    · refine ready.of_table heap rfl ?_ ?_ ?_ <;> grind
    exact ⟨update_self .., rfl, (inodeData_of_absent found).symm,
      fun _ => List.mem_cons, by grind, by grind, inodeData_pushInode lt_nextInode found, rfl,
      rfl, rfl, rfl⟩

lemma dirOpenRoot_opened : ∃ addr ino after,
    (∀ fuel, dirOpenRoot fuel fs =
      .ok (some { inode := addr, empty := false, pos := 0 }, after)) ∧
    after.RootReady ∧ fs.InodeOpened after rootDirSector addr ino := by
  rcases ready.inodeOpen_opened ready.root_lt with
    ⟨addr, ino, after, opening, readyAfter, opened⟩
  refine ⟨addr, ino, after, ?_, readyAfter, opened⟩
  intro fuel
  exact (bind_of_ok opening).trans (dirOpen_of_heapOk readyAfter.heap fuel addr)

end

end RootReady

def closed (fs : Fs) (address : ℕ) (inode : Inode) : Fs :=
  if inode.openCnt = 1 then fs.dropInode address
  else fs.setInode address { inode with openCnt := inode.openCnt - 1 }

lemma inodeClose_closed (isOpen : fs.inodes addr = some ino)
  (notRemoved : ino.removed = false) (fuel : ℕ) :
  inodeClose fuel addr fs = .ok ((), fs.closed addr ino) := by
  rcases inodeClose_returns isOpen notRemoved with ⟨after, run⟩
  rcases inodeClose_eq_ok (run fuel) with ⟨record, isRecord, cases⟩
  rw [isOpen] at isRecord
  cases isRecord
  rw [run fuel, closed]
  rcases cases with ⟨others, rfl⟩ | ⟨last, _, rfl⟩ | ⟨_, removed, _⟩
  · rw [if_neg others]
  · rw [if_pos last]
  rw [notRemoved] at removed
  cases removed

lemma closed_inodes_of_ne (ino : Inode) (ne : other ≠ addr) :
  (fs.closed addr ino).inodes other = fs.inodes other := by
  unfold closed
  split
  · exact update_of_ne ne ..
  · exact update_of_ne ne ..

lemma closed_inodes_self (more : ino.openCnt ≠ 1) :
  (fs.closed addr ino).inodes addr = some { ino with openCnt := ino.openCnt - 1 } := by
  rw [closed, if_neg more]
  exact update_self ..

lemma closed_heap (heap : fs.HeapOk) : (fs.closed addr ino).HeapOk := by
  unfold closed
  split
  · exact heap
  · exact heap

end Fs

def lookupName (name : List Byte) : List Byte :=
  if name.head? = some slash then name.tail else name

def OpensAs (fs : Fs) (name : List Byte) (check : Inode → Prop) : Prop :=
  ∃ bound, ∀ fuel, bound ≤ fuel → ∃ file after inode,
    filesysOpen fuel name fs = .ok (some file, after) ∧
      after.inodes file.inode = some inode ∧ check inode

lemma OpensAs.and {one two : Inode → Prop} (left : OpensAs fs name one)
  (right : OpensAs fs name two) : ∃ ino, one ino ∧ two ino := by
  rcases left with ⟨leftBound, left⟩
  rcases right with ⟨rightBound, right⟩
  rcases left (max leftBound rightBound) (le_max_left _ _) with
    ⟨file, after, ino, ran, isOpen, passes⟩
  rcases right (max leftBound rightBound) (le_max_right _ _) with
    ⟨other, last, record, ranOther, isRecord, passesOther⟩
  rw [ran] at ranOther
  cases ranOther
  rw [isOpen] at isRecord
  cases isRecord
  exact ⟨ino, passes, passesOther⟩

lemma OpensAs.mono {one two : Inode → Prop} (opens : OpensAs fs name one)
  (weaker : ∀ ino, one ino → two ino) : OpensAs fs name two := by
  rcases opens with ⟨bound, opens⟩
  refine ⟨bound, ?_⟩
  intro fuel enough
  rcases opens fuel enough with ⟨file, after, ino, ran, isOpen, passes⟩
  exact ⟨file, after, ino, ran, isOpen, weaker ino passes⟩

section Opening

variable (ready : fs.RootReady)

include ready

lemma opensAs_root : OpensAs fs [slash] (·.sector = rootDirSector) := by
  rcases ready.dirOpenRoot_opened with ⟨addr, ino, after, opening, readyAfter, opened⟩
  refine ⟨0, ?_⟩
  intro fuel _
  refine ⟨{ inode := addr, pos := 0, denyWrite := false }, after, ino, ?_, opened.isOpen,
    opened.sector_eq⟩
  rw [filesysOpen, bind_of_ok (opening fuel)]
  exact fileOpen_of_heapOk readyAfter.heap fuel addr

lemma opensAs_of_firstEntry (notRoot : name ≠ [slash]) {step : ℕ}
  (found : (fs.diskAt 1).FirstEntry fs.device (DirEntry.Matches · (lookupName name)) step)
  (isNum : DirEntry.inodeSector ((fs.diskAt 1).entryAt fs.device (20 * step)) = num) :
  OpensAs fs name fun ino => ino.sector = num ∧ ino.data = fs.inodeData num := by
  rcases ready.dirOpenRoot_opened with ⟨addr, root, first, opening, readyFirst, opened⟩
  rcases readyFirst.cached addr root opened.member opened.isOpen opened.sector_eq with
    ⟨notRemoved, positive, data⟩
  have len := readyFirst.len_eq
  have disk : first.diskAt 1 = fs.diskAt 1 := by rw [Fs.diskAt, opened.device_eq]; rfl
  have fits := found.fits
  have secLt := ready.entry_lt step (by rw [← disk] at fits; omega) found.found.1
  rw [isNum] at secLt
  rcases readyFirst.inodeOpen_opened (by rw [opened.device_eq]; exact secLt) with
    ⟨target, record, second, openingTarget, readySecond, openedTarget⟩
  rcases openedTarget.still_open opened.isOpen opened.member with
    ⟨rootAfter, isRootAfter, secAfter, cntAfter⟩
  rcases readySecond.cached addr rootAfter
    ((openedTarget.mem_openInodes _).mpr (Or.inr opened.member)) isRootAfter
    (secAfter.trans opened.sector_eq) with ⟨notRemovedAfter, _, _⟩
  have isTarget : ∃ ino, (second.closed addr rootAfter).inodes target = some ino ∧
      ino.sector = num ∧ ino.data = fs.inodeData num := by
    have sameData := openedTarget.data_eq.trans (opened.inodeData_eq num)
    by_cases same : target = addr
    · subst same
      rw [openedTarget.isOpen] at isRootAfter
      cases isRootAfter
      exact ⟨_, Fs.closed_inodes_self (by omega), openedTarget.sector_eq, sameData⟩
    exact ⟨record, (Fs.closed_inodes_of_ne rootAfter same).trans openedTarget.isOpen,
      openedTarget.sector_eq, sameData⟩
  rcases isTarget with ⟨ino, isIno, passes⟩
  refine ⟨321, ?_⟩
  intro fuel enough
  refine ⟨{ inode := target, pos := 0, denyWrite := false }, _, ino, ?_, isIno, passes⟩
  have looked : dirLookup fuel { inode := addr, empty := false, pos := 0 } (lookupName name)
      first = .ok (some target, second) := by
    rw [← disk, ← opened.device_eq, ← data] at found isNum
    rw [dirLookup, bind_of_ok (lookup_of_firstEntry readyFirst.heap opened.isOpen
      (by rw [data]; exact readyFirst.readable) found (by rw [data]; omega))]
    simp only [isNum]
    exact openingTarget
  rw [filesysOpen, bind_of_ok (opening fuel)]
  simp only [if_neg notRoot]
  refine (bind_of_ok looked).trans ?_
  refine (bind_of_ok (Fs.inodeClose_closed isRootAfter notRemovedAfter fuel)).trans ?_
  exact fileOpen_of_heapOk (Fs.closed_heap readySecond.heap) fuel target

lemma firstEntry_of_opensAs {check : Inode → Prop} (notRoot : name ≠ [slash])
  (opens : OpensAs fs name check) :
  ∃ step, (fs.diskAt 1).FirstEntry fs.device (DirEntry.Matches · (lookupName name)) step := by
  rcases ready.dirOpenRoot_opened with ⟨addr, root, first, opening, readyFirst, opened⟩
  rcases readyFirst.cached addr root opened.member opened.isOpen opened.sector_eq with
    ⟨_, _, data⟩
  rcases opens with ⟨bound, opens⟩
  rcases opens bound le_rfl with ⟨file, after, ino, ran, _, _⟩
  rw [filesysOpen, bind_of_ok (opening bound)] at ran
  simp only [if_neg notRoot] at ran
  rcases bind_eq_ok ran with ⟨target, looked, looking, closing⟩
  rcases bind_eq_ok looking with ⟨found, searched, search, openTarget⟩
  have disk : root.data = fs.diskAt 1 := by
    rw [data, Fs.diskAt, opened.device_eq]
    rfl
  rcases lookup_eq_ok readyFirst.heap opened.isOpen (by rw [data]; exact readyFirst.readable)
    search with ⟨rfl, ⟨step, isFirst, _⟩ | ⟨rfl, _⟩⟩
  · rw [disk, opened.device_eq] at isFirst
    exact ⟨step, isFirst⟩
  cases openTarget
  rcases bind_eq_ok closing with ⟨_, closed, _, openFile⟩
  rcases bind_eq_ok openFile with ⟨_, _, _, nothing⟩
  cases nothing

end Opening

end Pintos
