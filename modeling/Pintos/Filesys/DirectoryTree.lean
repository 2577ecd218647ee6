import Pintos.Filesys.FormatRoot
import Pintos.Filesys.Volume

/-!
# The tree of directories

A new directory lists itself under "." and under "..": when `dir_create` writes its
entries, it is not told into which parent the directory will be linked. No operation
takes an entry away or replaces it, so in every state that is reached ".." still leads
back to the directory itself, and the tree is well formed only as long as it consists of
the root.
-/

namespace Pintos

open Pintos.Computation

variable {fs after : Fs} {live : Set ℕ} {holds : ℕ → ℕ} {header fuel : ℕ} {number : Word}
  {name : List Byte} {inode : Inode} {dir : Dir} {result : Bool}

namespace Fs

def Names (fs : Fs) (header : ℕ) (name : List Byte) (sector : ℕ) : Prop :=
  ∃ step, (fs.diskAt header).FirstEntry fs.device (DirEntry.Matches · name) step ∧
    (DirEntry.inodeSector ((fs.diskAt header).entryAt fs.device (20 * step))).toNat = sector

def KeepsNames (fs after : Fs) (header : ℕ) : Prop :=
  ∀ name sector, 0 ∉ name → fs.Names header name sector → after.Names header name sector

lemma Names.unique {left right : ℕ} (one : fs.Names header name left)
  (two : fs.Names header name right) : left = right := by
  rcases one with ⟨step, isFirst, rfl⟩
  rcases two with ⟨other, isOther, rfl⟩
  rw [isFirst.unique isOther]

lemma names_of_lists {entries : List (List Byte × Word)}
  (lists : (fs.diskAt header).Lists fs.device entries) (distinct : (entries.map Prod.fst).Nodup)
  (listed : (name, number) ∈ entries) : fs.Names header name number.toNat := by
  rcases List.mem_iff_getElem?.mp listed with ⟨step, isEntry⟩
  refine ⟨step, lists.firstEntry distinct isEntry, ?_⟩
  rw [(lists.taken step _ isEntry).2]

lemma SameInode.keepsNames (same : fs.SameInode after header)
  (readable : (fs.diskAt header).Readable fs.device) : fs.KeepsNames after header := by
  rintro name sec _ ⟨step, isFirst, isSec⟩
  have entries : ∀ slot, slot ≤ step → (fs.diskAt header).entryAt after.device (20 * slot) =
      (fs.diskAt header).entryAt fs.device (20 * slot) := by
    intro slot le
    have fits := isFirst.fits
    exact InodeDisk.entryAt_congr (by omega) fun _ inside => same.contents_eq readable inside
  unfold Names
  rw [same.diskAt_eq]
  refine ⟨step, ⟨isFirst.fits, ?_, ?_⟩, ?_⟩
  · rw [entries step le_rfl]
    exact isFirst.found
  · intro prior pre
    rw [entries prior pre.le]
    exact isFirst.first prior pre
  rw [entries step le_rfl]
  exact isSec

end Fs

lemma InodeDisk.FirstEntry.of_overwritten {disk : InodeDisk} {pre dev : Block} {slot step : ℕ}
  {old : DirEntry} {added : List Byte}
  (isFirst : disk.FirstEntry pre (DirEntry.Matches · name) step) (readable : disk.Readable pre)
  (overwritten : Overwritten disk pre dev (20 * slot) 20 (DirEntry.filled old added number))
  (slotFits : 20 * slot + 20 ≤ disk.len) (short : added.length ≤ nameMax)
  (unused : DirEntry.inUse (disk.entryAt pre (20 * slot)) = false)
  (absent : disk.NoEntry pre (DirEntry.Matches · added)) (noNul : 0 ∉ name)
  (addedNoNul : 0 ∉ added) : disk.FirstEntry dev (DirEntry.Matches · name) step ∧
    disk.entryAt dev (20 * step) = disk.entryAt pre (20 * step) := by
  have fits := isFirst.fits
  have notSlot : step ≠ slot := by
    rintro rfl
    have used := isFirst.found.1
    rw [unused] at used
    cases used
  have same := entryAt_overwritten_of_ne readable overwritten notSlot fits
  refine ⟨⟨fits, ?_, ?_⟩, same⟩
  · rw [same]
    exact isFirst.found
  intro prior priorBefore matching
  by_cases isSlot : prior = slot
  · subst isSlot
    have isAdded := matches_overwritten readable overwritten slotFits short
    have sameName := DirEntry.hasName_unique noNul addedNoNul matching.2 isAdded.2
    subst sameName
    exact absent step fits isFirst.found
  rw [entryAt_overwritten_of_ne readable overwritten isSlot (by omega)] at matching
  exact isFirst.first prior priorBefore matching

namespace Owned

lemma keepsNames_of_dirAdd (owned : Owned fs live holds)
  (isOpen : fs.inodes dir.inode = some inode) (kept : inode.removed = false)
  (isLive : number.toNat ∈ live) (noNul : 0 ∉ name)
  (ran : dirAdd fuel dir name number fs = .ok (result, after)) (hdrLive : header ∈ live) :
  fs.KeepsNames after header := by
  have dirLive := owned.live_of_open _ _ isOpen
  have readable := (owned.wellFormed header hdrLive).toReadable
  rcases owned.of_dirAdd isOpen isLive ran with ⟨_, _, _, _, others⟩
  by_cases isDir : header = inode.sector.toNat
  · subst isDir
    have data := owned.data_of_not_removed isOpen kept
    have slot := dirAdd_slot owned.heap isOpen (owned.writable _ _ isOpen)
      (owned.wellFormed_open isOpen) ran
    rw [data] at slot
    rcases slot with ⟨_, rfl, _⟩ | ⟨_, short, absent, step, old, fits, unused, _, overwritten⟩
    · exact fun _ _ _ names => names
    rintro other sec otherNoNul ⟨place, isFirst, isSec⟩
    rcases isFirst.of_overwritten readable overwritten fits short unused absent otherNoNul noNul
      with ⟨stillFirst, sameEntry⟩
    unfold Fs.Names
    rw [owned.diskAt_of_written dirLive others]
    exact ⟨place, stillFirst, by rw [sameEntry]; exact isSec⟩
  · exact (owned.sameInode_of_written dirLive others hdrLive isDir).keepsNames readable

end Owned

lemma inodeReopen_sameDevice (addr : ℕ) : Preserves Fs.SameDevice (inodeReopen addr) := by
  intro pre result after ran
  rcases bind_eq_ok ran with ⟨inode, mid, deref, rest⟩
  rcases derefInode_eq_ok deref with ⟨_, rfl⟩
  cases rest
  exact ⟨rfl, rfl, rfl⟩

lemma inodeReopen_steady (addr : ℕ) : Preserves Fs.Steady (inodeReopen addr) := by
  intro pre result after ran
  rcases bind_eq_ok ran with ⟨inode, mid, deref, rest⟩
  rcases derefInode_eq_ok deref with ⟨isOpen, rfl⟩
  cases rest
  refine Fs.steady_update rfl rfl fun noneRemoved record isRecord => ?_
  cases isRecord
  have kept : inode.removed = false := noneRemoved _ _ isOpen
  exact kept

/-- A file system with its tree of directories: a link has the header of a directory and that of
the parent in which it has been entered. -/
structure Tree where
  volume : Volume
  links : Set (ℕ × ℕ)

namespace Tree

def Directory (tree : Tree) (header : ℕ) : Prop := ∃ parent, (header, parent) ∈ tree.links

def Formatted (tree : Tree) : Prop := tree.volume.Formatted ∧ tree.links = {(1, 1)}

/-- One operation. Entries are never taken away, since `filesys_remove` does not get to
`dir_remove`, and the bytes of a directory are not written to in another way than by `dir_add`. -/
inductive Step : Tree → Tree → Prop
  /-- A header is allocated and `inode_create` is run on it. -/
  | create {tree : Tree} {fuel length : ℕ} {number : Word} {middle after : Fs} {success : Bool}
      (direct : length ≤ 123 * 512)
      (allocated : freeMapAllocate fuel 1 tree.volume.fs = .ok (some number, middle))
      (created : inodeCreate fuel number length middle = .ok (success, after)) :
      Step tree
        { tree with
          volume :=
            { tree.volume with
              fs := after
              live := if success then insert number.toNat tree.volume.live
                else tree.volume.live } }
  /-- No sector is left for a header. -/
  | full {tree : Tree} {fuel : ℕ} {after : Fs}
      (allocated : freeMapAllocate fuel 1 tree.volume.fs = .ok (none, after)) :
      Step tree { tree with volume := { tree.volume with fs := after } }
  | opens {tree : Tree} {number : Word} {address : ℕ} {after : Fs}
      (isLive : number.toNat ∈ tree.volume.live)
      (opened : inodeOpen number tree.volume.fs = .ok (some address, after)) :
      Step tree
        { tree with
          volume :=
            { tree.volume with fs := after, handles := hold tree.volume.handles address } }
  | reopen {tree : Tree} {address result : ℕ} {after : Fs}
      (held : 0 < tree.volume.handles address)
      (reopened : inodeReopen address tree.volume.fs = .ok (result, after)) :
      Step tree
        { tree with
          volume :=
            { tree.volume with fs := after, handles := hold tree.volume.handles address } }
  /-- A write that ends inside the file. -/
  | write {tree : Tree} {fuel address size offset : ℕ} {buffer : ℕ → Byte} {count : ℤ}
      {inode : Inode} {after : Fs} (held : 0 < tree.volume.handles address)
      (isOpen : tree.volume.fs.inodes address = some inode)
      (isFile : ¬ tree.Directory inode.sector.toNat)
      (inside : offset + size ≤ inode.data.len)
      (written : inodeWriteAt fuel address buffer size offset tree.volume.fs =
        .ok (count, after)) :
      Step tree { tree with volume := { tree.volume with fs := after } }
  | close {tree : Tree} {fuel address : ℕ} {after : Fs}
      (held : 0 < tree.volume.handles address)
      (closed : inodeClose fuel address tree.volume.fs = .ok ((), after)) :
      Step tree
        { tree with
          volume :=
            { tree.volume with fs := after, handles := unhold tree.volume.handles address } }
  /-- A file is entered in an open directory. -/
  | add {tree : Tree} {fuel : ℕ} {dir : Dir} {name : List Byte} {number : Word} {result : Bool}
      {after : Fs} (held : 0 < tree.volume.handles dir.inode) (noNul : 0 ∉ name)
      (isLive : number.toNat ∈ tree.volume.live) (isFile : ¬ tree.Directory number.toNat)
      (added : dirAdd fuel dir name number tree.volume.fs = .ok (result, after)) :
      Step tree { tree with volume := { tree.volume with fs := after } }
  /-- `mkdir` in an open directory: a sector is allocated, `dir_create` makes the directory there
  and `dir_add` enters it. -/
  | make {tree : Tree} {fuel entryCnt : ℕ} {dir : Dir} {inode : Inode} {name : List Byte}
      {number : Word} {result : Bool} {middle made after : Fs}
      (held : 0 < tree.volume.handles dir.inode)
      (isOpen : tree.volume.fs.inodes dir.inode = some inode)
      (isDirectory : tree.Directory inode.sector.toNat) (noNul : 0 ∉ name)
      (direct : entryCnt * 20 ≤ 123 * 512)
      (allocated : freeMapAllocate fuel 1 tree.volume.fs = .ok (some number, middle))
      (created : dirCreate fuel number entryCnt middle = .ok (true, made))
      (added : dirAdd fuel dir name number made = .ok (result, after)) :
      Step tree
        { volume :=
            { tree.volume with fs := after, live := insert number.toNat tree.volume.live }
          links := if result then insert (number.toNat, inode.sector.toNat) tree.links
            else tree.links }

def Reachable (tree : Tree) : Prop := Pintos.Reachable Formatted Step tree

/-- Every directory names itself under "." and its parent under "..", and looking up ".." in a
directory that has been opened gets back to the parent. -/
structure WellFormed (tree : Tree) : Prop where
  own : ∀ child parent, (child, parent) ∈ tree.links → tree.volume.fs.Names child dotName child
  up : ∀ child parent, (child, parent) ∈ tree.links → tree.volume.fs.Names child dotDotName parent
  returns : ∀ child parent, (child, parent) ∈ tree.links → ∀ dir inode,
    tree.volume.fs.inodes dir.inode = some inode → inode.sector.toNat = child →
      ∃ bound place opened after, (∀ fuel, bound ≤ fuel →
        dirLookup fuel dir dotDotName tree.volume.fs = .ok (some place, after)) ∧
        after.inodes place = some opened ∧ opened.sector.toNat = parent

/-- What holds of a link in every state: the directory is still there, and both of its own names
stand for itself. Only the root is its own parent. -/
structure Link (volume : Volume) (child parent : ℕ) : Prop where
  isLive : child ∈ volume.live
  notMap : child ≠ 0
  dot : volume.fs.Names child dotName child
  dotDot : volume.fs.Names child dotDotName child
  root : child = parent → child = 1

structure Sound (tree : Tree) : Prop where
  volume : tree.volume.Sound
  noneRemoved : tree.volume.fs.NoneRemoved
  rooted : (1, 1) ∈ tree.links
  linked : ∀ child parent, (child, parent) ∈ tree.links → Link tree.volume child parent

variable {tree : Tree} {volume : Volume} {parent child : ℕ}

lemma noNul_dotName : 0 ∉ dotName := by decide

lemma noNul_dotDotName : 0 ∉ dotDotName := by decide

lemma Link.of_keeps {changed : Volume} (link : Link volume child parent)
  (isLive : child ∈ changed.live) (keeps : volume.fs.KeepsNames changed.fs child) :
  Link changed child parent where
  isLive := isLive
  notMap := link.notMap
  dot := keeps _ _ noNul_dotName link.dot
  dotDot := keeps _ _ noNul_dotDotName link.dotDot
  root := link.root

lemma link_of_lists
  (lists : (volume.fs.diskAt number.toNat).Lists volume.fs.device (ownEntries number))
  (isLive : number.toNat ∈ volume.live) (notMap : number.toNat ≠ 0)
  (root : number.toNat = parent → number.toNat = 1) : Link volume number.toNat parent where
  isLive := isLive
  notMap := notMap
  dot := Fs.names_of_lists lists (by simp [ownEntries, dotName, dotDotName]) (List.mem_cons_self)
  dotDot := Fs.names_of_lists lists (by simp [ownEntries, dotName, dotDotName])
    (List.mem_cons_of_mem _ (List.mem_singleton.mpr rfl))
  root := root

namespace Sound

lemma readable (sound : tree.Sound) (isLive : header ∈ tree.volume.live) :
  (tree.volume.fs.diskAt header).Readable tree.volume.fs.device := by
  rcases sound.volume with ⟨_, _, owned, _⟩
  exact (owned.wellFormed header isLive).toReadable

section

variable (sound : tree.Sound) (volumeSound : volume.Sound) (noneRemoved : volume.fs.NoneRemoved)
  (stays : ∀ header ∈ tree.volume.live, tree.Directory header → header ∈ volume.live)

include sound volumeSound noneRemoved stays

lemma of_keeps (keeps : ∀ header ∈ tree.volume.live, header ≠ 0 → tree.Directory header →
    tree.volume.fs.KeepsNames volume.fs header) : Sound { tree with volume := volume } where
  volume := volumeSound
  noneRemoved := noneRemoved
  rooted := sound.rooted
  linked child parent isLink := by
    have link := sound.linked child parent isLink
    exact link.of_keeps (stays child link.isLive ⟨parent, isLink⟩)
      (keeps child link.isLive link.notMap ⟨parent, isLink⟩)

lemma of_same (same : ∀ header ∈ tree.volume.live, header ≠ 0 → tree.Directory header →
    tree.volume.fs.SameInode volume.fs header) : Sound { tree with volume := volume } :=
  sound.of_keeps volumeSound noneRemoved stays fun header isLive notMap isDirectory =>
    (same header isLive notMap isDirectory).keepsNames (sound.readable isLive)

end

lemma of_sameDevice {handles : ℕ → ℕ} (sound : tree.Sound)
  (volumeSound : Volume.Sound { fs := after, live := tree.volume.live, handles := handles })
  (noneRemoved : after.NoneRemoved) (dev : after.device = tree.volume.fs.device) :
  Sound { tree with volume := { fs := after, live := tree.volume.live, handles := handles } } :=
  sound.of_same volumeSound noneRemoved (fun _ isLive _ => isLive) fun _ _ _ _ =>
    .of_device dev

end Sound

lemma Formatted.sound (formatted : tree.Formatted) : tree.Sound := by
  rcases formatted with ⟨isFormatted, links⟩
  have volumeSound := isFormatted.sound
  rcases isFormatted with ⟨fuel, mem, fs, booting, ran, live, handles⟩
  rcases filesysInit_orderly booting ran with ⟨place, orderly, _⟩
  refine ⟨volumeSound, orderly.noneRemoved, by rw [links]; rfl, ?_⟩
  intro child parent isLink
  rw [links] at isLink
  cases isLink
  exact link_of_lists (show (tree.volume.fs.diskAt rootDirSector.toNat).Lists _ _ from
    orderly.lists) (by rw [live]; exact Or.inl rfl) (by decide) (fun _ => rfl)

namespace Sound

lemma of_create {len : ℕ} {mid : Fs} {success : Bool} (sound : tree.Sound)
  (direct : len ≤ 123 * 512)
  (alloc : freeMapAllocate fuel 1 tree.volume.fs = .ok (some number, mid))
  (created : inodeCreate fuel number len mid = .ok (success, after)) : Sound
    { tree with
      volume :=
        { tree.volume with
          fs := after
          live := if success then insert number.toNat tree.volume.live
            else tree.volume.live } } := by
  rcases sound.volume with ⟨file, isFile, owned, fileHeld⟩
  rcases owned.of_freeMapAllocate fileHeld alloc with
    ⟨ownedMid, heldMid, leaked, new, foreign, foreignMid⟩
  have leakedAfter : Leaked mid after number.toNat := by
    rcases inodeCreate_eq_ok (ownedMid.mapReady heldMid) new direct created with
      ⟨_, final, whole⟩ | ⟨_, failed⟩
    · exact .of_created whole
    · exact failed
  have noneRemoved := leakedAfter.onlyData.steady.noneRemoved
    (leaked.onlyData.steady.noneRemoved sound.noneRemoved)
  refine sound.of_same (Volume.Step.create direct alloc created |>.sound sound.volume)
    noneRemoved ?_ ?_
  · intro header isLive _
    split
    · exact Or.inr isLive
    · exact isLive
  intro header isLive notMap _
  exact (owned.sameInode_of_leaked fileHeld foreign leaked isLive notMap).trans
    (ownedMid.sameInode_of_leaked heldMid foreignMid leakedAfter isLive notMap)

lemma of_write {addr size ofs : ℕ} {buf : ℕ → Byte} {cnt : ℤ} (sound : tree.Sound)
  (held : 0 < tree.volume.handles addr) (isOpen : tree.volume.fs.inodes addr = some inode)
  (isFile : ¬ tree.Directory inode.sector.toNat) (inside : ofs + size ≤ inode.data.len)
  (written : inodeWriteAt fuel addr buf size ofs tree.volume.fs = .ok (cnt, after)) :
  Sound { tree with volume := { tree.volume with fs := after } } := by
  have volumeSound := (Volume.Step.write held isOpen inside written).sound sound.volume
  rcases sound.volume with ⟨file, isMapFile, owned, fileHeld⟩
  rcases owned.of_inodeWriteAt isOpen written with ⟨_, onlyData, _, _, _, others⟩
  refine sound.of_same volumeSound (onlyData.steady.noneRemoved sound.noneRemoved)
    (fun _ isLive _ => isLive) ?_
  intro header isLive _ isDirectory
  refine owned.sameInode_of_written (owned.live_of_open _ _ isOpen) others isLive ?_
  intro isWritten
  exact isFile (isWritten ▸ isDirectory)

lemma of_close {addr : ℕ} (sound : tree.Sound) (held : 0 < tree.volume.handles addr)
  (closed : inodeClose fuel addr tree.volume.fs = .ok ((), after)) : Sound
    { tree with
      volume :=
        { tree.volume with fs := after, handles := unhold tree.volume.handles addr } } := by
  rcases inodeClose_eq_ok closed with ⟨inode, isOpen, _⟩
  have kept := sound.noneRemoved addr inode isOpen
  have volumeSound := (Volume.Step.close held isOpen closed).sound sound.volume
  rw [if_neg (by simp [kept])] at volumeSound
  have noneRemoved := (inodeClose_steady fuel addr closed).noneRemoved sound.noneRemoved
  rw [Fs.inodeClose_closed isOpen kept] at closed
  cases closed
  exact sound.of_sameDevice volumeSound noneRemoved (Fs.sameDevice_closed _ _ _).device_eq

lemma of_add (sound : tree.Sound) (isOpen : tree.volume.fs.inodes dir.inode = some inode)
  (noNul : 0 ∉ name) (isLive : number.toNat ∈ tree.volume.live)
  (added : dirAdd fuel dir name number tree.volume.fs = .ok (result, after)) :
  Sound { tree with volume := { tree.volume with fs := after } } := by
  rcases sound.volume with ⟨file, isMapFile, owned, fileHeld⟩
  rcases owned.of_dirAdd isOpen isLive added with ⟨ownedAfter, keeps, _, sameFile, _⟩
  have noneRemoved := (dirAdd_steady fuel dir name number added).noneRemoved sound.noneRemoved
  refine sound.of_keeps ⟨file, sameFile.trans isMapFile, ownedAfter,
    fileHeld.of_keeps keeps sameFile⟩ noneRemoved (fun _ isLive _ => isLive) ?_
  intro header hdrLive _ _
  exact owned.keepsNames_of_dirAdd isOpen (sound.noneRemoved _ _ isOpen) isLive noNul added hdrLive

variable {entryCnt : ℕ}

lemma of_dirCreate {mid made : Fs} (sound : tree.Sound) (direct : entryCnt * 20 ≤ 123 * 512)
  (alloc : freeMapAllocate fuel 1 tree.volume.fs = .ok (some number, mid))
  (created : dirCreate fuel number entryCnt mid = .ok (true, made)) (parent : ℕ)
  (parentLive : parent ∈ tree.volume.live) : Sound
      { volume :=
          { tree.volume with fs := made, live := insert number.toNat tree.volume.live }
        links := insert (number.toNat, parent) tree.links } ∧
    tree.volume.fs.Keeps made := by
  rcases sound.volume with ⟨file, isMapFile, owned, fileHeld⟩
  rcases owned.of_freeMapAllocate fileHeld alloc with
    ⟨ownedMid, heldMid, leaked, new, foreign, foreignMid⟩
  have noneMid := leaked.onlyData.steady.noneRemoved sound.noneRemoved
  rcases ownedMid.lists_of_dirCreate heldMid noneMid new foreignMid direct created with
    ⟨ownedMade, keeps, sameFile, _, lists, same⟩
  have notLive : number.toNat ∉ tree.volume.live :=
    fun isLive => foreign _ isLive (tree.volume.fs.owns_header _)
  have kept : ∀ header ∈ tree.volume.live, header ≠ 0 →
      tree.volume.fs.KeepsNames made header := fun header isLive notMap =>
    ((owned.sameInode_of_leaked fileHeld foreign leaked isLive notMap).trans
      (same header isLive notMap)).keepsNames (sound.readable isLive)
  refine ⟨⟨⟨file, sameFile.trans (leaked.onlyData.freeMapFile_eq.trans isMapFile), ownedMade,
    heldMid.of_keeps keeps sameFile⟩, (dirCreate_steady _ _ _ created).noneRemoved noneMid,
    Or.inr sound.rooted, ?_⟩, IsTrans.trans _ _ _ leaked.onlyData.keeps keeps⟩
  rintro child above (isNew | isLink)
  · cases isNew
    refine link_of_lists lists (Set.mem_insert _ _) ?_ ?_
    · intro isZero
      exact notLive (isZero ▸ owned.zero_live fileHeld)
    intro isParent
    exact absurd (isParent ▸ parentLive) notLive
  have link := sound.linked child above isLink
  exact link.of_keeps (Or.inr link.isLive) (kept child link.isLive link.notMap)

lemma of_make {mid made : Fs} (sound : tree.Sound)
  (isOpen : tree.volume.fs.inodes dir.inode = some inode) (noNul : 0 ∉ name)
  (direct : entryCnt * 20 ≤ 123 * 512)
  (alloc : freeMapAllocate fuel 1 tree.volume.fs = .ok (some number, mid))
  (created : dirCreate fuel number entryCnt mid = .ok (true, made))
  (added : dirAdd fuel dir name number made = .ok (result, after)) : Sound
    { volume :=
        { tree.volume with fs := after, live := insert number.toNat tree.volume.live }
      links := if result then insert (number.toNat, inode.sector.toNat) tree.links
        else tree.links } := by
  have parentLive : inode.sector.toNat ∈ tree.volume.live := by
    rcases sound.volume with ⟨_, _, owned, _⟩
    exact owned.live_of_open _ _ isOpen
  rcases sound.of_dirCreate direct alloc created inode.sector.toNat parentLive with
    ⟨soundMade, keeps⟩
  rcases keeps _ _ isOpen with ⟨changed, isChanged, _⟩
  have soundAfter := soundMade.of_add isChanged noNul (Set.mem_insert _ _) added
  refine ⟨soundAfter.volume, soundAfter.noneRemoved, ?_, ?_⟩
  · split
    · exact soundAfter.rooted
    · exact sound.rooted
  intro child parent isLink
  refine soundAfter.linked child parent ?_
  split at isLink
  · exact isLink
  · exact Or.inr isLink

end Sound

lemma Step.sound {after : Tree} (taken : Step tree after) (sound : tree.Sound) : after.Sound := by
  cases taken with
  | create direct alloc created => exact sound.of_create direct alloc created
  | full alloc =>
    have volumeSound := (Volume.Step.full alloc).sound sound.volume
    rcases sound.volume with ⟨file, isFile, owned, fileHeld⟩
    rcases freeMapAllocate_eq_ok (owned.mapReady fileHeld) alloc with
      ⟨_, rfl, _⟩ | ⟨_, impossible, _⟩
    · exact sound.of_sameDevice volumeSound sound.noneRemoved rfl
    · cases impossible
  | opens isLive opened =>
    exact sound.of_sameDevice ((Volume.Step.opens isLive opened).sound sound.volume)
      ((inodeOpen_steady _ opened).noneRemoved sound.noneRemoved)
      (inodeOpen_sameDevice _ opened).device_eq
  | reopen held reopened =>
    exact sound.of_sameDevice ((Volume.Step.reopen held reopened).sound sound.volume)
      ((inodeReopen_steady _ reopened).noneRemoved sound.noneRemoved)
      (inodeReopen_sameDevice _ reopened).device_eq
  | write held isOpen isFile inside written =>
    exact sound.of_write held isOpen isFile inside written
  | close held closed => exact sound.of_close held closed
  | @add _ dir _ _ _ _ held noNul isLive isFile added =>
    have isOpen : tree.volume.fs.inodes dir.inode ≠ none := by
      rcases sound.volume with ⟨file, _, owned, _⟩
      exact owned.open_of_held _ (Nat.lt_of_lt_of_le held (le_hold _ _ _))
    rcases Option.ne_none_iff_exists'.mp isOpen with ⟨inode, isIno⟩
    exact sound.of_add isIno noNul isLive added
  | make held isOpen isDirectory noNul direct alloc created added =>
    exact sound.of_make isOpen noNul direct alloc created added

lemma Reachable.sound (reachable : tree.Reachable) : tree.Sound :=
  Pintos.Reachable.invariant (fun _ formatted => formatted.sound)
    (fun _ _ sound taken => taken.sound sound) reachable

lemma Sound.dirLookup_dotDot (sound : tree.Sound) (isLink : (child, parent) ∈ tree.links)
  (isOpen : tree.volume.fs.inodes dir.inode = some inode) (isChild : inode.sector.toNat = child) :
  ∃ bound place opened after, (∀ fuel, bound ≤ fuel →
    dirLookup fuel dir dotDotName tree.volume.fs = .ok (some place, after)) ∧
    after.inodes place = some opened ∧ opened.sector.toNat = child := by
  have link := sound.linked child parent isLink
  rcases sound.volume with ⟨_, _, owned, _⟩
  have data := owned.data_of_not_removed isOpen (sound.noneRemoved _ _ isOpen)
  rcases link.dotDot with ⟨step, isFirst, isSec⟩
  subst isChild
  rw [← data] at isFirst isSec
  have isLive := link.isLive
  rw [← isSec] at isLive
  rcases owned.inodeOpen_returns isLive with ⟨place, after, opening, _⟩
  rcases owned.of_inodeOpen isLive opening with ⟨_, same, _, _, _, _, _, opened, isOpened, sec⟩
  cases same
  refine ⟨inode.data.len + 1, place, opened, after, ?_, isOpened, by rw [sec, isSec]⟩
  intro fuel enough
  exact (bind_of_ok (lookup_of_firstEntry owned.heap isOpen
    (owned.wellFormed_open isOpen).toReadable isFirst enough)).trans opening

lemma Sound.isRoot (sound : tree.Sound) (wf : tree.WellFormed)
  (isLink : (child, parent) ∈ tree.links) : child = 1 ∧ parent = 1 := by
  have link := sound.linked child parent isLink
  have same := link.dotDot.unique (wf.up child parent isLink)
  have isOne := link.root same
  omega

/-- A device of sixteen zeroed sectors has been formatted, and its root directory is open. -/
def rootOpened (fs : Fs) (root : ℕ) : Tree where
  volume := { fs := fs, live := {1, 0}, handles := hold (fun _ => 0) root }
  links := {(1, 1)}

lemma rootOpened_of_check {check : ℕ → Fs → Bool}
  (checked : ((filesysInit 30 (fun _ => 0) true (blankFs 16)).toOption.any fun formatted =>
    (inodeOpen rootDirSector formatted.2).toOption.any fun opened =>
      opened.1.any fun root => check root opened.2) = true) :
  ∃ fs root ino, (rootOpened fs root).Reachable ∧ fs.inodes root = some ino ∧
    ino.sector = rootDirSector ∧ check root fs = true := by
  rcases exists_ok_of_any checked with ⟨⟨_, fs⟩, formats, checked⟩
  have booting : Booting (blankFs 16) := ⟨fun _ => rfl, by decide, fun _ => rfl, rfl⟩
  rcases exists_ok_of_any checked with ⟨⟨_, opened⟩, opens, checked⟩
  rcases (Option.any_eq_true ..).mp checked with ⟨root, rfl, checked⟩
  have formatted : Formatted
      { volume := { fs := fs, live := {1, 0}, handles := fun _ => 0 }, links := {(1, 1)} } :=
    ⟨⟨_, _, _, booting, formats, rfl, rfl⟩, rfl⟩
  have rootLive : rootDirSector.toNat ∈ ({1, 0} : Set ℕ) := Or.inl rfl
  rcases formatted.sound.volume with ⟨_, _, owned, _⟩
  rcases owned.of_inodeOpen rootLive opens with ⟨_, same, _, _, _, _, _, ino, isOpen, isRoot⟩
  cases same
  exact ⟨opened, root, ino, .next (.start formatted) (.opens rootLive opens), isOpen, isRoot,
    checked⟩

lemma held_rootOpened (fs : Fs) (root : ℕ) : 0 < (rootOpened fs root).volume.handles root := by
  simp [rootOpened, hold]

end Tree

end Pintos
