import Pintos.Filesys.FormatReturns
import Pintos.Library.Reachability

/-!
# No sector is owned twice

A volume is a formatted file system together with the set of its live inodes and
the references its users hold to in-memory inodes. Users create inodes, open and
reopen them, write inside them, remove and close them, in any order. In every
state that is reached, live inodes share no sector and all their sectors are
marked used, so that a write to one inode is never seen by a reader of another.
-/

namespace Pintos

/-- A file system in use: `live` holds the headers of the inodes that were created and not yet
released, `handles` counts the references users hold by address. -/
structure Volume where
  fs : Fs
  live : Set ℕ
  handles : ℕ → ℕ

variable {volume : Volume}

namespace Volume

/-- A device that `filesys_init` has just formatted. Its inodes are the free map and the root
directory. -/
def Formatted (volume : Volume) : Prop :=
  ∃ fuel memory fs, Booting fs ∧ filesysInit fuel memory true fs = .ok ((), volume.fs) ∧
    volume.live = {1, 0} ∧ volume.handles = fun _ => 0

inductive Step : Volume → Volume → Prop
  /-- A header is allocated and `inode_create` is run on it. -/
  | create {volume : Volume} {fuel length : ℕ} {number : Word} {middle after : Fs}
      {success : Bool} (direct : length ≤ 123 * 512)
      (allocated : freeMapAllocate fuel 1 volume.fs = .ok (some number, middle))
      (created : inodeCreate fuel number length middle = .ok (success, after)) :
      Step volume
        { volume with
          fs := after
          live := if success then insert number.toNat volume.live else volume.live }
  /-- No sector is left for a header. -/
  | full {volume : Volume} {fuel : ℕ} {after : Fs}
      (allocated : freeMapAllocate fuel 1 volume.fs = .ok (none, after)) :
      Step volume { volume with fs := after }
  | opens {volume : Volume} {number : Word} {address : ℕ} {after : Fs}
      (isLive : number.toNat ∈ volume.live)
      (opened : inodeOpen number volume.fs = .ok (some address, after)) :
      Step volume { volume with fs := after, handles := hold volume.handles address }
  | reopen {volume : Volume} {address result : ℕ} {after : Fs}
      (held : 0 < volume.handles address)
      (reopened : inodeReopen address volume.fs = .ok (result, after)) :
      Step volume { volume with fs := after, handles := hold volume.handles address }
  /-- A write that ends inside the file. -/
  | write {volume : Volume} {fuel address size offset : ℕ} {buffer : ℕ → Byte} {count : ℤ}
      {inode : Inode} {after : Fs} (held : 0 < volume.handles address)
      (isOpen : volume.fs.inodes address = some inode)
      (inside : offset + size ≤ inode.data.len)
      (written : inodeWriteAt fuel address buffer size offset volume.fs = .ok (count, after)) :
      Step volume { volume with fs := after }
  | remove {volume : Volume} {address : ℕ} {after : Fs} (held : 0 < volume.handles address)
      (removed : inodeRemove address volume.fs = .ok ((), after)) :
      Step volume { volume with fs := after }
  /-- The last close of a removed inode releases it. -/
  | close {volume : Volume} {fuel address : ℕ} {inode : Inode} {after : Fs}
      (held : 0 < volume.handles address) (isOpen : volume.fs.inodes address = some inode)
      (closed : inodeClose fuel address volume.fs = .ok ((), after)) :
      Step volume
        { fs := after
          live := if inode.openCnt = 1 ∧ inode.removed = true then
            volume.live \ {inode.sector.toNat} else volume.live
          handles := unhold volume.handles address }

def Reachable (volume : Volume) : Prop := Pintos.Reachable Formatted Step volume

/-- What all operations keep: sectors are owned as they should be, and the free map file counts
for one reference more than the users hold. -/
def Sound (volume : Volume) : Prop :=
  ∃ file, volume.fs.freeMapFile = some file ∧
    Owned volume.fs volume.live (hold volume.handles file.inode) ∧ volume.fs.FileHeld

lemma Formatted.sound (formatted : volume.Formatted) : volume.Sound := by
  obtain ⟨fuel, mem, fs, booting, ran, live, handles⟩ := formatted
  obtain ⟨file, isFile, owned, fileHeld⟩ := filesysInit_formatted booting ran
  refine ⟨file, isFile, ?_, fileHeld⟩
  rw [live, handles]
  exact owned

lemma Step.sound {after : Volume} (taken : Step volume after) (sound : volume.Sound) :
  after.Sound := by
  obtain ⟨file, isFile, owned, fileHeld⟩ := sound
  cases taken with
  | create direct alloc created =>
    obtain ⟨ownedCreated, stillHeld⟩ := owned.of_inodeCreate fileHeld direct alloc created
    have sameFile := (inodeCreate_onlyData _ _ _ created).freeMapFile_eq.trans
      (freeMapAllocate_onlyData _ _ alloc).freeMapFile_eq
    exact ⟨file, sameFile.trans isFile, ownedCreated, stillHeld⟩
  | full alloc =>
    rcases freeMapAllocate_eq_ok (owned.mapReady fileHeld) alloc with
      ⟨_, rfl, _⟩ | ⟨_, impossible, _⟩
    · exact ⟨file, isFile, owned, fileHeld⟩
    · cases impossible
  | opens isLive opened =>
    obtain ⟨_, same, ownedOpen, keeps, _, _, sameFile, _⟩ := owned.of_inodeOpen isLive opened
    cases same
    rw [hold_comm] at ownedOpen
    exact ⟨file, sameFile.trans isFile, ownedOpen, fileHeld.of_keeps keeps sameFile⟩
  | reopen held reopened =>
    obtain ⟨ownedOpen, stillHeld, sameFile⟩ := owned.of_inodeReopen reopened
    rw [hold_comm] at ownedOpen
    exact ⟨file, sameFile.trans isFile, ownedOpen, stillHeld fileHeld⟩
  | write held isOpen inside written =>
    obtain ⟨ownedWritten, onlyData, _⟩ := owned.of_inodeWriteAt isOpen written
    exact ⟨file, onlyData.freeMapFile_eq.trans isFile, ownedWritten,
      fileHeld.of_onlyData onlyData⟩
  | remove held removed =>
    obtain ⟨ownedRemoved, stillHeld, sameFile⟩ := owned.of_inodeRemove removed
    exact ⟨file, sameFile.trans isFile, ownedRemoved, stillHeld fileHeld⟩
  | @close _ addr _ _ held isOpen closed =>
    have pos : 0 < hold volume.handles file.inode addr :=
      Nat.lt_of_lt_of_le held (le_hold _ _ _)
    obtain ⟨ownedClosed, stillHeld, sameFile⟩ := owned.of_inodeClose fileHeld isOpen pos
      (by
        intro other isOther same
        rw [isFile] at isOther
        cases isOther
        rw [same, hold, Function.update_self]
        omega) closed
    rw [unhold_hold held] at ownedClosed
    exact ⟨file, sameFile.trans isFile, ownedClosed, stillHeld⟩

lemma Reachable.sound (reachable : volume.Reachable) : volume.Sound :=
  Pintos.Reachable.invariant (fun _ formatted => formatted.sound)
    (fun _ _ sound taken => taken.sound sound) reachable

end Volume

section Isolation

variable {fs after : Fs} {addr : ℕ} {ino : Inode}

lemma inodeReadAt_agree (heap : fs.HeapOk) (heapAfter : after.HeapOk)
  (isOpen : fs.inodes addr = some ino) (stillOpen : after.inodes addr = some ino)
  (readable : ino.data.Readable fs.device) (sameSize : after.device.size = fs.device.size)
  (agree : ∀ idx, idx < ino.data.len →
    ino.data.contents after.device idx = ino.data.contents fs.device idx)
  (size ofs : ℕ) (buf : ℕ → Byte) (res : ℤ × (ℕ → Byte)) :
  inodeReadAt addr buf size ofs after = .ok (res, after) ↔
    inodeReadAt addr buf size ofs fs = .ok (res, fs) := by
  have readableAfter : ino.data.Readable after.device :=
    ⟨readable.size_nonneg, readable.size_le, fun blk bound => by
      rw [sameSize]
      exact readable.sector_lt blk bound⟩
  have delivered : ∀ cnt, ofs + cnt ≤ ino.data.len ∨ cnt = 0 →
      overlay buf 0 cnt (fun idx => ino.data.contents after.device (ofs + idx)) =
        overlay buf 0 cnt fun idx => ino.data.contents fs.device (ofs + idx) := by
    intro cnt inside
    apply overlay_congr
    intro idx bound
    exact agree _ (by omega)
  by_cases nothing : size = 0
  · subst nothing
    simp [inodeReadAt, inodeReadLoop]
  by_cases inside : ofs + size ≤ ino.data.len
  · rw [inodeReadAt_inside heapAfter stillOpen readableAfter inside,
      inodeReadAt_inside heap isOpen readable inside, delivered size (Or.inl inside)]
    simp
  have pos : 0 < size := Nat.pos_of_ne_zero nothing
  have past : ino.data.len < ofs + size := Nat.lt_of_not_le inside
  rw [inodeReadAt_past_iff heapAfter stillOpen readableAfter pos past,
    inodeReadAt_past_iff heap isOpen readable pos past,
    delivered (ino.data.len - ofs) (by omega)]
  simp [InodeDisk.Resolvable, sameSize]

end Isolation

namespace Volume

structure Unshared (volume : Volume) : Prop where
  free_map_live : 0 ∈ volume.live
  used : ∀ header ∈ volume.live, ∀ sector, volume.fs.Owns header sector → volume.fs.Used sector
  header_apart : ∀ header ∈ volume.live, ¬ volume.fs.OwnsData header header
  data_apart : ∀ header ∈ volume.live, ∀ left right, left < (volume.fs.diskAt header).blockCnt →
    right < (volume.fs.diskAt header).blockCnt →
      (volume.fs.diskAt header).dataSector left = (volume.fs.diskAt header).dataSector right →
        left = right
  disjoint : ∀ left ∈ volume.live, ∀ right ∈ volume.live, left ≠ right → ∀ sector,
    volume.fs.Owns left sector → ¬ volume.fs.Owns right sector

/-- A write inside one inode changes no sector of another live inode, and no read of another open
inode can tell the difference. -/
def WritesApart (volume : Volume) : Prop :=
  ∀ {fuel writer size offset : ℕ} {buffer : ℕ → Byte} {count : ℤ} {inode : Inode} {after : Fs},
    volume.fs.inodes writer = some inode → offset + size ≤ inode.data.len →
    inodeWriteAt fuel writer buffer size offset volume.fs = .ok (count, after) →
    (∀ header ∈ volume.live, header ≠ inode.sector.toNat → ∀ sector,
      volume.fs.Owns header sector →
        after.device.sectors sector = volume.fs.device.sectors sector) ∧
    ∀ reader, reader ≠ writer → volume.fs.inodes reader ≠ none →
      ∀ (readSize readOffset : ℕ) (target : ℕ → Byte) (result : ℤ × (ℕ → Byte)),
        inodeReadAt reader target readSize readOffset after = .ok (result, after) ↔
          inodeReadAt reader target readSize readOffset volume.fs = .ok (result, volume.fs)

lemma Sound.unshared (sound : volume.Sound) : volume.Unshared := by
  obtain ⟨file, _, owned, fileHeld⟩ := sound
  exact
    { free_map_live := owned.zero_live fileHeld
      used := owned.used
      header_apart := owned.header_apart
      data_apart := fun hdr isLive => (owned.wellFormed hdr isLive).sector_inj
      disjoint := owned.disjoint }

lemma Sound.writesApart (sound : volume.Sound) : volume.WritesApart := by
  obtain ⟨file, _, owned, fileHeld⟩ := sound
  intro fuel writer size ofs buf cnt ino after isOpen inside written
  obtain ⟨ownedWritten, onlyData, _, _, _, others⟩ := owned.of_inodeWriteAt isOpen written
  have writerLive := owned.live_of_open writer ino isOpen
  have unchanged : ∀ hdr ∈ volume.live, hdr ≠ ino.sector.toNat → ∀ sec,
      volume.fs.Owns hdr sec →
        after.device.sectors sec = volume.fs.device.sectors sec := by
    intro hdr isLive ne sec isOwned
    apply others
    intro isData
    exact owned.disjoint hdr isLive _ writerLive ne sec isOwned (Or.inr isData)
  refine ⟨unchanged, ?_⟩
  intro reader ne isReader
  obtain ⟨record, isRecord⟩ := Option.ne_none_iff_exists'.mp isReader
  have readable := (owned.wellFormed_open isRecord).toReadable
  refine inodeReadAt_agree owned.heap ownedWritten.heap isRecord
    (by rw [onlyData.inodes_eq, isRecord]) readable onlyData.size_eq ?_
  intro idx bound
  apply InodeDisk.contents_congr
  refine unchanged _ (owned.live_of_open reader record isRecord) ?_ _
    (Or.inr (owned.ownsData_of_open isRecord (readable.block_lt bound)))
  intro same
  exact ne (owned.unique reader writer record ino isRecord isOpen
    (BitVec.eq_of_toNat_eq same))

/-- No sector is owned twice, after any sequence of operations on a formatted device. -/
theorem unshared_of_reachable {volume : Volume} (reachable : volume.Reachable) :
    volume.Unshared ∧ volume.WritesApart :=
  ⟨reachable.sound.unshared, reachable.sound.writesApart⟩

lemma reachable_sixteen : ∃ volume : Volume, volume.Reachable ∧ volume.live = {1, 0} ∧
  ∃ addr, 0 < volume.handles addr := by
  obtain ⟨after, booting, run, _⟩ := @formatted_of_check (fun _ => true) (by decide +kernel)
  have formatted : Formatted { fs := after, live := {1, 0}, handles := fun _ => 0 } :=
    ⟨_, _, _, booting, run, rfl, rfl⟩
  obtain ⟨file, _, owned, _⟩ := formatted.sound
  have rootLive : rootDirSector.toNat ∈ ({1, 0} : Set ℕ) := Or.inl rfl
  obtain ⟨addr, opened, opening, _⟩ := owned.inodeOpen_returns rootLive
  exact ⟨_, .next (.start formatted) (.opens rootLive opening), rfl, addr, by simp [hold]⟩

theorem unshared_sixteen : ∃ volume : Volume, volume.live = {1, 0} ∧
    (∃ address, 0 < volume.handles address) ∧ volume.Unshared ∧ volume.WritesApart := by
  obtain ⟨volume, reachable, live, held⟩ := reachable_sixteen
  exact ⟨volume, live, held, unshared_of_reachable reachable⟩

end Volume

end Pintos
