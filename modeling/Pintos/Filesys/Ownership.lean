import Pintos.Filesys.InodeCreate

/-!
# Who owns which sector

An inode on the device owns its header and its data sectors. `Owned` collects
what holds between the inodes that are live on the device, the free map and the
in-memory inodes: live inodes share no sector, all their sectors are marked
used, and every in-memory inode is a copy of a live one. Each operation on
inodes keeps it.
-/

namespace Pintos

open Function

variable {fs after : Fs} {live : Set ℕ} {holds : ℕ → ℕ} {header : ℕ}

namespace Fs

def diskAt (fs : Fs) (header : ℕ) : InodeDisk := .decode (fs.device.sectors header)

def OwnsData (fs : Fs) (header sector : ℕ) : Prop :=
  ∃ block, block < (fs.diskAt header).blockCnt ∧ (fs.diskAt header).dataSector block = sector

def Owns (fs : Fs) (header sector : ℕ) : Prop :=
  sector = header ∨ fs.OwnsData header sector

lemma owns_header (fs : Fs) (header : ℕ) : fs.Owns header header := Or.inl rfl

lemma owns_congr (same : after.device.sectors header = fs.device.sectors header) (sec : ℕ) :
  after.Owns header sec ↔ fs.Owns header sec := by
  unfold Owns OwnsData diskAt
  rw [same]

def dropInode (fs : Fs) (address : ℕ) : Fs :=
  { fs with
    inodes := update fs.inodes address none
    openInodes := fs.openInodes.erase address }

def FileHeld (fs : Fs) : Prop :=
  ∃ file inode, fs.freeMapFile = some file ∧ fs.inodes file.inode = some inode ∧
    inode.sector = freeMapSector

end Fs

def Cached (fs : Fs) (inode : Inode) : Prop :=
  (inode.removed = false ∧ inode.data = fs.diskAt inode.sector.toNat) ∨
    (inode.removed = true ∧ inode.data = { fs.diskAt inode.sector.toNat with length := 0 })

/-- Live inodes, the free map and the in-memory inodes agree. The number of references that are
known to be held to an in-memory inode is at most its count of openers. -/
structure Owned (fs : Fs) (live : Set ℕ) (holds : ℕ → ℕ) : Prop where
  heap : fs.HeapOk
  bitCnt_eq : fs.freeMap.bitCnt = fs.device.size
  size_le : fs.device.size ≤ 2 ^ 32
  lt : ∀ header ∈ live, header < fs.device.size
  wellFormed : ∀ header ∈ live, (fs.diskAt header).WellFormed fs.device
  header_apart : ∀ header ∈ live, ¬ fs.OwnsData header header
  used : ∀ header ∈ live, ∀ sector, fs.Owns header sector → fs.Used sector
  disjoint : ∀ left ∈ live, ∀ right ∈ live, left ≠ right → ∀ sector,
    fs.Owns left sector → ¬ fs.Owns right sector
  mem_openInodes : ∀ address, address ∈ fs.openInodes ↔ fs.inodes address ≠ none
  nodup : fs.openInodes.Nodup
  lt_nextInode : ∀ address ∈ fs.openInodes, address < fs.nextInode
  live_of_open : ∀ address inode, fs.inodes address = some inode → inode.sector.toNat ∈ live
  cached : ∀ address inode, fs.inodes address = some inode → Cached fs inode
  writable : ∀ address inode, fs.inodes address = some inode → inode.denyWriteCnt = 0
  unique : ∀ left right one two, fs.inodes left = some one → fs.inodes right = some two →
    one.sector = two.sector → left = right
  held : ∀ address inode, fs.inodes address = some inode → (holds address : ℤ) ≤ inode.openCnt
  open_of_held : ∀ address, 0 < holds address → fs.inodes address ≠ none

namespace InodeDisk

lemma size_cleared (disk : InodeDisk) : ({ disk with length := 0 } : InodeDisk).size = 0 := by
  simp [size]

lemma blockCnt_cleared (disk : InodeDisk) :
  ({ disk with length := 0 } : InodeDisk).blockCnt = 0 := by
  rw [blockCnt, size_cleared]
  decide

lemma wellFormed_cleared (disk : InodeDisk) (dev : Block) :
  ({ disk with length := 0 } : InodeDisk).WellFormed dev where
  size_nonneg := by rw [size_cleared]
  size_le := by
    rw [size_cleared]
    decide
  sector_lt blk bound := by
    rw [blockCnt_cleared] at bound
    omega
  sector_inj left _ bound := by
    rw [blockCnt_cleared] at bound
    omega

end InodeDisk

namespace Owned

variable {addr : ℕ} {ino : Inode} {newHolds : ℕ → ℕ}

section

variable (owned : Owned fs live holds)
include owned

lemma wellFormed_open (isOpen : fs.inodes addr = some ino) : ino.data.WellFormed fs.device := by
  rcases owned.cached addr ino isOpen with ⟨_, same⟩ | ⟨_, same⟩
  · rw [same]
    exact owned.wellFormed _ (owned.live_of_open addr ino isOpen)
  rw [same]
  exact InodeDisk.wellFormed_cleared _ _

lemma ownsData_of_open {blk : ℕ} (isOpen : fs.inodes addr = some ino)
  (bound : blk < ino.data.blockCnt) :
  fs.OwnsData ino.sector.toNat (ino.data.dataSector blk) := by
  rcases owned.cached addr ino isOpen with ⟨_, same⟩ | ⟨_, same⟩
  · rw [same] at bound ⊢
    exact ⟨blk, bound, rfl⟩
  rw [same, InodeDisk.blockCnt_cleared] at bound
  omega

lemma ownsData_of_mapSector (fileHeld : fs.FileHeld) {sec : ℕ} (isMap : fs.MapSector sec) :
  fs.OwnsData 0 sec := by
  obtain ⟨file, ino, isFile, isOpen, isMapIno⟩ := fileHeld
  obtain ⟨other, record, blk, isOther, isRecord, bound, rfl⟩ := isMap
  rw [isFile] at isOther
  cases isOther
  rw [isOpen] at isRecord
  cases isRecord
  have data := owned.ownsData_of_open isOpen bound
  rwa [isMapIno] at data

lemma zero_live (fileHeld : fs.FileHeld) : 0 ∈ live := by
  obtain ⟨file, ino, _, isOpen, isMapIno⟩ := fileHeld
  have mem := owned.live_of_open _ _ isOpen
  rwa [isMapIno] at mem

lemma mapReady (fileHeld : fs.FileHeld) : fs.MapReady where
  heap := owned.heap
  bitCnt_eq := owned.bitCnt_eq
  size_le := owned.size_le
  file_open file isFile := by
    obtain ⟨other, ino, isOther, isOpen, _⟩ := fileHeld
    rw [isFile] at isOther
    cases isOther
    exact ⟨ino, isOpen, owned.writable _ _ isOpen, owned.wellFormed_open isOpen⟩
  file_used sec isMap :=
    owned.used 0 (owned.zero_live fileHeld) sec
      (Or.inr (owned.ownsData_of_mapSector fileHeld isMap))

lemma not_mapSector (fileHeld : fs.FileHeld) : ∀ header ∈ live, ¬ fs.MapSector header := by
  intro header isLive isMap
  have data := owned.ownsData_of_mapSector fileHeld isMap
  by_cases isZero : header = 0
  · subst isZero
    exact owned.header_apart 0 isLive data
  exact owned.disjoint 0 (owned.zero_live fileHeld) header isLive (Ne.symm isZero) header
    (Or.inr data) (fs.owns_header header)

lemma of_data {remaining : Set ℕ} (same : fs.OnlyData after) (subset : remaining ⊆ live)
  (headers : ∀ header ∈ remaining, after.device.sectors header = fs.device.sectors header)
  (used : ∀ header ∈ remaining, ∀ sec, fs.Owns header sec → after.Used sec)
  (copies : ∀ addr ino, fs.inodes addr = some ino → ino.sector.toNat ∈ remaining) :
  Owned after remaining holds := by
  have disk : ∀ header ∈ remaining, after.diskAt header = fs.diskAt header := by
    intro header isLive
    unfold Fs.diskAt
    rw [headers header isLive]
  have owns : ∀ header ∈ remaining, ∀ sec, after.Owns header sec ↔ fs.Owns header sec :=
    fun header isLive => Fs.owns_congr (headers header isLive)
  have wf : ∀ header ∈ remaining, (after.diskAt header).WellFormed after.device := by
    intro header isLive
    rw [disk header isLive]
    exact (owned.wellFormed header (subset isLive)).of_size_eq same.size_eq
  have apart : ∀ header ∈ remaining, ¬ after.OwnsData header header := by
    intro header isLive
    unfold Fs.OwnsData
    rw [disk header isLive]
    exact owned.header_apart header (subset isLive)
  have heap := same.heapOk owned.heap
  rcases owned with ⟨_, bitCnt_eq, size_le, lt, _, _, _, disjoint, mem_openInodes, nodup,
    lt_nextInode, _, cached, writable, unique, held, open_of_held⟩
  rcases same with ⟨sameSize, sameInodes, sameOpen, sameNext, _, sameBits, _, _⟩
  refine ⟨heap, by omega, by omega, by grind, wf, apart, by grind, by grind, ?_, by grind,
    by grind, ?_, ?_, ?_, ?_, ?_, ?_⟩ <;> rw [sameInodes] <;> grind [Cached]

section

variable (notMap : ∀ other ∈ live, ¬ fs.MapSector other) (leaked : Leaked fs after header)
  (foreign : header ∉ live)

include notMap leaked foreign

lemma headers_of_leaked :
  ∀ other ∈ live, after.device.sectors other = fs.device.sectors other := by
  intro other isLive
  refine leaked.sectors_eq other (owned.used other isLive other (fs.owns_header other))
    (notMap other isLive) ?_
  rintro rfl
  exact foreign isLive

lemma of_leaked : Owned after live holds := by
  refine owned.of_data leaked.onlyData subset_rfl
    (owned.headers_of_leaked notMap leaked foreign) ?_ owned.live_of_open
  intro other isLive sec isOwned
  exact leaked.used sec (owned.used other isLive sec isOwned)

end

lemma of_table {table : ℕ → Option Inode} {list : List ℕ} {next : ℕ}
  (mem_list : ∀ addr, addr ∈ list ↔ table addr ≠ none) (nodup : list.Nodup)
  (lt_next : ∀ addr ∈ list, addr < next)
  (live_of_open : ∀ addr ino, table addr = some ino → ino.sector.toNat ∈ live)
  (cached : ∀ addr ino, table addr = some ino → Cached fs ino)
  (writable : ∀ addr ino, table addr = some ino → ino.denyWriteCnt = 0)
  (unique : ∀ left right one two, table left = some one → table right = some two →
    one.sector = two.sector → left = right)
  (held : ∀ addr ino, table addr = some ino → (newHolds addr : ℤ) ≤ ino.openCnt)
  (open_of_held : ∀ addr, 0 < newHolds addr → table addr ≠ none) :
  Owned { fs with inodes := table, openInodes := list, nextInode := next } live newHolds :=
  { owned with
    mem_openInodes := mem_list
    nodup := nodup
    lt_nextInode := lt_next
    live_of_open := live_of_open
    cached := cached
    writable := writable
    unique := unique
    held := held
    open_of_held := open_of_held }

lemma mono {fewer : ℕ → ℕ} (le : ∀ addr, fewer addr ≤ holds addr) : Owned fs live fewer :=
  { owned with
    held := fun addr ino isOpen => by
      have := owned.held addr ino isOpen
      have := le addr
      omega
    open_of_held := fun addr pos =>
      owned.open_of_held addr (Nat.lt_of_lt_of_le pos (le addr)) }

lemma setInode {changed : Inode} (isOpen : fs.inodes addr = some ino)
  (sec : changed.sector = ino.sector) (cached : Cached fs changed)
  (writable : changed.denyWriteCnt = 0) (held : (newHolds addr : ℤ) ≤ changed.openCnt)
  (others : ∀ other, other ≠ addr → newHolds other ≤ holds other) :
  Owned (fs.setInode addr changed) live newHolds := by
  rcases id owned with ⟨_, _, _, _, _, _, _, _, mem_openInodes, nodup, lt_nextInode, live_of_open,
    cachedBefore, writableBefore, unique, heldBefore, open_of_held⟩
  refine owned.of_table ?_ nodup lt_nextInode ?_ ?_ ?_ ?_ ?_ ?_ <;> grind [update_apply]

lemma pushInode (ino : Inode) (isLive : ino.sector.toNat ∈ live) (cached : Cached fs ino)
  (writable : ino.denyWriteCnt = 0) (opened : ino.openCnt = 1)
  (absent : ∀ addr record, fs.inodes addr = some record → record.sector ≠ ino.sector) :
  Owned (fs.pushInode ino) live (update holds fs.nextInode (holds fs.nextInode + 1)) := by
  rcases id owned with ⟨_, _, _, _, _, _, _, _, mem_openInodes, nodup, lt_nextInode, live_of_open,
    cachedBefore, writableBefore, unique, held, open_of_held⟩
  refine owned.of_table ?_ ?_ ?_ ?_ ?_ ?_ ?_ ?_ ?_ <;> grind [update_apply]

lemma dropInode : Owned (fs.dropInode addr) live (update holds addr 0) := by
  rcases id owned with ⟨_, _, _, _, _, _, _, _, mem_openInodes, nodup, lt_nextInode, live_of_open,
    cached, writable, unique, held, open_of_held⟩
  refine owned.of_table ?_ (nodup.erase addr) ?_ ?_ ?_ ?_ ?_ ?_ ?_ <;>
    grind [update_apply, List.Nodup.mem_erase_iff]

end

end Owned

lemma Fs.FileHeld.of_onlyData (fileHeld : fs.FileHeld) (same : fs.OnlyData after) :
  after.FileHeld := by
  unfold Fs.FileHeld
  rw [same.freeMapFile_eq, same.inodes_eq]
  exact fileHeld

end Pintos
