import Pintos.Filesys.Ownership

/-!
# Operations on inodes keep ownership

Each operation on inodes that returns keeps `Owned`: creating an inode adds a
live inode, the last close of a removed inode takes one away, and all others
leave the set of live inodes as it is.
-/

namespace Pintos

open Pintos.Computation Function

variable {fs after : Fs} {live : Set ℕ} {holds : ℕ → ℕ} {fuel len : ℕ} {val : Unit}
  {final : InodeDisk}

def hold (holds : ℕ → ℕ) (address : ℕ) : ℕ → ℕ :=
  update holds address (holds address + 1)

def unhold (holds : ℕ → ℕ) (address : ℕ) : ℕ → ℕ :=
  update holds address (holds address - 1)

lemma hold_comm (holds : ℕ → ℕ) (left right : ℕ) :
  hold (hold holds left) right = hold (hold holds right) left := by
  funext other
  simp only [hold]
  grind

lemma unhold_hold {addr : ℕ} (pos : 0 < holds addr) (other : ℕ) :
  unhold (hold holds other) addr = hold (unhold holds addr) other := by
  funext place
  simp only [hold, unhold]
  grind

lemma Cached.congr {ino changed : Inode} (cached : Cached fs ino)
  (sec : changed.sector = ino.sector) (removed : changed.removed = ino.removed)
  (data : changed.data = ino.data) : Cached fs changed := by
  unfold Cached at *
  rw [sec, removed, data]
  exact cached

section Created

variable {hdr : ℕ}

lemma Created.diskAt_eq {disk : InodeDisk} {first last : ℕ}
  (created : Created fs after hdr disk final first last) : after.diskAt hdr = final := by
  unfold Fs.diskAt
  rw [created.header_eq, InodeDisk.decode_encode]

section

variable (created : Created fs after hdr (newInodeDisk len) final 0 ((len + 511) / 512))
include created

lemma Created.size_eq (direct : len ≤ 123 * 512) : final.size = len := by
  unfold InodeDisk.size
  rw [created.length_eq]
  simp only [newInodeDisk, BitVec.toInt_ofInt, Int.bmod]
  omega

lemma Created.blockCnt_eq (direct : len ≤ 123 * 512) : final.blockCnt = (len + 511) / 512 := by
  rw [InodeDisk.blockCnt, created.size_eq direct, bytesToSectors_natCast]

end

end Created

def Fs.Keeps (fs after : Fs) : Prop :=
  ∀ address inode, fs.inodes address = some inode →
    ∃ changed, after.inodes address = some changed ∧ changed.sector = inode.sector ∧
      changed.removed = inode.removed ∧ changed.data = inode.data

instance : IsPreorder Fs Fs.Keeps where
  refl _ _ inode isOpen := ⟨inode, isOpen, rfl, rfl, rfl⟩
  trans _ _ _ first second address inode isOpen := by
    obtain ⟨middle, isMiddle, sector, removed, data⟩ := first address inode isOpen
    obtain ⟨last, isLast, lastSector, lastRemoved, lastData⟩ := second address middle isMiddle
    exact ⟨last, isLast, lastSector.trans sector, lastRemoved.trans removed,
      lastData.trans data⟩

lemma Fs.OnlyData.keeps (same : fs.OnlyData after) : fs.Keeps after := by
  unfold Fs.Keeps
  rw [same.inodes_eq]
  exact fun _ ino isOpen => ⟨ino, isOpen, rfl, rfl, rfl⟩

lemma Fs.keeps_setInode {addr : ℕ} {ino changed : Inode}
  (isOpen : fs.inodes addr = some ino) (sec : changed.sector = ino.sector)
  (removed : changed.removed = ino.removed) (data : changed.data = ino.data) :
  fs.Keeps (fs.setInode addr changed) := by
  intro other record isRecord
  by_cases same : other = addr
  · subst same
    cases isOpen.symm.trans isRecord
    exact ⟨changed, update_self _ _ _, sec, removed, data⟩
  · exact ⟨record, (update_of_ne same _ _).trans isRecord, rfl, rfl, rfl⟩

lemma Fs.FileHeld.setInode {addr : ℕ} {ino changed : Inode} (fileHeld : fs.FileHeld)
  (isOpen : fs.inodes addr = some ino) (sec : changed.sector = ino.sector) :
  (fs.setInode addr changed).FileHeld := by
  rcases fileHeld with ⟨file, record, isFile, isRecord, isMap⟩
  exact ⟨file, if file.inode = addr then changed else record, isFile, by grind, by grind⟩

lemma Fs.FileHeld.of_keeps (fileHeld : fs.FileHeld) (keeps : fs.Keeps after)
  (sameFile : after.freeMapFile = fs.freeMapFile) : after.FileHeld := by
  obtain ⟨file, record, isFile, isRecord, isMap⟩ := fileHeld
  obtain ⟨changed, isChanged, sec, _⟩ := keeps _ _ isRecord
  exact ⟨file, changed, sameFile.trans isFile, isChanged, sec.trans isMap⟩

namespace Owned

variable {addr : ℕ} {ino : Inode}

lemma count_up (owned : Owned fs live holds) (isOpen : fs.inodes addr = some ino) :
  Owned (fs.setInode addr { ino with openCnt := ino.openCnt + 1 }) live
    (hold holds addr) := by
  have heldNow := owned.held addr ino isOpen
  refine owned.setInode isOpen rfl ((owned.cached addr ino isOpen).congr rfl rfl rfl)
    (owned.writable addr ino isOpen) ?_ ?_
  · simp only [hold, update_self]
    omega
  intro other ne
  rw [hold, update_of_ne ne]

variable {num : Word}

section

variable (owned : Owned fs live holds)
include owned

lemma of_inodeOpen {res : Option ℕ} (isLive : num.toNat ∈ live)
  (ran : inodeOpen num fs = .ok (res, after)) :
  ∃ addr, res = some addr ∧ Owned after live (hold holds addr) ∧
    fs.Keeps after ∧ after.device = fs.device ∧ after.freeMap = fs.freeMap ∧
    after.freeMapFile = fs.freeMapFile ∧
    ∃ ino, after.inodes addr = some ino ∧ ino.sector = num := by
  cases found : fs.findInode num with
  | some addr =>
    obtain ⟨_, ino, isOpen, sec⟩ := Fs.findInode_eq_some found
    rw [inodeOpen_shared found isOpen] at ran
    cases ran
    exact ⟨addr, rfl, owned.count_up isOpen, Fs.keeps_setInode isOpen rfl rfl rfl,
      rfl, rfl, rfl, _, update_self _ _ _, sec⟩
  | none =>
    rw [inodeOpen_fresh owned.heap found (owned.lt _ isLive)] at ran
    cases ran
    have absent : ∀ addr record, fs.inodes addr = some record →
        record.sector ≠ num := by
      intro addr record isRecord
      exact Fs.findInode_eq_none found
        ((owned.mem_openInodes addr).mpr (by simp [isRecord])) isRecord
    have pushed := owned.pushInode (openedInode num (fs.device.sectors num.toNat)) isLive
      (Or.inl ⟨rfl, rfl⟩) rfl rfl absent
    refine ⟨fs.nextInode, rfl, pushed, ?_, rfl, rfl, rfl, _, update_self _ _ _, rfl⟩
    intro other record isRecord
    have mem := (owned.mem_openInodes other).mpr (by simp [isRecord])
    have ne : other ≠ fs.nextInode := Nat.ne_of_lt (owned.lt_nextInode _ mem)
    exact ⟨record, (update_of_ne ne _ _).trans isRecord, rfl, rfl, rfl⟩

lemma of_inodeReopen {res : ℕ} (ran : inodeReopen addr fs = .ok (res, after)) :
  Owned after live (hold holds addr) ∧ (fs.FileHeld → after.FileHeld) ∧
    after.freeMapFile = fs.freeMapFile := by
  obtain ⟨ino, mid, deref, rest⟩ := bind_eq_ok ran
  obtain ⟨isOpen, rfl⟩ := derefInode_eq_ok deref
  cases rest
  exact ⟨owned.count_up isOpen, fun fileHeld => fileHeld.setInode isOpen rfl, rfl⟩

lemma of_inodeRemove (ran : inodeRemove addr fs = .ok (val, after)) :
  Owned after live holds ∧ (fs.FileHeld → after.FileHeld) ∧
    after.freeMapFile = fs.freeMapFile := by
  obtain ⟨ino, mid, deref, rest⟩ := bind_eq_ok ran
  obtain ⟨isOpen, rfl⟩ := derefInode_eq_ok deref
  cases rest
  refine ⟨owned.setInode isOpen rfl (Or.inr ⟨rfl, ?_⟩) (owned.writable addr ino isOpen)
    (owned.held addr ino isOpen) (fun _ _ => le_rfl),
    fun fileHeld => fileHeld.setInode isOpen rfl, rfl⟩
  rcases owned.cached addr ino isOpen with ⟨_, same⟩ | ⟨_, same⟩
  · rw [same]
  · rw [same]

lemma of_inodeWriteAt {size ofs : ℕ} {buf : ℕ → Byte} {val : ℤ}
  (isOpen : fs.inodes addr = some ino)
  (ran : inodeWriteAt fuel addr buf size ofs fs = .ok (val, after)) :
  Owned after live holds ∧ fs.OnlyData after ∧ after.freeMap = fs.freeMap ∧
    Overwritten ino.data fs.device after.device ofs size buf ∧
    (size = 0 ∨ ofs + size ≤ ino.data.len) ∧
    ∀ sec, ¬ fs.OwnsData ino.sector.toNat sec →
      after.device.sectors sec = fs.device.sectors sec := by
  have onlyData := inodeWriteAt_onlyData fuel addr buf size ofs ran
  obtain ⟨_, inside, dev, overwritten, rfl⟩ := inodeWriteAtWith_eq_ok
    (freeMapAllocate_onlyData fuel) owned.heap isOpen (owned.writable addr ino isOpen)
    (owned.wellFormed_open isOpen) ran
  have isLive := owned.live_of_open addr ino isOpen
  have others : ∀ sec, ¬ fs.OwnsData ino.sector.toNat sec →
      dev.sectors sec = fs.device.sectors sec := by
    intro sec notOwned
    apply overwritten.sectors_eq
    rintro blk bound rfl
    exact notOwned (owned.ownsData_of_open isOpen bound)
  refine ⟨owned.of_data onlyData subset_rfl ?_ owned.used owned.live_of_open, onlyData, rfl,
    overwritten, inside, others⟩
  intro hdr hdrLive
  apply others
  intro data
  by_cases same : hdr = ino.sector.toNat
  · subst same
    exact owned.header_apart _ hdrLive data
  · exact owned.disjoint _ hdrLive _ isLive same hdr (fs.owns_header hdr) (Or.inr data)

lemma of_created {hdr : ℕ} (notMap : ∀ other ∈ live, ¬ fs.MapSector other) (new : NewHeader fs hdr)
  (foreign : ∀ other ∈ live, ¬ fs.Owns other hdr)
  (created : Created fs after hdr (newInodeDisk len) final 0 ((len + 511) / 512))
  (direct : len ≤ 123 * 512) : Owned after (insert hdr live) holds := by
  have leaked := Leaked.of_created created
  have notLive : hdr ∉ live := fun isLive => foreign hdr isLive (fs.owns_header hdr)
  have kept := owned.of_leaked notMap leaked notLive
  have headers := owned.headers_of_leaked notMap leaked notLive
  have disk := created.diskAt_eq
  have size := created.size_eq direct
  have blks := created.blockCnt_eq direct
  have fresh : ∀ blk, blk < final.blockCnt → ¬ fs.Used (final.dataSector blk) :=
    fun blk bound => created.fresh blk (Nat.zero_le _) (by omega)
  have apart : ∀ other ∈ live, ∀ sec, after.Owns hdr sec →
      ¬ after.Owns other sec := by
    intro other isLive sec isOwned otherOwns
    rw [Fs.owns_congr (headers other isLive)] at otherOwns
    rcases isOwned with rfl | ⟨blk, bound, rfl⟩
    · exact foreign other isLive otherOwns
    rw [disk] at bound otherOwns
    exact fresh blk bound (owned.used other isLive _ otherOwns)
  refine
    { kept with
      lt := ?_
      wellFormed := ?_
      header_apart := ?_
      used := ?_
      disjoint := ?_
      live_of_open := fun addr ino isOpen =>
        Or.inr (kept.live_of_open addr ino isOpen) }
  · rintro other (rfl | isLive)
    · rw [leaked.onlyData.size_eq, ← owned.bitCnt_eq]
      exact new.lt
    · exact kept.lt other isLive
  · rintro other (rfl | isLive)
    · rw [disk]
      refine ⟨⟨by omega, by omega, ?_⟩, ?_⟩
      · intro blk bound
        have lt := created.lt blk (Nat.zero_le _) (by omega)
        rwa [owned.bitCnt_eq, ← leaked.onlyData.size_eq] at lt
      intro left right leftLt rightLt
      exact created.inj left right (Nat.zero_le _) (by omega) (Nat.zero_le _) (by omega)
    · exact kept.wellFormed other isLive
  · rintro other (rfl | isLive)
    · rintro ⟨blk, bound, same⟩
      rw [disk] at bound same
      refine fresh blk bound ?_
      rw [same]
      exact new.used
    · exact kept.header_apart other isLive
  · rintro other (rfl | isLive) sec isOwned
    · rw [created.used_iff]
      rcases isOwned with rfl | ⟨blk, bound, same⟩
      · exact Or.inl new.used
      rw [disk] at bound same
      exact Or.inr ⟨blk, Nat.zero_le _, by omega, same⟩
    · exact kept.used other isLive sec isOwned
  have disjoint := kept.disjoint
  grind

lemma of_freeMapAllocate (fileHeld : fs.FileHeld)
  (alloc : freeMapAllocate fuel 1 fs = .ok (some num, after)) :
  Owned after live holds ∧ after.FileHeld ∧ Leaked fs after num.toNat ∧
    NewHeader after num.toNat ∧ (∀ other ∈ live, ¬ fs.Owns other num.toNat) ∧
    ∀ other ∈ live, ¬ after.Owns other num.toNat := by
  have ready := owned.mapReady fileHeld
  have notMap := owned.not_mapSector fileHeld
  have marked := freeMapAllocate_allocated ready alloc
  have foreign : ∀ other ∈ live, ¬ fs.Owns other num.toNat := fun other isLive isOwned =>
    marked.free (owned.used other isLive _ isOwned)
  have notLive : num.toNat ∉ live := fun isLive => foreign _ isLive (fs.owns_header _)
  have leaked := Leaked.of_allocated marked num.toNat
  refine ⟨owned.of_leaked notMap leaked notLive, fileHeld.of_onlyData marked.onlyData, leaked,
    marked.newHeader ready, foreign, ?_⟩
  intro other isLive
  rw [Fs.owns_congr (owned.headers_of_leaked notMap leaked notLive other isLive)]
  exact foreign other isLive

lemma of_inodeCreate {mid : Fs} {res : Bool} (fileHeld : fs.FileHeld) (direct : len ≤ 123 * 512)
  (alloc : freeMapAllocate fuel 1 fs = .ok (some num, mid))
  (created : inodeCreate fuel num len mid = .ok (res, after)) :
  Owned after (if res then insert num.toNat live else live) holds ∧ after.FileHeld := by
  rcases owned.of_freeMapAllocate fileHeld alloc with
    ⟨kept, keptFile, _, new, _, foreign⟩
  have notMap := kept.not_mapSector keptFile
  rcases inodeCreate_eq_ok (kept.mapReady keptFile) new direct created with
    ⟨rfl, final, whole⟩ | ⟨rfl, failed⟩
  · exact ⟨kept.of_created notMap new foreign whole direct, keptFile.of_onlyData whole.onlyData⟩
  refine ⟨kept.of_leaked notMap failed ?_, keptFile.of_onlyData failed.onlyData⟩
  exact fun isLive => foreign _ isLive (mid.owns_header _)

end

end Owned

def Fs.closing (fs : Fs) (address : ℕ) (inode : Inode) : Fs :=
  { fs.setInode address { inode with openCnt := inode.openCnt - 1 } with
    openInodes := fs.openInodes.erase address }

lemma inodeClose_eq_ok {fuel addr : ℕ} {val : Unit}
  (ran : inodeClose fuel addr fs = .ok (val, after)) :
  ∃ ino, fs.inodes addr = some ino ∧
    ((ino.openCnt ≠ 1 ∧
        after = fs.setInode addr { ino with openCnt := ino.openCnt - 1 }) ∨
      (ino.openCnt = 1 ∧ ino.removed = false ∧ after = fs.dropInode addr) ∨
      (ino.openCnt = 1 ∧ ino.removed = true ∧ ∃ mid last,
        freeMapRelease fuel ino.sector 1 (fs.closing addr ino) = .ok ((), mid) ∧
        freeMapRelease fuel ino.data.start (bytesToSectors ino.data.size) mid =
          .ok ((), last) ∧
        after = { last with inodes := update last.inodes addr none })) := by
  obtain ⟨ino, mid, deref, rest⟩ := bind_eq_ok ran
  obtain ⟨isOpen, rfl⟩ := derefInode_eq_ok deref
  refine ⟨ino, isOpen, ?_⟩
  rw [updates_bind_apply] at rest
  split at rest
  · next isLast =>
      right
      have one : ino.openCnt = 1 := by omega
      rw [updates_bind_apply] at rest
      split at rest
      · next removed =>
          obtain ⟨_, first, releaseHdr, rest⟩ := bind_eq_ok rest
          obtain ⟨_, last, releaseData, rest⟩ := bind_eq_ok rest
          cases rest
          exact Or.inr ⟨one, removed, first, last, releaseHdr, releaseData, rfl⟩
      next kept =>
        cases rest
        refine Or.inl ⟨one, by simpa using kept, ?_⟩
        simp [Fs.dropInode, Fs.setInode]
  next others =>
    cases rest
    exact Or.inl ⟨by omega, rfl⟩

namespace Owned

variable {addr : ℕ} {ino : Inode}

section

variable (owned : Owned fs live holds)
include owned

lemma count_down (isOpen : fs.inodes addr = some ino) (pos : 0 < holds addr) :
  Owned (fs.setInode addr { ino with openCnt := ino.openCnt - 1 }) live
    (unhold holds addr) := by
  have heldNow := owned.held addr ino isOpen
  refine owned.setInode isOpen rfl ((owned.cached addr ino isOpen).congr rfl rfl rfl)
    (owned.writable addr ino isOpen) ?_ ?_
  · simp only [unhold, update_self]
    omega
  intro other ne
  rw [unhold, update_of_ne ne]

lemma drop_last (isOpen : fs.inodes addr = some ino) (isLast : ino.openCnt = 1) :
  Owned (fs.dropInode addr) live (unhold holds addr) := by
  have heldNow := owned.held addr ino isOpen
  have none : holds addr - 1 = 0 := by omega
  rw [unhold, none]
  exact owned.dropInode

lemma release_last {mid last : Fs} (fileHeld : fs.FileHeld) (isOpen : fs.inodes addr = some ino)
  (isLast : ino.openCnt = 1) (foreign : ∀ file, fs.freeMapFile = some file → file.inode ≠ addr)
  (removed : ino.removed = true)
  (releaseHdr : freeMapRelease fuel ino.sector 1 (fs.closing addr ino) =
    .ok ((), mid))
  (releaseData : freeMapRelease fuel ino.data.start (bytesToSectors ino.data.size) mid =
    .ok ((), last)) : Owned { last with inodes := update last.inodes addr none }
    (live \ {ino.sector.toNat}) (unhold holds addr) := by
  have isLive := owned.live_of_open addr ino isOpen
  obtain ⟨file, record, isFile, isRecord, isMap⟩ := fileHeld
  have empty : bytesToSectors ino.data.size = 0 := by
    rcases owned.cached addr ino isOpen with ⟨kept, _⟩ | ⟨_, same⟩
    · rw [kept] at removed
      cases removed
    rw [same, InodeDisk.size_cleared]
    decide
  have kept : ∀ other, fs.freeMapFile = some other →
      (fs.closing addr ino).inodes other.inode = fs.inodes other.inode :=
    fun other isOther => update_of_ne (foreign other isOther) _ _
  have sameFile : (fs.closing addr ino).freeMapFile = fs.freeMapFile := rfl
  have mapSec : ∀ sec, (fs.closing addr ino).MapSector sec ↔
      fs.MapSector sec := by
    grind [Fs.MapSector]
  have fileHeld : fs.FileHeld := ⟨file, record, isFile, isRecord, isMap⟩
  have ready := owned.mapReady fileHeld
  have closingReady : (fs.closing addr ino).MapReady :=
    { heap := ready.heap
      bitCnt_eq := ready.bitCnt_eq
      size_le := ready.size_le
      file_open := fun other isOther => by
        obtain ⟨entry, isEntry, facts⟩ := ready.file_open other isOther
        exact ⟨entry, (kept other isOther).trans isEntry, facts⟩
      file_used := fun sec isMapSec =>
        ready.file_used sec ((mapSec sec).mp isMapSec) }
  have hdrApart : ∀ other, (fs.closing addr ino).MapSector other →
      ¬(ino.sector.toNat ≤ other ∧ other < ino.sector.toNat + 1) := by
    rintro other isMapSec ⟨lower, upper⟩
    have same : other = ino.sector.toNat := by omega
    subst same
    exact owned.not_mapSector fileHeld _ isLive ((mapSec _).mp isMapSec)
  have first := freeMapRelease_released closingReady hdrApart releaseHdr
  have midReady : mid.MapReady := closingReady.of_onlyData first.onlyData
    fun sec isMapSec => (first.used_iff sec).mpr
      ⟨hdrApart sec isMapSec, closingReady.file_used sec isMapSec⟩
  have second := freeMapRelease_released midReady (by omega) releaseData
  have released : ∀ sec, last.Used sec ↔ sec ≠ ino.sector.toNat ∧ fs.Used sec := by
    intro sec
    have same : (fs.closing addr ino).Used sec ↔ fs.Used sec := Iff.rfl
    rw [second.used_iff, first.used_iff]
    grind
  have onlyData := IsTrans.trans _ _ _ first.onlyData second.onlyData
  have dropped : (fs.dropInode addr).OnlyData
      { last with inodes := update last.inodes addr none } := by
    refine ⟨onlyData.size_eq, ?_, onlyData.openInodes_eq, onlyData.nextInode_eq,
      onlyData.freeMapFile_eq, onlyData.bitCnt_eq, onlyData.i_eq, onlyData.heapOk⟩
    rw [onlyData.inodes_eq]
    exact update_idem _ _ _
  refine (owned.drop_last isOpen isLast).of_data dropped Set.sdiff_subset ?_ ?_ ?_
  · rintro hdr ⟨hdrLive, _⟩
    have notMap := owned.not_mapSector fileHeld hdr hdrLive
    rw [second.sectors_eq hdr, first.sectors_eq hdr]
    · rfl
    · rwa [mapSec]
    · rwa [first.onlyData.mapSector_iff, mapSec]
  · rintro hdr ⟨hdrLive, notHdr⟩ sec isOwned
    refine (released sec).mpr ⟨?_, owned.used hdr hdrLive sec isOwned⟩
    rintro rfl
    exact owned.disjoint hdr hdrLive _ isLive notHdr _ isOwned (fs.owns_header _)
  intro other entry isEntry
  rcases update_eq_some isEntry with ⟨_, impossible⟩ | ⟨otherDiffers, isEntry⟩
  · cases impossible
  refine ⟨owned.live_of_open other entry isEntry, ?_⟩
  intro same
  exact otherDiffers (owned.unique other addr entry ino isEntry isOpen
    (BitVec.eq_of_toNat_eq same))

lemma of_inodeClose (fileHeld : fs.FileHeld) (isOpen : fs.inodes addr = some ino)
  (pos : 0 < holds addr)
  (spare : ∀ file, fs.freeMapFile = some file → file.inode = addr → 1 < holds addr)
  (ran : inodeClose fuel addr fs = .ok (val, after)) :
  Owned after (if ino.openCnt = 1 ∧ ino.removed = true then live \ {ino.sector.toNat}
      else live) (unhold holds addr) ∧ after.FileHeld ∧
    after.freeMapFile = fs.freeMapFile := by
  have heldNow := owned.held addr ino isOpen
  obtain ⟨record, isRecord, cases⟩ := inodeClose_eq_ok ran
  rw [isOpen] at isRecord
  cases isRecord
  rcases cases with ⟨others, rfl⟩ | ⟨isLast, kept, rfl⟩ |
    ⟨isLast, removed, mid, last, releaseHdr, releaseData, rfl⟩
  · rw [if_neg (by omega)]
    exact ⟨owned.count_down isOpen pos, fileHeld.setInode isOpen rfl, rfl⟩
  · rw [if_neg (by simp [kept])]
    refine ⟨owned.drop_last isOpen isLast, ?_, rfl⟩
    obtain ⟨file, record, isFile, isRecord, isMap⟩ := fileHeld
    have ne : file.inode ≠ addr := fun same => by
      have := spare file isFile same
      omega
    exact ⟨file, record, isFile, (update_of_ne ne _ _).trans isRecord, isMap⟩
  have foreign : ∀ file, fs.freeMapFile = some file → file.inode ≠ addr :=
    fun file isFile same => by
      have := spare file isFile same
      omega
  rw [if_pos ⟨isLast, removed⟩]
  have onlyData := IsTrans.trans _ _ _ (freeMapRelease_onlyData _ _ _ releaseHdr)
    (freeMapRelease_onlyData _ _ _ releaseData)
  refine ⟨owned.release_last fileHeld isOpen isLast foreign removed releaseHdr releaseData,
    ?_, onlyData.freeMapFile_eq⟩
  obtain ⟨file, record, isFile, isRecord, isMap⟩ := fileHeld
  have ne := foreign file isFile
  refine ⟨file, record, onlyData.freeMapFile_eq.trans isFile, ?_, isMap⟩
  change update last.inodes addr none file.inode = some record
  rw [update_of_ne ne, onlyData.inodes_eq]
  exact (update_of_ne ne _ _).trans isRecord

end

end Owned

end Pintos
