import Pintos.Filesys.RootDirectory

/-!
# Installing a file

A file is installed by `filesys_create`, `filesys_open`, `file_write` and `file_close`. One
of the first two files ends up in the root directory, as long as it fits in the direct
sectors of its inode.
-/

namespace Pintos

open Pintos.Computation

variable {fs after : Fs} {live : Set ℕ} {holds : ℕ → ℕ} {addr fuel hdr : ℕ}
  {entries : List (List Byte × Word)} {num : Word} {name : List Byte}

structure ValidName (name : List Byte) : Prop where
  notEmpty : name ≠ []
  short : name.length ≤ nameMax
  noNul : 0 ∉ name
  noSlash : slash ∉ name

lemma ValidName.head_ne (valid : ValidName name) : name.head? ≠ some slash := fun isHead =>
  valid.noSlash (List.mem_of_mem_head? isHead)

namespace Orderly

variable {len : ℕ}

section NewInode

variable {mid : Fs} {sec : ℕ}

section

variable (orderly : Orderly fs live holds addr entries)
include orderly

lemma allocate_returns (room : 0 < fs.freeSectors.card) :
  ∃ num after, (∀ fuel, byteCnt fs.freeMap.bitCnt < fuel →
      freeMapAllocate fuel 1 fs = .ok (some num, after)) ∧
    Allocated fs after num.toNat := by
  rcases Finset.card_pos.mp room with ⟨free, mem⟩
  rw [Fs.mem_freeSectors] at mem
  rcases freeMapAllocate_returns orderly.mapReady orderly.mapFits mem.1 mem.2 with
    ⟨num, after, allocates⟩
  exact ⟨num, after, allocates,
    freeMapAllocate_allocated orderly.mapReady (allocates _ (Nat.lt_succ_self _))⟩

lemma filesysCreateInode_long {dir : Dir} {fuel len : ℕ} {res : Option (Dir × Word)}
  (long : 123 * 512 < len) (room : 127 ≤ fs.freeSectors.card)
  (enough : byteCnt fs.freeMap.bitCnt < fuel) :
  filesysCreateInode fuel (some dir) len fs ≠ .ok (res, after) := by
  intro ran
  rcases orderly.allocate_returns (by omega) with ⟨num, mid, allocates, alloc⟩
  have card := alloc.card
  have creating := (bind_of_ok (allocates fuel enough)).symm.trans ran
  rcases bind_eq_ok creating with ⟨created, last, create, _⟩
  exact inodeCreate_long (alloc.mapReady orderly.mapReady) (alloc.newHeader orderly.mapReady) long
    (by omega) fuel created create

lemma same_of_created {final : InodeDisk} (alloc : Allocated fs mid hdr)
  (created : Created mid after hdr (newInodeDisk len) final 0 ((len + 511) / 512)) {other : ℕ}
  (isLive : other ∈ live) (isOwned : fs.Owns other sec) (notMap : ¬ fs.MapSector sec) :
  after.device.sectors sec = fs.device.sectors sec := by
  have isUsed := orderly.owned.used other isLive sec isOwned
  have usedMid := (alloc.used_iff sec).mpr (Or.inr isUsed)
  rw [created.sectors_eq sec, alloc.sectors_eq sec notMap]
  · rwa [alloc.onlyData.mapSector_iff]
  · rintro rfl
    exact alloc.free isUsed
  rintro blk lower upper rfl
  exact created.fresh blk lower upper usedMid

lemma filesysCreateInode_returns (dir : Dir) (direct : len ≤ 123 * 512)
  (room : 1 + (len + 511) / 512 ≤ fs.freeSectors.card) :
  ∃ num after, (∀ fuel, byteCnt fs.freeMap.bitCnt < fuel →
      filesysCreateInode fuel (some dir) len fs = .ok (some (dir, num), after)) ∧
    Orderly after (insert num.toNat live) holds addr entries ∧ num.toNat ∉ live ∧
    fs.OnlyData after ∧ (after.diskAt num.toNat).len = len ∧
    (∀ hdr ∈ live, hdr ≠ 0 → fs.SameInode after hdr) ∧
    fs.freeSectors.card ≤ after.freeSectors.card + (1 + (len + 511) / 512) := by
  rcases orderly.allocate_returns (by omega) with ⟨num, mid, allocates, alloc⟩
  have card := alloc.card
  have readyMid := alloc.mapReady orderly.mapReady
  have new := alloc.newHeader orderly.mapReady
  have fits := alloc.onlyData.mapFits orderly.mapFits
  rcases inodeCreate_returns readyMid fits new direct (by omega) with ⟨after, creates⟩
  rcases inodeCreate_eq_ok readyMid new direct (creates _ (Nat.lt_succ_self _)) with
    ⟨_, final, created⟩ | ⟨impossible, _⟩
  · have notLive : num.toNat ∉ live := fun isLive =>
      alloc.free (orderly.owned.used _ isLive _ (fs.owns_header _))
    have onlyData := IsTrans.trans _ _ _ alloc.onlyData created.onlyData
    have same : ∀ hdr ∈ live, hdr ≠ 0 → fs.SameInode after hdr :=
      fun hdr isLive notMap sec isOwned => orderly.same_of_created alloc created isLive
        isOwned (orderly.owned.mapSector_apart orderly.fileHeld isLive notMap isOwned)
    have zeroLive := orderly.owned.zero_live orderly.fileHeld
    have enough := Nat.lt_succ_self (max (byteCnt fs.freeMap.bitCnt) (byteCnt mid.freeMap.bitCnt))
    rcases orderly.owned.of_inodeCreate orderly.fileHeld direct
      (allocates _ (Nat.lt_of_le_of_lt (le_max_left _ _) enough))
      (creates _ (Nat.lt_of_le_of_lt (le_max_right _ _) enough)) with ⟨owned, _⟩
    refine ⟨num, after, ?_, ?_, notLive, onlyData, ?_, same, ?_⟩
    · intro fuel fuelLt
      refine (bind_of_ok (allocates fuel fuelLt)).trans ?_
      exact bind_of_ok (creates fuel (by rw [alloc.onlyData.bitCnt_eq]; exact fuelLt))
    · exact orderly.of_same owned (orderly.intact.of_keeps onlyData.keeps onlyData.freeMapFile_eq)
        (onlyData.steady.noneRemoved orderly.noneRemoved) onlyData.bitCnt_eq (Set.subset_insert _ _)
        (orderly.same_of_created alloc created zeroLive (fs.owns_header 0)
          (orderly.owned.not_mapSector orderly.fileHeld 0 zeroLive))
        (same 1 orderly.root_live (by decide))
    · rw [created.diskAt_eq, InodeDisk.len, created.size_eq direct, Int.toNat_natCast]
    have cardCreated := created.card_le
    omega
  · cases impossible

end

end NewInode

section

variable (orderly : Orderly fs live holds addr entries)
include orderly

lemma with_i (i : ℕ) : Orderly { fs with i := i } live holds addr entries where
  owned := { orderly.owned with }
  intact := ⟨orderly.intact.file, orderly.intact.inode⟩
  map_le := orderly.map_le
  noneRemoved := orderly.noneRemoved
  root_live := orderly.root_live
  root_len := orderly.root_len
  lists := orderly.lists
  named := orderly.named

lemma filesysCreate_returns (currentDir : Option Dir) (early : fs.i ≤ 1) (valid : ValidName name)
  (isNew : name ∉ entries.map Prod.fst) (slots : entries.length < 16) (direct : len ≤ 123 * 512)
  (room : 1 + (len + 511) / 512 ≤ fs.freeSectors.card) :
  ∃ num after, (∀ fuel, byteCnt fs.freeMap.bitCnt + 340 < fuel →
      filesysCreate fuel currentDir name len fs = .ok (true, after)) ∧
    Orderly after (insert num.toNat live) holds addr (entries ++ [(name, num)]) ∧
    num.toNat ∉ live ∧ after.i = fs.i + 1 ∧ after.freeMap.bitCnt = fs.freeMap.bitCnt ∧
    (after.diskAt num.toNat).len = len ∧
    (∀ hdr ∈ live, hdr ≠ 0 → hdr ≠ 1 → fs.SameInode after hdr) ∧
    fs.freeSectors.card ≤ after.freeSectors.card + (1 + (len + 511) / 512) := by
  rcases orderly.dirOpenRoot_returns with
    ⟨root, rootIno, first, openingRoot, orderlyFirst, sameFirst, rootOpen, rootSec⟩
  have sameCard : first.freeSectors = fs.freeSectors := by
    unfold Fs.freeSectors
    rw [sameFirst.freeMap_eq]
  rcases orderlyFirst.filesysCreateInode_returns { inode := root, empty := false, pos := 0 } direct
    (by rw [sameCard]; exact room) with
    ⟨num, mid, creating, orderlyMid, notLive, onlyData, length_eq, sameMid, cardMid⟩
  have isLive : num.toNat ∈ insert num.toNat live := Set.mem_insert _ _
  have stillRoot : mid.inodes root = some rootIno := by rw [onlyData.inodes_eq, rootOpen]
  have data := orderlyMid.root_data stillRoot rootSec
  have rootLen := orderlyMid.root_len
  rcases orderlyMid.owned.dirAdd_returns { inode := root, empty := false, pos := 0 } name
    entries.length stillRoot (by rw [data]; omega) isLive (by rw [data]; omega)
    (by rw [data]; exact orderlyMid.lists.free _ le_rfl (by omega)) with
    ⟨res, last, adds, _⟩
  rw [data] at adds
  rcases orderlyMid.of_dirAdd stillRoot rootSec valid.notEmpty valid.short valid.noNul isNew
    isLive (adds _ (Nat.lt_succ_self _)) with
    ⟨rfl, orderlyLast, sameMap, sameI, sameLast⟩
  have bitCnt : last.freeMap.bitCnt = fs.freeMap.bitCnt := by
    rw [sameMap, onlyData.bitCnt_eq, sameFirst.freeMap_eq]
  refine ⟨num, { last with i := last.i + 1 }, ?_,
    (orderlyLast.mono (le_hold holds root)).with_i _, notLive, ?_, bitCnt, ?_, ?_, ?_⟩
  · intro fuel enough
    have entering : filesysCreateEntry fuel currentDir name fs =
        .ok ((some { inode := root, empty := false, pos := 0 }, name), first) := by
      rw [filesysCreateEntry, reads_bind_apply, if_pos early]
      exact bind_of_ok (openingRoot fuel)
    refine (bind_of_ok entering).trans ?_
    refine (bind_of_ok (creating fuel (by rw [sameFirst.freeMap_eq]; omega))).trans ?_
    refine (bind_of_ok (adds fuel (by omega))).trans ?_
    simp only [if_pos early]
    rfl
  · change last.i + 1 = fs.i + 1
    rw [sameI, onlyData.i_eq, sameFirst.i_eq]
  · have notRoot : num.toNat ≠ 1 := by
      intro isRoot
      rw [isRoot] at notLive
      exact notLive orderly.root_live
    exact (congrArg InodeDisk.len (sameLast _ isLive notRoot).diskAt_eq).trans length_eq
  · intro hdr hdrLive notMap notRoot
    have opening : fs.SameInode first hdr := .of_device sameFirst.device_eq
    exact (opening.trans (sameMid hdr hdrLive notMap)).trans (sameLast hdr (Or.inr hdrLive) notRoot)
  have sameFree : last.freeSectors = mid.freeSectors := by
    unfold Fs.freeSectors
    rw [sameMap]
  rw [sameCard, ← sameFree] at cardMid
  exact cardMid

lemma filesysCreate_long {currentDir : Option Dir} {res : Bool} (early : fs.i ≤ 1)
  (long : 123 * 512 < len) (room : 127 ≤ fs.freeSectors.card)
  (enough : byteCnt fs.freeMap.bitCnt < fuel) :
  filesysCreate fuel currentDir name len fs ≠ .ok (res, after) := by
  intro ran
  rcases orderly.dirOpenRoot_returns with
    ⟨root, rootIno, first, openingRoot, orderlyFirst, sameFirst, _⟩
  have entering : filesysCreateEntry fuel currentDir name fs =
      .ok ((some { inode := root, empty := false, pos := 0 }, name), first) := by
    rw [filesysCreateEntry, reads_bind_apply, if_pos early]
    exact bind_of_ok (openingRoot fuel)
  rcases bind_eq_ok ((bind_of_ok entering).symm.trans ran) with ⟨_, mid, creating, _⟩
  refine orderlyFirst.filesysCreateInode_long long ?_ ?_ creating
  · unfold Fs.freeSectors
    rw [sameFirst.freeMap_eq]
    exact room
  rw [sameFirst.freeMap_eq]
  exact enough

end

end Orderly

lemma filesysCreate_late {name : List Byte} {fuel : ℕ} {len : ℤ} (late : 2 ≤ fs.i) :
  filesysCreate fuel none name len fs ≠ .ok (true, after) := by
  intro ran
  rcases filesysCreate_true ran with ⟨dir, entry, first, res, mid, _, entering, creating, _⟩
  rw [filesysCreateEntry_later late] at entering
  cases isLast : (pathTokens name).getLast? with
  | none =>
    rw [isLast] at entering
    cases entering
  | some last =>
    rw [isLast] at entering
    cases entering
    cases creating

structure Fs.WritesFile (fs after : Fs) (live : Set ℕ) (header : ℕ) : Prop where
  onlyData : fs.OnlyData after
  freeMap_eq : after.freeMap = fs.freeMap
  header_eq : after.device.sectors header = fs.device.sectors header
  others : ∀ other ∈ live, other ≠ header → fs.SameInode after other

namespace Fs.WritesFile

lemma refl (fs : Fs) (live : Set ℕ) (hdr : ℕ) : fs.WritesFile fs live hdr :=
  ⟨Std.Refl.refl _, rfl, rfl, fun _ _ _ _ _ => rfl⟩

lemma trans {last : Fs} (first : fs.WritesFile after live hdr)
  (second : after.WritesFile last live hdr) : fs.WritesFile last live hdr where
  onlyData := IsTrans.trans _ _ _ first.onlyData second.onlyData
  freeMap_eq := second.freeMap_eq.trans first.freeMap_eq
  header_eq := second.header_eq.trans first.header_eq
  others other isLive ne :=
    (first.others other isLive ne).trans (second.others other isLive ne)

lemma diskAt_eq (writes : fs.WritesFile after live hdr) : after.diskAt hdr = fs.diskAt hdr := by
  rw [Fs.diskAt, writes.header_eq]
  rfl

end Fs.WritesFile

namespace Orderly

variable {place : ℕ} {ino : Inode}

lemma inodeWriteAt_returns (orderly : Orderly fs live holds addr entries)
  (isOpen : fs.inodes place = some ino) (isNum : ino.sector = num) (notMap : num.toNat ≠ 0)
  (notRoot : num.toNat ≠ 1) {size ofs : ℕ} (inside : ofs + size ≤ (fs.diskAt num.toNat).len)
  (buf : ℕ → Byte) : ∃ after, (∀ fuel, size ≤ fuel →
      inodeWriteAt fuel place buf size ofs fs = .ok ((size : ℤ), after)) ∧
    Orderly after live holds addr entries ∧ fs.WritesFile after live num.toNat ∧
    ∀ idx, idx < (fs.diskAt num.toNat).len →
      (fs.diskAt num.toNat).contents after.device idx =
        overlay ((fs.diskAt num.toNat).contents fs.device) ofs size buf idx := by
  have data := orderly.data_eq isOpen
  rw [isNum] at data
  have isLive : num.toNat ∈ live := isNum ▸ orderly.owned.live_of_open place ino isOpen
  rcases inodeWriteAtWith_inside orderly.owned.heap isOpen (orderly.owned.writable _ _ isOpen)
    (orderly.owned.wellFormed_open isOpen) (by rw [data]; exact inside) buf with
    ⟨dev, overwritten, run⟩
  have writes : ∀ fuel, size ≤ fuel → inodeWriteAt fuel place buf size ofs fs =
      .ok ((size : ℤ), { fs with device := dev }) :=
    fun fuel enough => run (freeMapAllocate fuel) fuel enough
  rcases orderly.owned.of_inodeWriteAt isOpen (writes size le_rfl) with
    ⟨owned, onlyData, sameMap, _, _, others⟩
  rw [isNum] at others
  have same : ∀ other ∈ live, other ≠ num.toNat → fs.SameInode { fs with device := dev } other := by
    intro other otherLive ne sec isOwned
    refine others sec fun isData => ?_
    exact orderly.owned.disjoint other otherLive _ isLive ne sec isOwned (Or.inr isData)
  have writesFile : fs.WritesFile { fs with device := dev } live num.toNat :=
    ⟨onlyData, sameMap, others _ (orderly.owned.header_apart _ isLive), same⟩
  refine ⟨_, writes, ?_, writesFile, ?_⟩
  · exact orderly.of_same owned (orderly.intact.of_keeps onlyData.keeps onlyData.freeMapFile_eq)
      (onlyData.steady.noneRemoved orderly.noneRemoved) onlyData.bitCnt_eq subset_rfl
      (same 0 (orderly.owned.zero_live orderly.fileHeld) notMap.symm 0 (fs.owns_header 0))
      (same 1 orderly.root_live notRoot.symm)
  intro idx bound
  have readable := orderly.readable isLive
  have blks := readable.blockCnt_eq
  rw [data] at overwritten
  exact overwritten.contents_eq idx (by omega)

end Orderly

end Pintos
