import Pintos.Filesys.NamesFrame
import Pintos.Filesys.OpenByName

/-!
# A file system in order

The root directory of a formatted file system lists names from its first slot on. As long
as the free map describes the device and no inode is being removed, files are created in
it, found by their names, written and closed, and whatever is not written to keeps its
sectors.
-/

namespace Pintos

open Pintos.Computation Function

variable {name : List Byte} {number : Word} {header place fuel : ℕ} {inode : Inode} {dir : Dir}
  {result : Bool}

section Lists

variable {disk : InodeDisk} {device after : Block} {entries : List (List Byte × Word)} {step : ℕ}

structure InodeDisk.Lists (disk : InodeDisk) (device : Block)
    (entries : List (List Byte × Word)) : Prop where
  fits : 20 * entries.length ≤ disk.len
  noNul : ∀ entry ∈ entries, 0 ∉ entry.1
  taken : ∀ step entry, entries[step]? = some entry →
    DirEntry.Matches (disk.entryAt device (20 * step)) entry.1 ∧
      DirEntry.inodeSector (disk.entryAt device (20 * step)) = entry.2
  free : ∀ step, entries.length ≤ step → 20 * step + 20 ≤ disk.len →
    DirEntry.inUse (disk.entryAt device (20 * step)) = false

lemma InodeDisk.entryAt_congr (fits : 20 * step + 20 ≤ disk.len)
  (same : ∀ index, index < disk.len → disk.contents after index = disk.contents device index) :
  disk.entryAt after (20 * step) = disk.entryAt device (20 * step) := by
  apply overlay_congr
  intro index bound
  unfold dirEntrySize at bound
  exact same _ (by omega)

namespace InodeDisk.Lists

section

variable (lists : disk.Lists device entries)
include lists

lemma slot_fits (inside : step < entries.length) : 20 * step + 20 ≤ disk.len := by
  have fits := lists.fits
  omega

lemma congr
  (same : ∀ index, index < disk.len → disk.contents after index = disk.contents device index) :
  disk.Lists after entries where
  fits := lists.fits
  noNul := lists.noNul
  taken step entry isEntry := by
    have inside := (List.getElem?_eq_some_iff.mp isEntry).1
    rw [entryAt_congr (lists.slot_fits inside) same]
    exact lists.taken step entry isEntry
  free step behind slotFits := by
    rw [entryAt_congr slotFits same]
    exact lists.free step behind slotFits

lemma free_iff (slotFits : 20 * step + 20 ≤ disk.len) :
  DirEntry.inUse (disk.entryAt device (20 * step)) = false ↔ entries.length ≤ step := by
  constructor
  · intro unused
    by_contra inside
    have isEntry := List.getElem?_eq_getElem (Nat.lt_of_not_le inside)
    have used := (lists.taken step _ isEntry).1.1
    rw [unused] at used
    cases used
  intro behind
  exact lists.free step behind slotFits

lemma noEntry (noNul : 0 ∉ name) (isNew : name ∉ entries.map Prod.fst) :
  disk.NoEntry device (DirEntry.Matches · name) := by
  rintro step slotFits ⟨used, hasName⟩
  by_cases inside : step < entries.length
  · have isEntry := List.getElem?_eq_getElem inside
    have listed := (lists.taken step _ isEntry).1.2
    have same := DirEntry.hasName_unique noNul (lists.noNul _ (List.getElem_mem inside)) hasName
      listed
    exact isNew (List.mem_map.mpr ⟨_, List.getElem_mem inside, same.symm⟩)
  rw [lists.free step (Nat.le_of_not_lt inside) slotFits] at used
  cases used

lemma firstEntry (distinct : (entries.map Prod.fst).Nodup) {entry : List Byte × Word}
  (isEntry : entries[step]? = some entry) :
  disk.FirstEntry device (DirEntry.Matches · entry.1) step where
  fits := lists.slot_fits (List.getElem?_eq_some_iff.mp isEntry).1
  found := (lists.taken step entry isEntry).1
  first earlier before := by
    rintro ⟨_, hasName⟩
    rcases List.getElem?_eq_some_iff.mp isEntry with ⟨inside, rfl⟩
    have earlierInside : earlier < entries.length := by omega
    have listed := (lists.taken earlier _ (List.getElem?_eq_getElem earlierInside)).1.2
    have same := DirEntry.hasName_unique (lists.noNul _ (List.getElem_mem inside))
      (lists.noNul _ (List.getElem_mem earlierInside)) hasName listed
    have sameStep : earlier = step := by
      refine (List.getElem?_inj (by simpa using earlierInside) distinct).mp ?_
      simp only [List.getElem?_map, List.getElem?_eq_getElem inside,
        List.getElem?_eq_getElem earlierInside, Option.map_some, same]
    omega

lemma concat (readable : disk.Readable device) {old : DirEntry} (noNul : 0 ∉ name)
  (short : name.length ≤ nameMax) (slotFits : 20 * entries.length + 20 ≤ disk.len)
  (overwritten : Overwritten disk device after (20 * entries.length) 20
    (DirEntry.filled old name number)) : disk.Lists after (entries ++ [(name, number)]) where
  fits := by
    rw [List.length_append]
    omega
  noNul entry member := by
    rcases List.mem_append.mp member with isOld | isNew
    · exact lists.noNul entry isOld
    rw [List.mem_singleton.mp isNew]
    exact noNul
  taken step entry isEntry := by
    by_cases inside : step < entries.length
    · rw [List.getElem?_append_left inside] at isEntry
      rw [entryAt_overwritten_of_ne readable overwritten (by omega) (lists.slot_fits inside)]
      exact lists.taken step entry isEntry
    have isLast : step = entries.length := by
      have bound := (List.getElem?_eq_some_iff.mp isEntry).1
      rw [List.length_append, List.length_singleton] at bound
      omega
    subst isLast
    rw [List.getElem?_concat_length] at isEntry
    cases isEntry
    exact ⟨matches_overwritten readable overwritten slotFits short,
      inodeSector_overwritten readable overwritten slotFits⟩
  free step behind fits := by
    rw [List.length_append, List.length_singleton] at behind
    rw [entryAt_overwritten_of_ne readable overwritten (by omega) fits]
    exact lists.free step (by omega) fits

end

end InodeDisk.Lists

end Lists

variable {fs after : Fs} {live : Set ℕ} {holds newHolds : ℕ → ℕ} {address : ℕ}
  {entries : List (List Byte × Word)}

namespace Fs

def SameInode (fs after : Fs) (header : ℕ) : Prop :=
  ∀ sector, fs.Owns header sector → after.device.sectors sector = fs.device.sectors sector

namespace SameInode

lemma of_device (device : after.device = fs.device) : fs.SameInode after header :=
  fun _ _ => by rw [device]

lemma diskAt_eq (same : fs.SameInode after header) : after.diskAt header = fs.diskAt header := by
  rw [diskAt, same header (fs.owns_header header)]
  rfl

lemma trans {last : Fs} (first : fs.SameInode after header)
  (second : after.SameInode last header) : fs.SameInode last header := by
  intro sector isOwned
  rw [← first sector isOwned]
  exact second sector ((owns_congr (first header (fs.owns_header header)) sector).mpr isOwned)

lemma contents_eq (same : fs.SameInode after header)
  (readable : (fs.diskAt header).Readable fs.device) {index : ℕ}
  (inside : index < (fs.diskAt header).len) :
  (fs.diskAt header).contents after.device index = (fs.diskAt header).contents fs.device index :=
  InodeDisk.contents_congr _ (same _ (Or.inr ⟨_, readable.block_lt inside, rfl⟩))

end SameInode

structure HoldsFile (fs : Fs) (number : Word) (bytes : List Byte) : Prop where
  len_eq : (fs.diskAt number.toNat).len = bytes.length
  contents_eq : ∀ index, index < bytes.length →
    (fs.diskAt number.toNat).contents fs.device index = bytes.getD index 0

lemma HoldsFile.of_same {bytes : List Byte} (has : fs.HoldsFile number bytes)
  (same : fs.SameInode after number.toNat)
  (readable : (fs.diskAt number.toNat).Readable fs.device) : after.HoldsFile number bytes where
  len_eq := by rw [same.diskAt_eq, has.len_eq]
  contents_eq index inside := by
    rw [same.diskAt_eq, same.contents_eq readable (by rw [has.len_eq]; exact inside)]
    exact has.contents_eq index inside

end Fs

/-- A file system in order: the free map file is open and long enough, no inode is being removed,
and the root directory has sixteen slots, of which the given entries take the first. -/
structure Orderly (fs : Fs) (live : Set ℕ) (holds : ℕ → ℕ) (address : ℕ)
    (entries : List (List Byte × Word)) : Prop where
  owned : Owned fs live holds
  intact : fs.FileIntact address
  map_le : byteCnt fs.freeMap.bitCnt ≤ (fs.diskAt 0).len
  noneRemoved : fs.NoneRemoved
  root_live : 1 ∈ live
  root_len : (fs.diskAt 1).len = 320
  lists : (fs.diskAt 1).Lists fs.device entries
  named : ∀ entry ∈ entries, entry.2.toNat ∈ live

namespace Orderly

section

variable (orderly : Orderly fs live holds address entries)
include orderly

lemma fileHeld : fs.FileHeld :=
  orderly.intact.fileHeld

lemma mapReady : fs.MapReady :=
  orderly.owned.mapReady orderly.fileHeld

lemma readable (isLive : header ∈ live) : (fs.diskAt header).Readable fs.device :=
  (orderly.owned.wellFormed header isLive).toReadable

lemma mono {fewer : ℕ → ℕ} (le : ∀ place, fewer place ≤ holds place) :
  Orderly fs live fewer address entries :=
  { orderly with owned := orderly.owned.mono le }

lemma data_eq (isOpen : fs.inodes place = some inode) : inode.data = fs.diskAt inode.sector.toNat :=
  orderly.owned.data_of_not_removed isOpen (orderly.noneRemoved place inode isOpen)

lemma mapFits : fs.MapFits := by
  intro file inode isFile isOpen
  rcases orderly.intact.inode with ⟨record, isRecord, isMap, _⟩
  rw [orderly.intact.file] at isFile
  cases isFile
  rw [isOpen] at isRecord
  cases isRecord
  rw [orderly.data_eq isOpen, isMap]
  exact orderly.map_le

lemma of_same {newLive : Set ℕ} (owned : Owned after newLive newHolds)
  (intact : after.FileIntact address) (noneRemoved : after.NoneRemoved)
  (bitCnt : after.freeMap.bitCnt = fs.freeMap.bitCnt) (subset : live ⊆ newLive)
  (map : after.device.sectors 0 = fs.device.sectors 0) (root : fs.SameInode after 1) :
  Orderly after newLive newHolds address entries where
  owned := owned
  intact := intact
  map_le := by
    rw [bitCnt, Fs.diskAt, map]
    exact orderly.map_le
  noneRemoved := noneRemoved
  root_live := subset orderly.root_live
  root_len := by rw [root.diskAt_eq, orderly.root_len]
  lists := by
    rw [root.diskAt_eq]
    exact orderly.lists.congr fun _ inside =>
      root.contents_eq (orderly.readable orderly.root_live) inside
  named entry member := subset (orderly.named entry member)

end

end Orderly

lemma Fs.SameDevice.diskAt_eq (same : fs.SameDevice after) (header : ℕ) :
  after.diskAt header = fs.diskAt header :=
  (Fs.SameInode.of_device same.device_eq).diskAt_eq

lemma Fs.sameDevice_closed (fs : Fs) (place : ℕ) (inode : Inode) :
  fs.SameDevice (fs.closed place inode) := by
  unfold Fs.closed
  split
  · exact ⟨rfl, rfl, rfl⟩
  · exact ⟨rfl, rfl, rfl⟩

lemma unhold_hold_self (holds : ℕ → ℕ) (place : ℕ) : unhold (hold holds place) place = holds := by
  unfold hold unhold
  rw [update_self, Nat.add_sub_cancel, update_idem, update_eq_self]

section Adding

variable (heap : fs.HeapOk) (isOpen : fs.inodes dir.inode = some inode)
  (writable : inode.denyWriteCnt = 0) (wellFormed : inode.data.WellFormed fs.device)

include heap isOpen writable wellFormed

lemma dirAdd_slot (returned : dirAdd fuel dir name number fs = .ok (result, after)) :
  (result = false ∧ after = fs ∧ ((name = [] ∨ name.length > nameMax) ∨
      ∃ step, inode.data.FirstEntry fs.device (DirEntry.Matches · name) step)) ∨
    (result = true ∧ name.length ≤ nameMax ∧
      inode.data.NoEntry fs.device (DirEntry.Matches · name) ∧
      ∃ step old, 20 * step + 20 ≤ inode.data.len ∧
        DirEntry.inUse (inode.data.entryAt fs.device (20 * step)) = false ∧
        (∀ earlier, earlier < step →
          DirEntry.inUse (inode.data.entryAt fs.device (20 * earlier)) = true) ∧
        Overwritten inode.data fs.device after.device (20 * step) 20
          (DirEntry.filled old name number)) := by
  by_cases invalid : name = [] ∨ name.length > nameMax
  · rw [dirAdd, if_pos invalid] at returned
    cases returned
    exact Or.inl ⟨rfl, rfl, Or.inl invalid⟩
  rw [dirAdd, if_neg invalid] at returned
  rcases bind_eq_ok returned with ⟨found, searched, search, adding⟩
  rcases lookup_eq_ok heap isOpen wellFormed.toReadable search with ⟨rfl, isFirst | missing⟩
  · rcases isFirst with ⟨step, isFirst, rfl⟩
    cases adding
    exact Or.inl ⟨rfl, rfl, Or.inr ⟨step, isFirst⟩⟩
  rcases missing with ⟨rfl, missing⟩
  rcases bind_eq_ok adding with ⟨⟨old, ofs⟩, scanned, scan, writing⟩
  rcases freeSlotLoop_eq_ok heap isOpen wellFormed.toReadable
    (show freeSlotLoop dir.inode fuel ((20 * 0 : ℕ) : ℤ) searched = _ from scan) with
    ⟨rfl, step, isOfs, unused, earlierUsed⟩
  simp only at isOfs
  rw [isOfs] at writing
  rcases bind_eq_ok writing with ⟨count, middle, write, looking⟩
  rcases inodeWriteAtWith_eq_ok (freeMapAllocate_onlyData fuel) heap isOpen writable wellFormed
    write with ⟨rfl, inside, device, overwritten, rfl⟩
  have slotFits : 20 * step + 20 ≤ inode.data.len := by
    simp only [dirEntrySize] at inside
    omega
  rcases bind_eq_ok looking with ⟨opened, looked, look, asking⟩
  rcases bind_eq_ok asking with ⟨dirAdded, last, asked, finish⟩
  have sameDevice := (malloc_sameDevice asked).device_eq.trans
      (dirLookup_preserves malloc_sameDevice inodeOpen_sameDevice fuel dir name look).device_eq
  cases dirAdded with
  | false => cases finish
  | true =>
    rcases Prod.mk.inj (Except.ok.inj finish) with ⟨isWritten, rfl⟩
    refine Or.inr ⟨?_, by omega, missing, step, old, slotFits, unused slotFits,
      fun earlier => earlierUsed earlier (Nat.zero_le _), ?_⟩
    · rw [← isWritten]
      exact decide_eq_true rfl
    rw [sameDevice]
    exact overwritten

lemma dirAdd_overwrites (lists : inode.data.Lists fs.device entries) (notEmpty : name ≠ [])
  (short : name.length ≤ nameMax) (noNul : 0 ∉ name) (isNew : name ∉ entries.map Prod.fst)
  (returned : dirAdd fuel dir name number fs = .ok (result, after)) :
  result = true ∧ 20 * entries.length + 20 ≤ inode.data.len ∧
    ∃ old, Overwritten inode.data fs.device after.device (20 * entries.length) 20
      (DirEntry.filled old name number) := by
  rcases dirAdd_slot heap isOpen writable wellFormed returned with
    ⟨_, _, refused⟩ | ⟨isTrue, _, _, step, old, fits, unused, earlierUsed, overwritten⟩
  · rcases refused with (isEmpty | long) | ⟨step, isFirst⟩
    · exact absurd isEmpty notEmpty
    · omega
    · exact absurd isFirst.found (lists.noEntry noNul isNew step isFirst.fits)
  have isSlot : step = entries.length := by
    have notBehind : ¬ entries.length < step := by
      intro behind
      have used := earlierUsed entries.length behind
      rw [lists.free _ le_rfl (by omega)] at used
      cases used
    have notBefore := (lists.free_iff fits).mp unused
    omega
  rw [isSlot] at fits overwritten
  exact ⟨isTrue, fits, old, overwritten⟩

end Adding

namespace Owned

lemma mapSector_apart (owned : Owned fs live holds) (fileHeld : fs.FileHeld) {sector : ℕ}
  (isLive : header ∈ live) (notMap : header ≠ 0) (isOwned : fs.Owns header sector) :
  ¬ fs.MapSector sector := by
  intro isMap
  exact owned.disjoint 0 (owned.zero_live fileHeld) header isLive notMap.symm sector
    (Or.inr (owned.ownsData_of_mapSector fileHeld isMap)) isOwned

lemma sameInode_of_leaked {other : ℕ} (owned : Owned fs live holds) (fileHeld : fs.FileHeld)
  (foreign : ∀ other ∈ live, ¬ fs.Owns other header) (leaked : Leaked fs after header)
  (isLive : other ∈ live) (notMap : other ≠ 0) : fs.SameInode after other := by
  intro sector isOwned
  refine leaked.sectors_eq sector (owned.used other isLive sector isOwned)
    (owned.mapSector_apart fileHeld isLive notMap isOwned) ?_
  rintro rfl
  exact foreign other isLive isOwned

section Writing

variable {written : ℕ} (owned : Owned fs live holds) (isLive : written ∈ live)
  (others : ∀ sector, ¬ fs.OwnsData written sector →
    after.device.sectors sector = fs.device.sectors sector)

include owned isLive others

lemma sameInode_of_written (headerLive : header ∈ live) (differs : header ≠ written) :
  fs.SameInode after header := by
  intro sector isOwned
  refine others sector fun isData => ?_
  exact owned.disjoint header headerLive written isLive differs sector isOwned (Or.inr isData)

lemma diskAt_of_written : after.diskAt written = fs.diskAt written := by
  rw [Fs.diskAt, others written (owned.header_apart written isLive)]
  rfl

end Writing

lemma lists_of_dirAdd (owned : Owned fs live holds) (isOpen : fs.inodes dir.inode = some inode)
  (kept : inode.removed = false) (lists : (fs.diskAt inode.sector.toNat).Lists fs.device entries)
  (notEmpty : name ≠ []) (short : name.length ≤ nameMax) (noNul : 0 ∉ name)
  (isNew : name ∉ entries.map Prod.fst) (isLive : number.toNat ∈ live)
  (returned : dirAdd fuel dir name number fs = .ok (result, after)) :
  result = true ∧ after.diskAt inode.sector.toNat = fs.diskAt inode.sector.toNat ∧
    (after.diskAt inode.sector.toNat).Lists after.device (entries ++ [(name, number)]) := by
  have dirLive := owned.live_of_open _ _ isOpen
  have data := owned.data_of_not_removed isOpen kept
  rcases owned.of_dirAdd isOpen isLive returned with ⟨_, _, _, _, others⟩
  have sameDisk := owned.diskAt_of_written dirLive others
  have written := dirAdd_overwrites owned.heap isOpen (owned.writable _ _ isOpen)
    (owned.wellFormed_open isOpen) (by rw [data]; exact lists) notEmpty short noNul isNew returned
  rw [data] at written
  rcases written with ⟨isTrue, fits, old, overwritten⟩
  refine ⟨isTrue, sameDisk, ?_⟩
  rw [sameDisk]
  exact lists.concat (owned.wellFormed _ dirLive).toReadable noNul short fits overwritten

end Owned

namespace Orderly

section

variable (orderly : Orderly fs live holds address entries)
include orderly

lemma of_sameDevice (owned : Owned after live newHolds) (intact : after.FileIntact address)
  (noneRemoved : after.NoneRemoved) (same : fs.SameDevice after) :
  Orderly after live newHolds address entries :=
  orderly.of_same owned intact noneRemoved (by rw [same.freeMap_eq]) subset_rfl
    (by rw [same.device_eq]) (.of_device same.device_eq)

lemma inodeOpen_returns (isLive : number.toNat ∈ live) :
  ∃ place inode after, inodeOpen number fs = .ok (some place, after) ∧
    Orderly after live (hold holds place) address entries ∧ fs.SameDevice after ∧
    fs.Keeps after ∧ after.inodes place = some inode ∧ inode.sector = number := by
  rcases orderly.owned.inodeOpen_returns isLive with ⟨place, after, opening, _⟩
  rcases orderly.owned.of_inodeOpen isLive opening with
    ⟨_, isPlace, owned, keeps, _, _, file, inode, isOpen, sector⟩
  cases isPlace
  have noneRemoved := (inodeOpen_steady number opening).noneRemoved orderly.noneRemoved
  have same := inodeOpen_sameDevice number opening
  exact ⟨place, inode, after, opening, orderly.of_sameDevice owned
    (orderly.intact.of_keeps keeps file) noneRemoved same, same, keeps, isOpen, sector⟩

lemma inodeClose_returns (isOpen : fs.inodes place = some inode) (positive : 0 < holds place)
  (notMap : inode.sector ≠ freeMapSector) :
  ∃ after, (∀ fuel, inodeClose fuel place fs = .ok ((), after)) ∧
    Orderly after live (unhold holds place) address entries ∧ fs.SameDevice after ∧
    (∀ other, other ≠ place → after.inodes other = fs.inodes other) ∧
    (1 < holds place → ∃ changed, after.inodes place = some changed ∧
      changed.sector = inode.sector) := by
  have notRemoved := orderly.noneRemoved place inode isOpen
  have held := orderly.owned.held place inode isOpen
  have closing := Fs.inodeClose_closed isOpen notRemoved
  have others : ∀ other, other ≠ place → (fs.closed place inode).inodes other = fs.inodes other :=
    fun other differs => Fs.closed_inodes_of_ne inode differs
  have owned : Owned (fs.closed place inode) live (unhold holds place) := by
    unfold Fs.closed
    split
    · next isLast => exact orderly.owned.drop_last isOpen isLast
    · exact orderly.owned.count_down isOpen positive
  have same := Fs.sameDevice_closed fs place inode
  have intact : (fs.closed place inode).FileIntact address := by
    rcases orderly.intact.inode with ⟨record, isRecord, isMap, kept⟩
    have differs : address ≠ place := by
      rintro rfl
      rw [isOpen] at isRecord
      cases isRecord
      exact notMap isMap
    refine ⟨?_, record, (others address differs).trans isRecord, isMap, kept⟩
    rw [← orderly.intact.file]
    unfold Fs.closed
    split
    · rfl
    · rfl
  refine ⟨_, closing, orderly.of_sameDevice owned intact
    ((inodeClose_steady 0 place (closing 0)).noneRemoved orderly.noneRemoved) same, same, others,
    ?_⟩
  intro more
  exact ⟨_, Fs.closed_inodes_self (by omega), rfl⟩

lemma dirOpenRoot_returns :
  ∃ root inode after,
    (∀ fuel, dirOpenRoot fuel fs = .ok (some { inode := root, empty := false, pos := 0 }, after)) ∧
    Orderly after live (hold holds root) address entries ∧ fs.SameDevice after ∧
    after.inodes root = some inode ∧ inode.sector = rootDirSector := by
  rcases orderly.inodeOpen_returns (show rootDirSector.toNat ∈ live from orderly.root_live) with
    ⟨root, inode, after, opening, orderlyAfter, same, _, isOpen, sector⟩
  refine ⟨root, inode, after, ?_, orderlyAfter, same, isOpen, sector⟩
  intro fuel
  exact (bind_of_ok opening).trans (dirOpen_of_heapOk orderlyAfter.owned.heap fuel root)

lemma root_data (isOpen : fs.inodes place = some inode) (sector : inode.sector = rootDirSector) :
  inode.data = fs.diskAt 1 := by
  rw [orderly.data_eq isOpen, sector]
  rfl

lemma filesysOpen_returns (distinct : (entries.map Prod.fst).Nodup)
  (listed : (name, number) ∈ entries) (notSlash : name.head? ≠ some slash) : ∃ place inode after,
    (∀ fuel, 320 < fuel → filesysOpen fuel name fs =
      .ok (some { inode := place, pos := 0, denyWrite := false }, after)) ∧
    Orderly after live (hold holds place) address entries ∧ fs.SameDevice after ∧
    after.inodes place = some inode ∧ inode.sector = number := by
  rcases List.mem_iff_getElem?.mp listed with ⟨step, isEntry⟩
  rcases orderly.dirOpenRoot_returns with
    ⟨root, rootInode, first, openingRoot, orderlyFirst, sameFirst, rootOpen, rootSector⟩
  have data := orderlyFirst.root_data rootOpen rootSector
  have rootLen := orderlyFirst.root_len
  have found := orderlyFirst.lists.firstEntry distinct isEntry
  have isNumber := (orderlyFirst.lists.taken step _ isEntry).2
  rw [← data] at found isNumber rootLen
  rcases orderlyFirst.inodeOpen_returns (orderlyFirst.named _ listed) with
    ⟨place, inode, second, opening, orderlySecond, sameSecond, keeps, isOpen, sector⟩
  rcases keeps root rootInode rootOpen with ⟨rootAfter, rootStill, rootAfterSector, _⟩
  have holdsRoot : 0 < hold (hold holds root) place root := by
    have positive : 0 < hold holds root root := by simp [hold]
    exact Nat.lt_of_lt_of_le positive (le_hold _ place root)
  rcases orderlySecond.inodeClose_returns rootStill holdsRoot
    (by rw [rootAfterSector, rootSector]; decide) with
    ⟨after, closing, orderlyAfter, sameAfter, others, again⟩
  have stillOpen : ∃ changed, after.inodes place = some changed ∧ changed.sector = number := by
    by_cases same : place = root
    · subst same
      rcases again (by simp [hold]) with ⟨changed, isChanged, changedSector⟩
      rw [isOpen] at rootStill
      cases rootStill
      exact ⟨changed, isChanged, changedSector.trans sector⟩
    · exact ⟨inode, (others place same).trans isOpen, sector⟩
  rcases stillOpen with ⟨changed, isChanged, changedSector⟩
  rw [unhold_hold (by simp [hold]), unhold_hold_self] at orderlyAfter
  refine ⟨place, changed, after, ?_, orderlyAfter, (sameFirst.trans sameSecond).trans sameAfter,
    isChanged, changedSector⟩
  intro fuel enough
  have notRoot : name ≠ [slash] := by
    rintro rfl
    exact notSlash rfl
  have looked : dirLookup fuel { inode := root, empty := false, pos := 0 } name first =
      .ok (some place, second) := by
    rw [dirLookup, bind_of_ok (lookup_of_firstEntry orderlyFirst.owned.heap rootOpen
      (orderlyFirst.owned.wellFormed_open rootOpen).toReadable found (by omega))]
    simp only [isNumber]
    exact opening
  rw [filesysOpen, bind_of_ok (openingRoot fuel)]
  simp only [if_neg notRoot, if_neg notSlash]
  refine (bind_of_ok looked).trans ?_
  refine (bind_of_ok (closing fuel)).trans ?_
  exact fileOpen_of_heapOk orderlyAfter.owned.heap fuel place

lemma of_dirAdd (isOpen : fs.inodes dir.inode = some inode) (isRoot : inode.sector = rootDirSector)
  (notEmpty : name ≠ []) (short : name.length ≤ nameMax) (noNul : 0 ∉ name)
  (isNew : name ∉ entries.map Prod.fst) (isLive : number.toNat ∈ live)
  (returned : dirAdd fuel dir name number fs = .ok (result, after)) :
  result = true ∧ Orderly after live holds address (entries ++ [(name, number)]) ∧
    after.freeMap = fs.freeMap ∧ after.i = fs.i ∧
    ∀ header ∈ live, header ≠ 1 → fs.SameInode after header := by
  have steady := dirAdd_steady fuel dir name number returned
  rcases orderly.owned.of_dirAdd isOpen isLive returned with
    ⟨ownedAfter, keeps, sameMap, sameFile, others⟩
  have added := orderly.owned.lists_of_dirAdd isOpen (orderly.noneRemoved _ _ isOpen)
    (by rw [isRoot]; exact orderly.lists) notEmpty short noNul isNew isLive returned
  rw [isRoot] at others added
  rcases added with ⟨isTrue, rootDisk, lists⟩
  have kept : ∀ header ∈ live, header ≠ 1 → fs.SameInode after header :=
    fun header headerLive notRoot =>
      orderly.owned.sameInode_of_written orderly.root_live others headerLive notRoot
  refine ⟨isTrue, ?_, sameMap, steady.i_eq, kept⟩
  refine ⟨ownedAfter, orderly.intact.of_keeps keeps sameFile, ?_,
    steady.noneRemoved orderly.noneRemoved, orderly.root_live, ?_, lists, ?_⟩
  · rw [sameMap, (kept 0 (orderly.owned.zero_live orderly.fileHeld) (by decide)).diskAt_eq]
    exact orderly.map_le
  · exact (congrArg InodeDisk.len rootDisk).trans orderly.root_len
  intro entry member
  rcases List.mem_append.mp member with isOld | isLast
  · exact orderly.named entry isOld
  rw [List.mem_singleton.mp isLast]
  exact isLive

end

end Orderly

end Pintos
