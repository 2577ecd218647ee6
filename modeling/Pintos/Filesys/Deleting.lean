import Pintos.Filesys.FormatRoot
import Pintos.Library.Runs

/-!
# Deleting a file

The life of a file from `inode_create` on a fresh header sector, over any number
of openers and `inode_remove`, to the last `inode_close`. Nothing is released
before that last close. It releases the header sector, and of the data as many
sectors as the length asks for, which `inode_remove` has set to zero. So the
free map is as it was before only for a file that never had a data sector.

The openers that remain after `inode_remove` find a file of length zero. A read
of it returns zero bytes, and a write does not return.
-/

namespace Pintos

open Pintos.Computation Function

variable {fs after created : Fs} {sector : Word} {length address : ℕ}

def openTimes (sector : Word) : ℕ → Kernel (Option ℕ)
  | 0 => inodeOpen sector
  | times + 1 => do
    let _ ← openTimes sector times
    inodeOpen sector

def closeTimes (fuel address : ℕ) : ℕ → Kernel Unit
  | 0 => pure ()
  | times + 1 => do
    closeTimes fuel address times
    inodeClose fuel address

/-- The file created on `sector` is opened `others + 1` times, removed and closed by each opener.
No call fails, nothing is released before the last close, and after it the same sectors are in use
as in the state `fs`. -/
def GivesBack (fuel : ℕ) (fs created : Fs) (sector : Word) (others : ℕ) : Prop :=
  ∃ address opened removed, openTimes sector others created = .ok (some address, opened) ∧
    inodeRemove address opened = .ok ((), removed) ∧
    (∀ closes, closes ≤ others → ∃ middle,
      closeTimes fuel address closes removed = .ok ((), middle) ∧
        middle.freeMap = created.freeMap) ∧
    ∃ after, closeTimes fuel address (others + 1) removed = .ok ((), after) ∧
      ∀ sector, after.Used sector ↔ fs.Used sector

namespace Fs

/-- A file system between two calls: the free map is consistent and fits in its open file, the
headers of all open inodes are in use, and no inode is at an address still to be handed out. -/
structure AtRest (fs : Fs) : Prop where
  mapReady : fs.MapReady
  mapFits : fs.MapFits
  map_open : ∃ file, fs.freeMapFile = some file
  open_used : ∀ address inode, address ∈ fs.openInodes → fs.inodes address = some inode →
    fs.Used inode.sector.toNat
  unused : ∀ address, fs.nextInode ≤ address → fs.inodes address = none

section Openers

variable (inode : Inode)

lemma pushInode_inodes : (fs.pushInode inode).inodes fs.nextInode = some inode :=
  update_self _ _ _

lemma pushInode_setInode (changed : Inode) :
  (fs.pushInode inode).setInode fs.nextInode changed = fs.pushInode changed := by
  simp [pushInode, setInode]

lemma findInode_pushInode : (fs.pushInode inode).findInode inode.sector = some fs.nextInode := by
  refine List.find?_cons_of_pos ?_
  rw [pushInode_inodes]
  simp

end Openers

end Fs

section Counting

variable {inode : Inode} {fuel : ℕ}

lemma inodeOpen_pushInode (fs : Fs) (inode : Inode) :
  inodeOpen inode.sector (fs.pushInode inode) =
    .ok (some fs.nextInode, fs.pushInode { inode with openCnt := inode.openCnt + 1 }) := by
  rw [inodeOpen_shared (fs.findInode_pushInode inode) (fs.pushInode_inodes inode),
    fs.pushInode_setInode]

lemma openTimes_pushInode (isSec : inode.sector = sector)
  (first : inodeOpen sector fs = .ok (some fs.nextInode, fs.pushInode inode)) (times : ℕ) :
  openTimes sector times fs =
    .ok (some fs.nextInode, fs.pushInode { inode with openCnt := inode.openCnt + times }) := by
  induction times with
  | zero => simpa [openTimes] using first
  | succ times ih =>
    refine (bind_of_ok ih).trans ?_
    rw [← isSec]
    refine (inodeOpen_pushInode fs { inode with openCnt := inode.openCnt + times }).trans ?_
    simp [add_assoc]

lemma closeTimes_pushInode (many : 1 ≤ inode.openCnt) (times : ℕ) :
  closeTimes fuel fs.nextInode times
      (fs.pushInode { inode with openCnt := inode.openCnt + times }) =
    .ok ((), fs.pushInode inode) := by
  induction times generalizing inode with
  | zero => simp [closeTimes]
  | succ times ih =>
    have pre := @ih { inode with openCnt := inode.openCnt + 1 } (by simp only; omega)
    have cnt : inode.openCnt + (times + 1 : ℕ) = inode.openCnt + 1 + times := by omega
    rw [cnt]
    refine (bind_of_ok pre).trans ?_
    rw [inodeClose, bind_of_ok (derefInode_of_some (fs.pushInode_inodes _)), updates_bind_apply,
      if_neg (by simp only; omega), fs.pushInode_setInode]
    simp

end Counting

lemma inodeClose_removed (ready : fs.MapReady) (fits : fs.MapFits) {file : File}
  (isFile : fs.freeMapFile = some file) (unused : fs.inodes fs.nextInode = none) {inode : Inode}
  (new : NewHeader fs inode.sector.toNat) (one : inode.openCnt = 1)
  (removed : inode.removed = true) (start : inode.data.start = 0) (size : inode.data.size = 0) :
  ∃ after, (∀ fuel, byteCnt fs.freeMap.bitCnt ≤ fuel →
      inodeClose fuel fs.nextInode (fs.pushInode inode) = .ok ((), after)) ∧
    ∀ other, after.Used other ↔ other ≠ inode.sector.toNat ∧ fs.Used other := by
  have same : fs.SameMapFile ((fs.pushInode inode).closing fs.nextInode inode) := by
    refine ⟨rfl, rfl, rfl, rfl, ?_⟩
    intro file record _ isRecord
    have ne : file.inode ≠ fs.nextInode := by
      intro isNext
      rw [isNext, unused] at isRecord
      cases isRecord
    refine ⟨record, ?_, rfl, rfl⟩
    rw [← isRecord, Fs.closing, Fs.pushInode_setInode]
    exact update_of_ne ne _ _
  have closingReady := same.mapReady ready
  have foreign : ∀ other, ((fs.pushInode inode).closing fs.nextInode inode).MapSector other →
      ¬(inode.sector.toNat ≤ other ∧ other < inode.sector.toNat + 1) := by
    intro other isMap isHdr
    rw [same.mapSector_iff ready, show other = inode.sector.toNat by omega] at isMap
    exact new.notMap isMap
  rcases freeMapRelease_returns closingReady (same.mapFits ready fits) isFile
    (show inode.sector.toNat + 1 ≤ fs.freeMap.bitCnt from new.lt)
    (fun i bound => by rw [show i = 0 by omega]; exact new.used) foreign with
    ⟨mid, releases⟩
  have released := freeMapRelease_released closingReady foreign (releases _ le_rfl)
  have nothing : ∀ other, mid.MapSector other →
      ¬(inode.data.start.toNat ≤ other ∧ other < inode.data.start.toNat + 0) := by
    intro other _ inside
    omega
  have midReady : mid.MapReady := by
    refine closingReady.of_onlyData released.onlyData ?_
    intro other isMap
    exact (released.used_iff other).mpr ⟨foreign other isMap, closingReady.file_used other isMap⟩
  rcases freeMapRelease_returns midReady (released.onlyData.mapFits (same.mapFits ready fits))
    (released.onlyData.freeMapFile_eq.trans isFile) (by rw [start]; exact Nat.zero_le _)
    (fun i bound => by omega) nothing with ⟨last, releasesData⟩
  have releasedData := freeMapRelease_released midReady nothing (releasesData _ le_rfl)
  refine ⟨{ last with inodes := update last.inodes fs.nextInode none }, ?_, ?_⟩
  · intro fuel enough
    rw [inodeClose, bind_of_ok (derefInode_of_some (fs.pushInode_inodes inode)),
      updates_bind_apply, if_pos (by omega), updates_bind_apply, if_pos removed]
    refine (bind_of_ok (releases fuel enough)).trans ?_
    rw [size]
    refine (bind_of_ok (releasesData fuel ?_)).trans rfl
    rw [released.onlyData.bitCnt_eq]
    exact enough
  intro other
  have usedLast := releasedData.used_iff other
  have usedMid := released.used_iff other
  rw [same.used_iff] at usedMid
  change last.Used other ↔ _
  grind

namespace Fs.AtRest

variable {marked : Fs} {fuel : ℕ}

lemma opens (atRest : fs.AtRest) {final : InodeDisk} (alloc : Allocated fs marked sector.toNat)
  (creation : Created marked created sector.toNat (newInodeDisk length) final 0
    ((length + 511) / 512)) (others : ℕ) :
  openTimes sector others created = .ok (some created.nextInode, created.pushInode
    { openedInode sector final.encode with openCnt := 1 + others }) := by
  have onlyData := IsTrans.trans _ _ _ alloc.onlyData creation.onlyData
  have absent : created.findInode sector = none := by
    refine List.find?_eq_none.mpr ?_
    intro address mem isHdr
    rcases (Option.any_eq_true ..).mp isHdr with ⟨inode, isOpen, isSec⟩
    rw [onlyData.openInodes_eq] at mem
    rw [onlyData.inodes_eq] at isOpen
    have used := atRest.open_used address inode mem isOpen
    rw [of_decide_eq_true isSec] at used
    exact alloc.free used
  have inRange : sector.toNat < created.device.size := by
    rw [onlyData.size_eq, ← atRest.mapReady.bitCnt_eq]
    exact alloc.lt
  have first := inodeOpen_fresh (onlyData.heapOk atRest.mapReady.heap) absent inRange
  rw [creation.header_eq] at first
  exact openTimes_pushInode (show (openedInode sector final.encode).sector = sector from rfl) first
    others

lemma life (atRest : fs.AtRest) (enough : byteCnt fs.freeMap.bitCnt < fuel)
  (direct : length ≤ 123 * 512)
  (allocates : freeMapAllocate fuel 1 fs = .ok (some sector, marked))
  (creates : inodeCreate fuel sector length marked = .ok (true, created)) (others : ℕ) :
  ∃ data : ℕ → ℕ, (∀ blk, blk < (length + 511) / 512 → ¬ fs.Used (data blk)) ∧
    ∃ address opened removed, openTimes sector others created = .ok (some address, opened) ∧
      inodeRemove address opened = .ok ((), removed) ∧
      (∀ closes, closes ≤ others → ∃ mid,
        closeTimes fuel address closes removed = .ok ((), mid) ∧
          mid.freeMap = created.freeMap) ∧
      ∃ after, closeTimes fuel address (others + 1) removed = .ok ((), after) ∧
        ∀ other, after.Used other ↔ fs.Used other ∨
          ∃ blk, blk < (length + 511) / 512 ∧ data blk = other := by
  have alloc := freeMapAllocate_allocated atRest.mapReady allocates
  have new := alloc.newHeader atRest.mapReady
  have markedReady := alloc.mapReady atRest.mapReady
  rcases inodeCreate_eq_ok markedReady new direct creates with ⟨_, final, creation⟩ | ⟨failed, _⟩
  swap
  · cases failed
  have onlyData := IsTrans.trans _ _ _ alloc.onlyData creation.onlyData
  have usedIff : ∀ other, created.Used other ↔ (other = sector.toNat ∨ fs.Used other) ∨
      ∃ blk, blk < (length + 511) / 512 ∧ final.dataSector blk = other := by
    intro other
    rw [creation.used_iff, alloc.used_iff]
    simp
  have fresh : ∀ blk, blk < (length + 511) / 512 →
      final.dataSector blk ≠ sector.toNat ∧ ¬ fs.Used (final.dataSector blk) := by
    intro blk bound
    have free := creation.fresh blk (Nat.zero_le _) bound
    rw [alloc.used_iff] at free
    exact not_or.mp free
  have newCreated : NewHeader created sector.toNat := by
    refine ⟨?_, (usedIff _).mpr (Or.inl (Or.inl rfl)), ?_⟩
    · rw [onlyData.bitCnt_eq]
      exact alloc.lt
    rw [creation.onlyData.mapSector_iff]
    exact new.notMap
  have unused : created.inodes created.nextInode = none := by
    rw [onlyData.inodes_eq, onlyData.nextInode_eq]
    exact atRest.unused _ le_rfl
  rcases atRest.map_open with ⟨file, isFile⟩
  let record : Inode :=
    { openedInode sector final.encode with
      removed := true
      data := { InodeDisk.decode final.encode with length := 0 } }
  have start : record.data.start = 0 := by
    change (InodeDisk.decode final.encode).start = 0
    rw [InodeDisk.decode_encode, creation.start_eq]
    rfl
  rcases inodeClose_removed (creation.mapReady markedReady)
    (onlyData.mapFits atRest.mapFits) (onlyData.freeMapFile_eq.trans isFile) unused
    (show NewHeader created record.sector.toNat from newCreated) rfl rfl start
    (InodeDisk.size_cleared _) with ⟨after, closeLast, usedAfter⟩
  refine ⟨final.dataSector, fun blk bound => (fresh blk bound).2, created.nextInode,
    created.pushInode { openedInode sector final.encode with openCnt := 1 + others },
    created.pushInode { record with openCnt := 1 + others },
    atRest.opens alloc creation others, ?_, ?_, after, ?_, ?_⟩
  · rw [inodeRemove, bind_of_ok (derefInode_of_some (Fs.pushInode_inodes _))]
    exact congrArg (fun st => Except.ok ((), st)) (Fs.pushInode_setInode _ _)
  · intro closes bound
    have cnt : (1 + (others : ℤ)) = 1 + ((others - closes : ℕ) : ℤ) + closes := by omega
    refine ⟨created.pushInode { record with openCnt := 1 + ((others - closes : ℕ) : ℤ) }, ?_, rfl⟩
    rw [cnt]
    have many : 1 ≤ ({ record with openCnt := 1 + ((others - closes : ℕ) : ℤ) } : Inode).openCnt :=
      show 1 ≤ 1 + ((others - closes : ℕ) : ℤ) by omega
    exact closeTimes_pushInode many closes
  · refine (bind_of_ok (closeTimes_pushInode (show 1 ≤ record.openCnt from le_rfl) others)).trans ?_
    refine closeLast fuel ?_
    rw [onlyData.bitCnt_eq]
    exact enough.le
  intro other
  rw [usedAfter, usedIff]
  constructor
  · rintro ⟨ne, (isHdr | used) | isData⟩
    · exact absurd isHdr ne
    · exact Or.inl used
    · exact Or.inr isData
  rintro (used | ⟨blk, bound, rfl⟩)
  · refine ⟨?_, Or.inl (Or.inr used)⟩
    rintro rfl
    exact alloc.free used
  · exact ⟨(fresh blk bound).1, Or.inr ⟨blk, bound, rfl⟩⟩

end Fs.AtRest

section Deleted

variable {marked : Fs} {fuel : ℕ} {others : ℕ}

lemma GivesBack.length_eq (gives : GivesBack fuel fs created sector others)
  (atRest : fs.AtRest) (enough : byteCnt fs.freeMap.bitCnt < fuel) (direct : length ≤ 123 * 512)
  (allocates : freeMapAllocate fuel 1 fs = .ok (some sector, marked))
  (creates : inodeCreate fuel sector length marked = .ok (true, created)) : length = 0 := by
  rcases atRest.life enough direct allocates creates others with
    ⟨data, fresh, address, opened, removed, opens, removes, _, after, closes, usedIff⟩
  rcases gives with ⟨_, _, _, opensAgain, removesAgain, _, _, closesAgain, same⟩
  cases opens.symm.trans opensAgain
  cases removes.symm.trans removesAgain
  cases closes.symm.trans closesAgain
  by_contra notEmpty
  have bound : 0 < (length + 511) / 512 := by omega
  exact fresh 0 bound ((same _).mp ((usedIff _).mpr (Or.inr ⟨0, bound, rfl⟩)))

/-- Deleting a file gives back all its space just when it never had a data sector. -/
theorem givesBack_iff (atRest : fs.AtRest) (enough : byteCnt fs.freeMap.bitCnt < fuel)
    (direct : length ≤ 123 * 512)
    (allocates : freeMapAllocate fuel 1 fs = .ok (some sector, marked))
    (creates : inodeCreate fuel sector length marked = .ok (true, created)) :
    GivesBack fuel fs created sector others ↔ length = 0 := by
  refine ⟨fun gives => gives.length_eq atRest enough direct allocates creates, ?_⟩
  rintro rfl
  rcases atRest.life enough direct allocates creates others with
    ⟨data, fresh, address, opened, removed, opens, removes, kept, after, closes, usedIff⟩
  refine ⟨address, opened, removed, opens, removes, kept, after, closes, ?_⟩
  intro other
  rw [usedIff]
  refine or_iff_left ?_
  rintro ⟨block, bound, _⟩
  omega

end Deleted

lemma Orderly.atRest {live : Set ℕ} {holds : ℕ → ℕ} {entries : List (List Byte × Word)}
  (orderly : Orderly fs live holds address entries) : fs.AtRest where
  mapReady := orderly.mapReady
  mapFits := orderly.mapFits
  map_open := ⟨_, orderly.intact.file⟩
  open_used place inode _ isOpen :=
    orderly.owned.used _ (orderly.owned.live_of_open place inode isOpen) _ (fs.owns_header _)
  unused place isNext := by
    by_contra isOpen
    have mem := (orderly.owned.mem_openInodes place).mpr isOpen
    have lt := orderly.owned.lt_nextInode place mem
    omega

lemma created_of_check
  (checked : ((filesysInit 30 (fun _ => 0) true (blankFs 16)).toOption.any fun formatted =>
    (freeMapAllocate 30 1 formatted.2).toOption.any fun marked => marked.1.any fun sector =>
      (inodeCreate 30 sector length marked.2).toOption.any fun made =>
        made.1 && decide (formatted.2.freeMap.bitCnt = 16)) = true) :
  ∃ (fs marked created : Fs) (sector : Word), fs.AtRest ∧ byteCnt fs.freeMap.bitCnt < 30 ∧
    freeMapAllocate 30 1 fs = .ok (some sector, marked) ∧
    inodeCreate 30 sector length marked = .ok (true, created) := by
  rcases exists_ok_of_any checked with ⟨⟨_, fs⟩, formats, checked⟩
  rcases exists_ok_of_any checked with ⟨⟨res, marked⟩, allocates, checked⟩
  rcases (Option.any_eq_true ..).mp checked with ⟨sector, rfl, checked⟩
  rcases exists_ok_of_any checked with ⟨⟨made, created⟩, creates, checked⟩
  simp only [Bool.and_eq_true, decide_eq_true_eq] at checked
  rcases checked with ⟨rfl, bitCnt⟩
  have booting : Booting (blankFs 16) := ⟨fun _ => rfl, by decide, fun _ => rfl, rfl⟩
  rcases filesysInit_orderly booting formats with ⟨_, orderly, _⟩
  refine ⟨fs, marked, created, sector, orderly.atRest, ?_, allocates, creates⟩
  rw [bitCnt]
  decide

/-- An empty file is created, opened three times, removed and closed. -/
theorem givesBack_empty : ∃ (fs marked created : Fs) (sector : Word), fs.AtRest ∧
    freeMapAllocate 30 1 fs = .ok (some sector, marked) ∧
    inodeCreate 30 sector (0 : ℕ) marked = .ok (true, created) ∧
    GivesBack 30 fs created sector 2 := by
  rcases @created_of_check 0 (by decide +kernel) with
    ⟨fs, marked, created, sector, atRest, enough, allocates, creates⟩
  exact ⟨fs, marked, created, sector, atRest, allocates, creates,
    (givesBack_iff atRest enough (Nat.zero_le _) allocates creates).mpr rfl⟩

/-- The two data sectors of a file of 1000 bytes are not given back. -/
theorem not_givesBack_data : ∃ (fs marked created : Fs) (sector : Word), fs.AtRest ∧
    freeMapAllocate 30 1 fs = .ok (some sector, marked) ∧
    inodeCreate 30 sector (1000 : ℕ) marked = .ok (true, created) ∧
    ¬ GivesBack 30 fs created sector 0 := by
  rcases @created_of_check 1000 (by decide +kernel) with
    ⟨fs, marked, created, sector, atRest, enough, allocates, creates⟩
  refine ⟨fs, marked, created, sector, atRest, allocates, creates, fun gives => ?_⟩
  have empty := gives.length_eq atRest enough (by omega) allocates creates
  omega

inductive Request where
  | read (buffer : ℕ → Byte) (size offset : ℕ)
  | write (buffer : ℕ → Byte) (size offset : ℕ)

namespace Request

def buffer : Request → ℕ → Byte
  | read buffer _ _ => buffer
  | write buffer _ _ => buffer

def size : Request → ℕ
  | read _ size _ => size
  | write _ size _ => size

def offset : Request → ℕ
  | read _ _ offset => offset
  | write _ _ offset => offset

def perform (fuel address : ℕ) : Performs Stop Fs Request (ℤ × (ℕ → Byte))
  | fs, read buffer size offset => inodeReadAt address buffer size offset fs
  | fs, write buffer size offset =>
    (inodeWriteAt fuel address buffer size offset fs).map fun outcome =>
      ((outcome.1, buffer), outcome.2)

def InBounds (len : ℕ) (request : Request) : Prop := request.offset + request.size ≤ len

def Idle (inode : Inode) : Request → Prop
  | read _ size _ => size = 0
  | write _ size _ => size = 0 ∨ inode.denyWriteCnt ≠ 0

/-- The requests return the same after the removal. -/
def SameResults (fuel address : ℕ) (fs removed : Fs) (requests : List Request) : Prop :=
  ∃ results after removedAfter,
    Performs.runAll (perform fuel address) requests fs = .ok (results, after) ∧
    Performs.runAll (perform fuel address) requests removed = .ok (results, removedAfter)

variable {removed : Fs} {fuel : ℕ} {inode : Inode} {request : Request} {requests : List Request}

lemma idle_congr {changed : Inode} (denied : changed.denyWriteCnt = inode.denyWriteCnt) :
  request.Idle changed ↔ request.Idle inode := by
  cases request with
  | read buf size ofs => exact Iff.rfl
  | write buf size ofs =>
    unfold Idle
    rw [denied]

lemma Idle.perform_eq (idle : request.Idle inode) (heap : fs.HeapOk)
  (isOpen : fs.inodes address = some inode) :
  perform fuel address fs request = .ok ((0, request.buffer), fs) := by
  cases request with
  | read buf size ofs =>
    cases idle
    rfl
  | write buf size ofs =>
    rw [perform, inodeWriteAt, inodeWriteAtWith, bind_of_ok (malloc_of_heapOk heap), if_pos rfl,
      bind_of_ok (derefInode_of_some isOpen)]
    by_cases denied : inode.denyWriteCnt = 0
    · rw [if_neg (by simp [denied])]
      rcases idle with rfl | isDenied
      · cases fuel with
        | zero => rfl
        | succ fuel => rfl
      · exact absurd denied isDenied
    rw [if_pos denied]
    rfl

section

variable (heap : fs.HeapOk) (isOpen : fs.inodes address = some inode)

include heap isOpen

lemma runAll_idle (idle : ∀ request ∈ requests, request.Idle inode) :
  Performs.runAll (perform fuel address) requests fs =
    .ok (requests.map fun request => (0, request.buffer), fs) := by
  induction requests with
  | nil => rfl
  | cons request rest ih =>
    rw [Performs.runAll, (idle request List.mem_cons_self).perform_eq heap isOpen, Except.bind,
      ih fun other mem => idle other (List.mem_cons_of_mem request mem)]
    rfl

lemma perform_inside (wellFormed : inode.data.WellFormed fs.device)
  (inBounds : request.InBounds inode.data.len) (enough : request.size ≤ fuel)
  (busy : ¬ request.Idle inode) :
  0 < request.size ∧ ∃ filled after,
    perform fuel address fs request = .ok ((request.size, filled), after) := by
  cases request with
  | read buf size ofs =>
    exact ⟨Nat.pos_of_ne_zero busy, _, _,
      inodeReadAt_inside heap isOpen wellFormed.toReadable inBounds buf⟩
  | write buf size ofs =>
    rcases not_or.mp busy with ⟨pos, writable⟩
    rcases inodeWriteAtWith_inside heap isOpen (not_not.mp writable) wellFormed inBounds buf
      with ⟨dev, _, run⟩
    refine ⟨Nat.pos_of_ne_zero pos, buf, { fs with device := dev }, ?_⟩
    exact congrArg (Except.map fun out : ℤ × Fs => ((out.1, buf), out.2))
      (run _ fuel enough)

lemma perform_cleared (cleared : inode.data.size = 0) (wellFormed : inode.data.WellFormed fs.device)
  (busy : ¬ request.Idle inode) {cnt : ℤ} {filled : ℕ → Byte}
  (returned : perform fuel address fs request = .ok ((cnt, filled), after)) : cnt = 0 := by
  cases request with
  | read buf size ofs =>
    rcases Nat.exists_eq_succ_of_ne_zero busy with ⟨less, rfl⟩
    have run := (inodeReadLoop_past isOpen (Nat.succ_pos less)
      (show inode.data.size ≤ (ofs : ℕ) by omega) less buf 0 false).mp returned
    cases run.2
    rfl
  | write buf size ofs =>
    rcases not_or.mp busy with ⟨pos, writable⟩
    rcases Performs.map_eq_ok returned with ⟨out, wrote, _⟩
    rcases inodeWriteAtWith_eq_ok (freeMapAllocate_onlyData fuel) heap isOpen
      (not_not.mp writable) wellFormed wrote with ⟨_, inside, _⟩
    have len : inode.data.len = 0 := by rw [InodeDisk.len, cleared, Int.toNat_zero]
    omega

end

section Removing

variable (heap : fs.HeapOk) (isOpen : fs.inodes address = some inode)
  (wellFormed : inode.data.WellFormed fs.device)
  (removes : inodeRemove address fs = .ok ((), removed))
  (inBounds : ∀ request ∈ requests, request.InBounds inode.data.len)
  (enough : ∀ request ∈ requests, request.size ≤ fuel)

include heap isOpen removes in
lemma inodeRemove_eq_ok : ∃ cleared, removed.HeapOk ∧ removed.inodes address = some cleared ∧
  cleared.denyWriteCnt = inode.denyWriteCnt ∧ cleared.data.size = 0 ∧
  cleared.data.WellFormed removed.device := by
  unfold inodeRemove at removes
  rw [bind_of_ok (derefInode_of_some isOpen)] at removes
  cases removes
  exact ⟨_, heap, update_self _ _ _, rfl, InodeDisk.size_cleared _,
    InodeDisk.wellFormed_cleared _ _⟩

include heap isOpen wellFormed removes inBounds enough in
lemma SameResults.idle (same : SameResults fuel address fs removed requests) :
  ∀ request ∈ requests, request.Idle inode := by
  rcases inodeRemove_eq_ok heap isOpen removes with
    ⟨cleared, heapRemoved, isCleared, denied, size, wellFormedCleared⟩
  induction requests with
  | nil => simp
  | cons request rest ih =>
    rcases same with ⟨results, after, removedAfter, ran, ranRemoved⟩
    rcases Performs.runAll_cons_eq_ok ran with ⟨_, mid, later, done, ranRest, rfl⟩
    rcases Performs.runAll_cons_eq_ok ranRemoved with
      ⟨_, midRemoved, _, doneRemoved, ranRestRemoved, isSame⟩
    cases isSame
    by_cases idle : request.Idle inode
    · rw [idle.perform_eq heap isOpen] at done
      rw [((idle_congr denied).mpr idle).perform_eq heapRemoved isCleared] at doneRemoved
      cases done
      cases doneRemoved
      refine List.forall_mem_cons.mpr ⟨idle, ih ?_ ?_ ⟨_, _, _, ranRest, ranRestRemoved⟩⟩
      · exact fun other mem => inBounds other (List.mem_cons_of_mem request mem)
      · exact fun other mem => enough other (List.mem_cons_of_mem request mem)
    rcases perform_inside heap isOpen wellFormed (inBounds request List.mem_cons_self)
      (enough request List.mem_cons_self) idle with ⟨pos, filled, last, inside⟩
    cases done.symm.trans inside
    have none := perform_cleared heapRemoved isCleared size wellFormedCleared
      (mt (idle_congr denied).mp idle) doneRemoved
    omega

include heap isOpen wellFormed removes inBounds enough in
/-- After `inode_remove` the results are the same just when no request transfers bytes. -/
theorem sameResults_iff :
    SameResults fuel address fs removed requests ↔ ∀ request ∈ requests, request.Idle inode := by
  constructor
  · exact SameResults.idle heap isOpen wellFormed removes inBounds enough
  intro idle
  rcases inodeRemove_eq_ok heap isOpen removes with
    ⟨cleared, heapRemoved, isCleared, denied, _⟩
  exact ⟨_, fs, removed, runAll_idle heap isOpen idle, runAll_idle heapRemoved isCleared
    fun request member => (idle_congr denied).mpr (idle request member)⟩

end Removing

/-- Requests for no bytes return the same after the file has been removed. -/
theorem sameResults_nothing : ∃ removed, inodeRemove 0 (smallFs 1) = .ok ((), removed) ∧
    SameResults 5 0 (smallFs 1) removed [.read (fun _ => 7) 0 1, .write (fun _ => 8) 0 0] := by
  refine ⟨_, rfl, (sameResults_iff (smallFs_heapOk 1) (smallFs_inodes 1) smallFs_wellFormed_one rfl
    ?_ ?_).mpr ?_⟩
  · simp only [InBounds, size, offset]
    decide
  · simp only [size]
    decide
  · simp [Idle]

/-- The byte of a file of one byte cannot be read any more after the file has been removed. -/
theorem not_sameResults_byte : ∃ removed, inodeRemove 0 (smallFs 1) = .ok ((), removed) ∧
    ¬ SameResults 5 0 (smallFs 1) removed [.read (fun _ => 7) 1 0] := by
  refine ⟨_, rfl, fun same => ?_⟩
  have idle := same.idle (smallFs_heapOk 1) (smallFs_inodes 1) smallFs_wellFormed_one rfl
    (by simp only [InBounds, size, offset]; decide)
    (by simp only [size]; decide)
  simp [Idle] at idle

end Request

end Pintos
