import Pintos.Filesys.RootDirectory

/-!
# The root directory of a new file system

When `filesys_init` has formatted the device, the file system is in order: the root
directory lists itself under two names, and nothing else.
-/

namespace Pintos

open Pintos.Computation

variable {fs after : Fs} {live : Set ℕ} {holds : ℕ → ℕ} {addr fuel : ℕ} {val : Unit}
  {mem : ℕ → Word}

section Steady

lemma fileOpen_steady (fuel : ℕ) (ino : Option ℕ) : Preserves Fs.Steady (fileOpen fuel ino) :=
  fileOpen_preserves malloc_steady inodeClose_steady fuel ino

lemma freeMapCreate_steady (fuel : ℕ) : Preserves Fs.Steady (freeMapCreate fuel) := by
  have writeKeeps : ∀ addr buf size ofs,
      Preserves Fs.OnlyData (inodeWriteAt fuel addr buf size ofs) :=
    fun addr buf size ofs => inodeWriteAt_onlyData fuel addr buf size ofs
  refine .bind (.reads _) fun _ => .bind (steady_of_onlyData (inodeCreate_onlyData _ _ _))
    fun _ => .ite (.bind (inodeOpen_steady _) fun _ => .bind (fileOpen_steady _ _) fun file =>
      .bind (.updates fun _ => ⟨rfl, id⟩) fun _ => ?_) (.stop _)
  cases file with
  | none => exact .stop _
  | some file =>
    exact .bind (.reads _) fun _ =>
      .bind (steady_of_onlyData (bitmapWrite_preserves writeKeeps _ _)) fun _ =>
        .ite (.pure _) (.stop _)

lemma dirCreate_steady (fuel : ℕ) (sec : Word) (entryCnt : ℕ) :
  Preserves Fs.Steady (dirCreate fuel sec entryCnt) := by
  have firstSteady : Preserves Fs.Steady (dirCreateFirst fuel sec entryCnt) :=
    .bind (steady_of_onlyData (inodeCreate_onlyData _ _ _)) fun _ =>
      .bind (inodeOpen_steady _) fun _ =>
        .bind (dirOpen_preserves malloc_steady inodeClose_steady fuel _) fun _ => .pure _
  refine .bind firstSteady fun made => ?_
  rcases made with ⟨_, _ | dir⟩
  · exact .stop _
  · exact .bind (dirAdd_steady _ _ _ _) fun _ => .bind (dirAdd_steady _ _ _ _) fun _ => .pure _

lemma bitmapRead_onlyData (bitmap : Bitmap) (file : File) :
  Preserves Fs.OnlyData (bitmapRead bitmap file) :=
  .ite (.bind (inodeReadLoop_preserves malloc_onlyData _ _ _ _ _ _ _) fun _ => .pure _) (.pure _)

lemma bitmapRead_untouched (bitmap : Bitmap) (file : File) :
  Preserves Fs.Untouched (bitmapRead bitmap file) :=
  .ite (.bind (inodeReadAt_untouched _ _ _ _) fun _ => .pure _) (.pure _)

lemma freeMapOpen_steady (fuel : ℕ) : Preserves Fs.Steady (freeMapOpen fuel) := by
  refine .bind (inodeOpen_steady _) fun _ => .bind (fileOpen_steady _ _) fun file =>
    .bind (.updates fun _ => ⟨rfl, id⟩) fun _ => ?_
  cases file with
  | none => exact .stop _
  | some file =>
    exact .bind (.reads _) fun _ => .bind (steady_of_onlyData (bitmapRead_onlyData _ _)) fun _ =>
      .bind (.updates fun _ => ⟨rfl, id⟩) fun _ => .ite (.pure _) (.stop _)

end Steady

def rootEntries : List (List Byte × Word) :=
  [(dotName, rootDirSector), (dotDotName, rootDirSector)]

def ownEntries (number : Word) : List (List Byte × Word) :=
  [(dotName, number), (dotDotName, number)]

lemma Created.lists {hdr length : ℕ} {final : InodeDisk}
  (created : Created fs after hdr (newInodeDisk length) final 0 ((length + 511) / 512))
  (direct : length ≤ 123 * 512) :
  (after.diskAt hdr).len = length ∧ (after.diskAt hdr).Lists after.device [] := by
  have len : final.len = length := by
    rw [InodeDisk.len, created.size_eq direct, Int.toNat_natCast]
  rw [created.diskAt_eq]
  refine ⟨len, Nat.zero_le _, fun _ member => absurd member List.not_mem_nil,
    fun step entry isEntry => by simp at isEntry, ?_⟩
  intro step _ slotFits
  have zero : final.contents after.device (20 * step + 19) = 0 := by
    change (after.device.sectors (final.dataSector ((20 * step + 19) / 512))).bytes _ = 0
    rw [created.zeroed _ (Nat.zero_le _) (by omega)]
    exact Sector.zeros_bytes _
  simpa [DirEntry.inUse, InodeDisk.entryAt, overlay, dirEntrySize] using zero

lemma Owned.lists_of_dirCreate {entryCnt : ℕ} {num : Word} (owned : Owned fs live holds)
  (fileHeld : fs.FileHeld) (noneRemoved : fs.NoneRemoved) (new : NewHeader fs num.toNat)
  (foreign : ∀ other ∈ live, ¬ fs.Owns other num.toNat) (direct : entryCnt * 20 ≤ 123 * 512)
  (returned : dirCreate fuel num entryCnt fs = .ok (true, after)) :
  Owned after (insert num.toNat live) holds ∧ fs.Keeps after ∧
    after.freeMapFile = fs.freeMapFile ∧ (after.diskAt num.toNat).len = entryCnt * 20 ∧
    (after.diskAt num.toNat).Lists after.device (ownEntries num) ∧
    ∀ header ∈ live, header ≠ 0 → fs.SameInode after header := by
  rcases dirCreate_eq_ok returned with ⟨created, create, opening⟩
  rcases inodeCreate_eq_ok (owned.mapReady fileHeld) new direct create with
    ⟨_, final, whole⟩ | ⟨impossible, _⟩
  · have notLive : num.toNat ∉ live := fun isLive => foreign _ isLive (fs.owns_header _)
    have isNew : num.toNat ∈ insert num.toNat live := Set.mem_insert _ _
    have ownedCreated := owned.of_created (owned.not_mapSector fileHeld) new foreign whole direct
    have noneCreated := whole.onlyData.steady.noneRemoved noneRemoved
    rcases whole.lists direct with ⟨len, lists⟩
    rcases bind_eq_ok opening with ⟨_, opened, isOpening, filling⟩
    have noneOpened := (inodeOpen_steady num isOpening).noneRemoved noneCreated
    rcases ownedCreated.of_inodeOpen isNew isOpening with
      ⟨place, rfl, ownedOpened, keepsOpened, device, _, file, ino, isOpen, rfl⟩
    have sameOpened : ∀ header, created.SameInode opened header := fun _ => .of_device device
    have adding := (bind_of_ok (dirOpen_of_heapOk ownedOpened.heap fuel place)).symm.trans filling
    rcases bind_eq_ok adding with ⟨_, first, addDot, addingSecond⟩
    rcases bind_eq_ok addingSecond with ⟨_, second, addDotDot, finish⟩
    cases finish
    have noneFirst := (dirAdd_steady _ _ _ _ addDot).noneRemoved noneOpened
    rcases ownedOpened.of_dirAdd isOpen isNew addDot with
      ⟨ownedFirst, keepsFirst, _, fileFirst, othersFirst⟩
    rcases ownedOpened.lists_of_dirAdd isOpen (noneOpened _ _ isOpen)
      (by rw [(sameOpened _).diskAt_eq, device]; exact lists) (by decide) (by decide) (by decide)
      (by simp) isNew addDot with ⟨_, diskFirst, listsFirst⟩
    rcases keepsFirst place ino isOpen with ⟨changed, isChanged, sec, _⟩
    rw [← sec] at listsFirst
    rcases ownedFirst.of_dirAdd isChanged isNew addDotDot with
      ⟨ownedSecond, keepsSecond, _, fileSecond, othersSecond⟩
    rcases ownedFirst.lists_of_dirAdd isChanged (noneFirst _ _ isChanged) listsFirst (by decide)
      (by decide) (by decide) (by simp [dotName, dotDotName]) isNew addDotDot
      with ⟨_, diskSecond, listsSecond⟩
    rw [sec] at othersSecond diskSecond listsSecond
    refine ⟨ownedSecond.mono (le_hold holds place), ?_, ?_, ?_, listsSecond, ?_⟩
    · exact IsTrans.trans _ _ _ whole.onlyData.keeps (IsTrans.trans _ _ _ keepsOpened
        (IsTrans.trans _ _ _ keepsFirst keepsSecond))
    · exact fileSecond.trans (fileFirst.trans (file.trans whole.onlyData.freeMapFile_eq))
    · rw [diskSecond, diskFirst, (sameOpened _).diskAt_eq, len]
    intro header isLive notMap
    have differs : header ≠ ino.sector.toNat := fun same => notLive (same ▸ isLive)
    exact ((owned.sameInode_of_leaked fileHeld foreign (.of_created whole) isLive notMap).trans
      (sameOpened header)).trans
        ((ownedOpened.sameInode_of_written isNew othersFirst (Or.inr isLive) differs).trans
          (ownedFirst.sameInode_of_written isNew othersSecond (Or.inr isLive) differs))
  · cases impossible

lemma dirCreate_orderly (owned : Owned fs live holds) (kept : fs.MapKept addr)
  (noneRemoved : fs.NoneRemoved) (new : NewHeader fs 1)
  (foreign : ∀ other ∈ live, ¬ fs.Owns other 1)
  (returned : dirCreate fuel rootDirSector 16 fs = .ok (true, after)) :
  Orderly after (insert 1 live) holds addr rootEntries := by
  have newRoot : NewHeader fs rootDirSector.toNat := new
  rcases owned.of_dirCreate kept newRoot foreign (by decide) returned with ⟨ownedAfter, keptAfter⟩
  rcases owned.lists_of_dirCreate kept.fileHeld noneRemoved newRoot foreign (by decide) returned
    with ⟨_, _, _, len, lists, _⟩
  refine ⟨ownedAfter, keptAfter.toFileIntact, keptAfter.map_le ownedAfter,
    (dirCreate_steady _ _ _ returned).noneRemoved noneRemoved, Set.mem_insert _ _, len, lists, ?_⟩
  intro entry member
  rcases List.mem_cons.mp member with rfl | second
  · exact Set.mem_insert _ _
  rw [List.mem_singleton.mp second]
  exact Set.mem_insert _ _

lemma freeMapClose_sameDevice (kept : fs.MapKept addr)
  (ran : freeMapClose fuel fs = .ok (val, after)) : fs.SameDevice after ∧ fs.Steady after := by
  rcases kept.inode with ⟨ino, isOpen, _, notRemoved⟩
  rw [freeMapClose, reads_bind_apply, kept.file] at ran
  have closing : inodeClose fuel addr fs = .ok (val, after) := ran
  refine ⟨?_, inodeClose_steady fuel addr closing⟩
  rw [Fs.inodeClose_closed isOpen notRemoved] at closing
  cases closing
  exact Fs.sameDevice_closed fs addr ino

lemma freeMapOpen_intact (owned : Owned fs live holds) (isLive : 0 ∈ live)
  (noneRemoved : fs.NoneRemoved) (ran : freeMapOpen fuel fs = .ok (val, after)) :
  after.device = fs.device ∧ after.NoneRemoved ∧ ∃ place, after.FileIntact place := by
  have noneAfter := (freeMapOpen_steady fuel ran).noneRemoved noneRemoved
  rcases owned.open_map isLive with
    ⟨place, opened, ino, run, ownedOpen, isFile, isOpen, sec, dev, _⟩
  rcases bind_eq_ok
    (show (bitmapRead opened.freeMap _ >>= _) opened = _ from (run fuel _).symm.trans ran)
    with ⟨⟨success, newMap⟩, mid, read, finish⟩
  have untouched := bitmapRead_untouched _ _ read ownedOpen.heap
  subst untouched
  cases success with
  | false => cases finish
  | true =>
    cases finish
    exact ⟨dev, noneAfter, place, isFile, ino, isOpen, sec, noneAfter place ino isOpen⟩

lemma doFormat_orderly (owned : Owned fs ∅ fun _ => 0) (noFile : fs.freeMapFile = none)
  (noneRemoved : fs.NoneRemoved)
  (used : ∀ sec, sec < fs.device.size → (fs.Used sec ↔ sec = 0 ∨ sec = 1))
  (spare : fs.device.size ≤ fs.freeSectors.card + 2) (ran : doFormat fuel fs = .ok (val, after)) :
  ∃ rooted live holds addr, Orderly rooted live holds addr rootEntries ∧
    rooted.SameDevice after ∧ after.NoneRemoved := by
  rcases bind_eq_ok ran with ⟨_, mapped, createMap, rooting⟩
  rcases freeMapCreate_eq_ok owned noFile (fun pos => (used 0 pos).mpr (Or.inl rfl)) spare
    createMap with ⟨addr, created⟩
  have noneMapped := (freeMapCreate_steady fuel createMap).noneRemoved noneRemoved
  rcases bind_eq_ok rooting with ⟨success, rooted, createRoot, closing⟩
  cases success with
  | false => simp at closing
  | true =>
    have oneLt : 1 < fs.device.size := by
      rcases dirCreate_eq_ok createRoot with ⟨_, create, _⟩
      have lt := inodeCreate_header_lt created.owned.heap create
      rwa [created.size_eq] at lt
    rcases created.root_header (owned.bitCnt_eq.symm ▸ oneLt) ((used 1 oneLt).mpr (Or.inr rfl))
      with ⟨new, foreign⟩
    have orderly := dirCreate_orderly created.owned created.kept noneMapped new foreign createRoot
    rcases created.owned.of_dirCreate created.kept new foreign (by omega) createRoot with
      ⟨_, keptRoot⟩
    rcases freeMapClose_sameDevice keptRoot closing with ⟨same, steady⟩
    exact ⟨rooted, _, _, addr, orderly, same, steady.noneRemoved orderly.noneRemoved⟩

lemma filesysInit_formats (booting : Booting fs)
  (returned : filesysInit fuel mem true fs = .ok (val, after)) :
  ∃ formatted opened rooted live holds addr, Owned formatted {1, 0} (fun _ => 0) ∧
    formatted.NoneRemoved ∧ Orderly rooted live holds addr rootEntries ∧
    rooted.SameDevice formatted ∧ freeMapOpen fuel formatted = .ok ((), opened) ∧
    after = { opened with i := 0 } := by
  have initialized := freeMapInit_of_heapOk
    (show ({ fs with openInodes := [] } : Fs).HeapOk from booting.heap) mem
  replace returned := (bind_of_ok initialized).symm.trans returned
  rcases bind_eq_ok returned with ⟨_, formatted, format, opening⟩
  rcases bind_eq_ok opening with ⟨_, opened, openMap, finish⟩
  cases finish
  have owned := owned_initialized booting mem
  have used : ∀ sec, sec < fs.device.size →
      ((fs.initialized mem).Used sec ↔ sec = 0 ∨ sec = 1) :=
    fun sec bound => bitmapTest_initialMap mem bound
  have noneBooting : (fs.initialized mem).NoneRemoved := by
    intro addr ino isOpen
    rw [show (fs.initialized mem).inodes addr = none from booting.noInodes addr] at isOpen
    cases isOpen
  rcases doFormat_eq_ok owned booting.noFile used (card_freeSectors_initialized fs mem) format
    with ⟨ownedFormatted, _⟩
  rcases doFormat_orderly owned booting.noFile noneBooting used
    (card_freeSectors_initialized fs mem) format with
    ⟨rooted, live, holds, addr, orderly, same, noneFormatted⟩
  exact ⟨formatted, opened, rooted, live, holds, addr, ownedFormatted, noneFormatted, orderly,
    same, openMap, rfl⟩

lemma filesysInit_orderly (booting : Booting fs)
  (returned : filesysInit fuel mem true fs = .ok (val, after)) :
  ∃ place, Orderly after {1, 0} (fun _ => 0) place rootEntries ∧ after.i = 0 := by
  rcases filesysInit_formatted booting returned with ⟨_, _, ownedAfter, _⟩
  rcases filesysInit_formats booting returned with
    ⟨formatted, opened, rooted, live, holds, addr, ownedFormatted, noneFormatted, orderly, same,
      openMap, rfl⟩
  rcases freeMapOpen_intact ownedFormatted (Or.inr rfl) noneFormatted openMap with
    ⟨device, noneRemoved, place, intact⟩
  have sameDev := device.trans same.device_eq
  have sameIno : ∀ header, rooted.SameInode opened header :=
    fun header => .of_device sameDev
  refine ⟨place, ⟨ownedAfter.mono fun _ => Nat.zero_le _, ⟨intact.file, intact.inode⟩, ?_,
    noneRemoved, Or.inl rfl, ?_, ?_, ?_⟩, rfl⟩
  · have bitCnt : opened.freeMap.bitCnt = rooted.freeMap.bitCnt := by
      rw [orderly.owned.bitCnt_eq, ← sameDev]
      exact ownedAfter.bitCnt_eq
    change byteCnt opened.freeMap.bitCnt ≤ (opened.diskAt 0).len
    rw [bitCnt, (sameIno 0).diskAt_eq]
    exact orderly.map_le
  · exact (congrArg InodeDisk.len (sameIno 1).diskAt_eq).trans orderly.root_len
  · change (opened.diskAt 1).Lists opened.device rootEntries
    rw [(sameIno 1).diskAt_eq, sameDev]
    exact orderly.lists
  intro entry member
  rcases List.mem_cons.mp member with rfl | second
  · exact Or.inl rfl
  rw [List.mem_singleton.mp second]
  exact Or.inl rfl

end Pintos
