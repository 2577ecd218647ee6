import Pintos.Filesys.Allocation

/-!
# Creating an inode

`inode_create` allocates one sector at a time and rewrites the header after each
allocation. For a file that fits in the `123` direct sectors it either fills the
header with fresh, pairwise distinct, zeroed sectors, or it runs out of sectors
and leaves what it allocated marked used. For a longer file it takes sector
numbers for addresses and stops with a fault.
-/

namespace Pintos

open Pintos.Computation

variable {fs after middle : Fs} {hdr last first sector fuel secSave i : ℕ}
  {disk final : InodeDisk} {res : Bool} {num : Word}

namespace InodeDisk

lemma sectorAt_setSector_self (disk : InodeDisk) {idx : ℕ} (bound : idx < 125)
  (sector : Word) : (disk.setSector idx sector).sectorAt idx = some sector := by
  simp [sectorAt, setSector, bound]

lemma sectorAt_setSector_of_ne (disk : InodeDisk) {idx other : ℕ} (ne : other ≠ idx)
  (sector : Word) : (disk.setSector idx sector).sectorAt other = disk.sectorAt other := by
  unfold sectorAt
  split
  · simp [setSector, ne]
  · rfl

end InodeDisk

/-- Data sectors `first` to `last` of a new inode have been allocated and zeroed, and its header
holds the inode `final`. -/
structure Created (fs after : Fs) (header : ℕ) (disk final : InodeDisk) (first last : ℕ) :
    Prop where
  onlyData : fs.OnlyData after
  start_eq : final.start = disk.start
  length_eq : final.length = disk.length
  kept : ∀ slot, slot < first → final.sectorAt slot = disk.sectorAt slot
  header_eq : after.device.sectors header = final.encode
  lt : ∀ block, first ≤ block → block < last → final.dataSector block < fs.freeMap.bitCnt
  fresh : ∀ block, first ≤ block → block < last → ¬ fs.Used (final.dataSector block)
  inj : ∀ left right, first ≤ left → left < last → first ≤ right → right < last →
    final.dataSector left = final.dataSector right → left = right
  zeroed : ∀ block, first ≤ block → block < last →
    after.device.sectors (final.dataSector block) = .zeros
  used_iff : ∀ other, after.Used other ↔
    fs.Used other ∨ ∃ block, first ≤ block ∧ block < last ∧ final.dataSector block = other
  sectors_eq : ∀ other, ¬ fs.MapSector other → other ≠ header →
    (∀ block, first ≤ block → block < last → final.dataSector block ≠ other) →
      after.device.sectors other = fs.device.sectors other
  recorded : fs.Recorded → after.Recorded

namespace Created

lemma refl (fs : Fs) (disk : InodeDisk) (first : ℕ)
  (hdrEq : fs.device.sectors hdr = disk.encode) :
  Created fs fs hdr disk disk first first where
  onlyData := Std.Refl.refl _
  start_eq := rfl
  length_eq := rfl
  kept _ _ := rfl
  header_eq := hdrEq
  lt blk lower upper := by omega
  fresh blk lower upper := by omega
  inj left right lower upper := by omega
  zeroed blk lower upper := by omega
  used_iff other := by
    constructor
    · exact Or.inl
    rintro (used | ⟨blk, lower, upper, _⟩)
    · exact used
    · omega
  sectors_eq _ _ _ _ := rfl
  recorded := id

lemma mapReady (created : Created fs after hdr disk final first last) (ready : fs.MapReady) :
  after.MapReady := by
  refine ready.of_onlyData created.onlyData ?_
  intro sector isMap
  rw [created.used_iff]
  exact Or.inl (ready.file_used sector isMap)

lemma dataSector_kept {slot : ℕ} (created : Created fs after hdr disk final first last)
  (pre : slot < first) : final.dataSector slot = disk.dataSector slot := by
  unfold InodeDisk.dataSector
  rw [created.kept slot pre]

lemma trans {half : InodeDisk} {mid : ℕ} (ready : fs.MapReady) (hdrUsed : fs.Used hdr)
  (lower : first ≤ mid) (upper : mid ≤ last) (left : Created fs middle hdr disk half first mid)
  (right : Created middle after hdr half final mid last) :
  Created fs after hdr disk final first last := by
  have prior : ∀ blk, blk < mid → final.dataSector blk = half.dataSector blk :=
    fun blk pre => right.dataSector_kept pre
  have priorUsed : ∀ blk, first ≤ blk → blk < mid →
      middle.Used (final.dataSector blk) := by
    intro blk lowerBlk upperBlk
    rw [prior blk upperBlk, left.used_iff]
    exact Or.inr ⟨blk, lowerBlk, upperBlk, rfl⟩
  have fresh : ∀ blk, first ≤ blk → blk < last → ¬ fs.Used (final.dataSector blk) := by
    intro blk lowerBlk upperBlk used
    by_cases pre : blk < mid
    · rw [prior blk pre] at used
      exact left.fresh blk lowerBlk pre used
    · exact right.fresh blk (by omega) upperBlk ((left.used_iff _).mpr (Or.inl used))
  refine
    { onlyData := IsTrans.trans _ _ _ left.onlyData right.onlyData
      start_eq := right.start_eq.trans left.start_eq
      length_eq := right.length_eq.trans left.length_eq
      kept := ?_
      header_eq := right.header_eq
      lt := ?_
      fresh := fresh
      inj := ?_
      zeroed := ?_
      used_iff := ?_
      sectors_eq := ?_
      recorded := right.recorded ∘ left.recorded }
  · intro slot pre
    rw [right.kept slot (by omega), left.kept slot pre]
  · intro blk lowerBlk upperBlk
    by_cases pre : blk < mid
    · rw [prior blk pre]
      exact left.lt blk lowerBlk pre
    rw [← left.onlyData.bitCnt_eq]
    exact right.lt blk (by omega) upperBlk
  · intro one two oneLower oneUpper twoLower twoUpper same
    by_cases oneBefore : one < mid
    · by_cases twoBefore : two < mid
      · rw [prior one oneBefore, prior two twoBefore] at same
        exact left.inj one two oneLower oneBefore twoLower twoBefore same
      have used := priorUsed one oneLower oneBefore
      rw [same] at used
      exact absurd used (right.fresh two (by omega) twoUpper)
    by_cases twoBefore : two < mid
    · have used := priorUsed two twoLower twoBefore
      rw [← same] at used
      exact absurd used (right.fresh one (by omega) oneUpper)
    · exact right.inj one two (by omega) oneUpper (by omega) twoUpper same
  · intro blk lowerBlk upperBlk
    by_cases pre : blk < mid
    · have free := fresh blk lowerBlk upperBlk
      rw [right.sectors_eq]
      · rw [prior blk pre]
        exact left.zeroed blk lowerBlk pre
      · rw [left.onlyData.mapSector_iff]
        exact fun isMap => free (ready.file_used _ isMap)
      · rintro rfl
        exact free hdrUsed
      intro other otherLower otherUpper same
      have used := priorUsed blk lowerBlk pre
      rw [← same] at used
      exact right.fresh other otherLower otherUpper used
    · exact right.zeroed blk (by omega) upperBlk
  · intro other
    rw [right.used_iff, left.used_iff, or_assoc]
    apply or_congr_right
    constructor
    · rintro (⟨blk, lowerBlk, upperBlk, same⟩ | ⟨blk, lowerBlk, upperBlk, same⟩)
      · exact ⟨blk, lowerBlk, by omega, by rw [prior blk upperBlk, same]⟩
      · exact ⟨blk, by omega, upperBlk, same⟩
    rintro ⟨blk, lowerBlk, upperBlk, same⟩
    by_cases pre : blk < mid
    · exact Or.inl ⟨blk, lowerBlk, pre, by rw [← prior blk pre, same]⟩
    · exact Or.inr ⟨blk, by omega, upperBlk, same⟩
  intro other notMap notHdr notFresh
  rw [right.sectors_eq other, left.sectors_eq other notMap notHdr]
  · intro blk lowerBlk upperBlk
    rw [← prior blk upperBlk]
    exact notFresh blk lowerBlk (by omega)
  · rw [left.onlyData.mapSector_iff]
    exact notMap
  · exact notHdr
  intro blk lowerBlk upperBlk
  exact notFresh blk (by omega) upperBlk

end Created

/-- Sectors may have been allocated and the header rewritten, but no other sector in use has
changed, apart from those of the free map. -/
structure Leaked (fs after : Fs) (header : ℕ) : Prop where
  onlyData : fs.OnlyData after
  used : ∀ other, fs.Used other → after.Used other
  sectors_eq : ∀ other, fs.Used other → ¬ fs.MapSector other → other ≠ header →
    after.device.sectors other = fs.device.sectors other

namespace Leaked

lemma refl (fs : Fs) (hdr : ℕ) : Leaked fs fs hdr :=
  ⟨Std.Refl.refl _, fun _ => id, fun _ _ _ _ => rfl⟩

lemma trans (left : Leaked fs middle hdr) (right : Leaked middle after hdr) :
  Leaked fs after hdr where
  onlyData := IsTrans.trans _ _ _ left.onlyData right.onlyData
  used other isUsed := right.used other (left.used other isUsed)
  sectors_eq other isUsed notMap notHdr := by
    rw [right.sectors_eq other (left.used other isUsed) _ notHdr,
      left.sectors_eq other isUsed notMap notHdr]
    rw [left.onlyData.mapSector_iff]
    exact notMap

lemma of_allocated (alloc : Allocated fs after sector) (hdr : ℕ) :
  Leaked fs after hdr where
  onlyData := alloc.onlyData
  used other isUsed := (alloc.used_iff other).mpr (Or.inr isUsed)
  sectors_eq other _ notMap _ := alloc.sectors_eq other notMap

lemma of_created (created : Created fs after hdr disk final first last) :
  Leaked fs after hdr where
  onlyData := created.onlyData
  used other isUsed := (created.used_iff other).mpr (Or.inl isUsed)
  sectors_eq other isUsed notMap notHdr := by
    refine created.sectors_eq other notMap notHdr ?_
    rintro blk lower upper rfl
    exact created.fresh blk lower upper isUsed

lemma mapReady (leaked : Leaked fs after hdr) (ready : fs.MapReady) : after.MapReady :=
  ready.of_onlyData leaked.onlyData fun sector isMap =>
    leaked.used sector (ready.file_used sector isMap)

lemma of_freeMapAllocate (ready : fs.MapReady) {res : Option Word}
  (ran : freeMapAllocate fuel 1 fs = .ok (res, after)) (hdr : ℕ) :
  Leaked fs after hdr := by
  rcases freeMapAllocate_eq_ok ready ran with ⟨_, rfl, _⟩ | ⟨sector, _, alloc⟩
  · exact .refl _ hdr
  · exact .of_allocated alloc hdr

end Leaked

structure NewHeader (fs : Fs) (header : ℕ) : Prop where
  lt : header < fs.freeMap.bitCnt
  used : fs.Used header
  notMap : ¬ fs.MapSector header

lemma Allocated.newHeader (alloc : Allocated fs after sector) (ready : fs.MapReady) :
  NewHeader after sector where
  lt := by
    rw [alloc.onlyData.bitCnt_eq]
    exact alloc.lt
  used := (alloc.used_iff sector).mpr (Or.inl rfl)
  notMap := by
    rw [alloc.onlyData.mapSector_iff]
    exact fun isMap => alloc.free (ready.file_used sector isMap)

lemma NewHeader.of_leaked (new : NewHeader fs hdr) (leaked : Leaked fs after hdr) :
  NewHeader after hdr where
  lt := by
    rw [leaked.onlyData.bitCnt_eq]
    exact new.lt
  used := leaked.used hdr new.used
  notMap := by
    rw [leaked.onlyData.mapSector_iff]
    exact new.notMap

lemma created_round (ready : fs.MapReady) (new : NewHeader fs hdr) (disk : InodeDisk)
  (alloc : Allocated fs middle sector) (direct : i < 125) :
  Created fs ((middle.writeSector sector .zeros).writeSector hdr
      (disk.setSector i (BitVec.ofNat 32 sector)).encode)
    hdr disk (disk.setSector i (BitVec.ofNat 32 sector)) i (i + 1) := by
  have sizeLe := ready.size_le
  have bitCnt := ready.bitCnt_eq
  have lt := alloc.lt
  have num : (disk.setSector i (BitVec.ofNat 32 sector)).dataSector i = sector := by
    rw [InodeDisk.dataSector, InodeDisk.sectorAt_setSector_self disk direct, Option.getD_some,
      BitVec.toNat_ofNat, Nat.mod_eq_of_lt (by omega)]
  have only : ∀ blk, i ≤ blk → blk < i + 1 →
      (disk.setSector i (BitVec.ofNat 32 sector)).dataSector blk = sector := by
    intro blk lower upper
    rw [show blk = i by omega, num]
  have notMap : ¬ fs.MapSector sector := fun isMap => alloc.free (ready.file_used _ isMap)
  have notHdr : sector ≠ hdr := by
    rintro rfl
    exact alloc.free new.used
  have writes := IsTrans.trans _ _ _ (middle.onlyData_writeSector sector .zeros)
    (Fs.onlyData_writeSector _ hdr (disk.setSector i (BitVec.ofNat 32 sector)).encode)
  refine
    { onlyData := IsTrans.trans _ _ _ alloc.onlyData writes
      start_eq := rfl
      length_eq := rfl
      kept := ?_
      header_eq := Block.write_sectors_self _ _ _
      lt := ?_
      fresh := ?_
      inj := ?_
      zeroed := ?_
      used_iff := ?_
      sectors_eq := ?_
      recorded := ?_ }
  · intro slot pre
    exact InodeDisk.sectorAt_setSector_of_ne disk (by omega) _
  · intro blk lower upper
    rw [only blk lower upper]
    exact lt
  · intro blk lower upper
    rw [only blk lower upper]
    exact alloc.free
  · intro left right _ _ _ _ _
    omega
  · intro blk lower upper
    rw [only blk lower upper]
    change ((middle.device.write sector .zeros).write hdr _).sectors sector = .zeros
    rw [Block.write_sectors_of_ne _ _ notHdr, Block.write_sectors_self]
  · intro other
    change middle.Used other ↔ _
    rw [alloc.used_iff]
    constructor
    · rintro (rfl | used)
      · exact Or.inr ⟨i, le_rfl, by omega, num⟩
      · exact Or.inl used
    rintro (used | ⟨blk, lower, upper, rfl⟩)
    · exact Or.inr used
    · exact Or.inl (only blk lower upper)
  · intro other otherNotMap otherNotHdr notFresh
    have ne : other ≠ sector := by
      rintro rfl
      exact notFresh i le_rfl (by omega) num
    change ((middle.device.write sector .zeros).write hdr _).sectors other = _
    rw [Block.write_sectors_of_ne _ _ otherNotHdr, Block.write_sectors_of_ne _ _ ne]
    exact alloc.sectors_eq other otherNotMap
  intro _
  refine alloc.recorded.of_sectors (alloc.mapReady ready) writes rfl ?_
  intro other isMap
  rw [alloc.onlyData.mapSector_iff] at isMap
  change ((middle.device.write sector .zeros).write hdr _).sectors other = _
  rw [Block.write_sectors_of_ne, Block.write_sectors_of_ne]
  · rintro rfl
    exact notMap isMap
  rintro rfl
  exact new.notMap isMap

lemma inodeCreateLoop_allocated (ready : fs.MapReady) (new : NewHeader fs num.toNat)
  (alloc : Allocated fs middle sector) (direct : i < 123)
  (ran : freeMapAllocate fuel 1 fs = .ok (some (BitVec.ofNat 32 sector), middle)) :
  inodeCreateLoop fuel num (secSave + 1) i disk fs =
    inodeCreateLoop fuel num secSave (i + 1) (disk.setSector i (BitVec.ofNat 32 sector))
      ((middle.writeSector sector .zeros).writeSector num.toNat
        (disk.setSector i (BitVec.ofNat 32 sector)).encode) := by
  have sizeLe := ready.size_le
  have bitCnt := ready.bitCnt_eq
  have size := alloc.onlyData.size_eq
  have lt := alloc.lt
  have hdrLt := new.lt
  have secNum : (BitVec.ofNat 32 sector).toNat = sector := by
    rw [BitVec.toNat_ofNat, Nat.mod_eq_of_lt (by omega)]
  have zeroing : blockWrite (some (BitVec.ofNat 32 sector)) .zeros middle =
      .ok ((), middle.writeSector sector .zeros) := by
    rw [blockWrite_of_lt (by omega), secNum]
  have entering : blockWrite (some num) (disk.setSector i (BitVec.ofNat 32 sector)).encode
      (middle.writeSector sector .zeros) = .ok ((), (middle.writeSector sector .zeros).writeSector
        num.toNat (disk.setSector i (BitVec.ofNat 32 sector)).encode) :=
    blockWrite_of_lt (show num.toNat < middle.device.size by omega)
  rw [inodeCreateLoop, bind_of_ok ran]
  simp only [storeSector, Option.isSome_some, true_and, direct, if_true,
    InodeDisk.sectorAt_setSector_self disk (show i < 125 by omega)]
  rw [bind_of_ok zeroing, bind_of_ok entering]

lemma inodeCreateLoop_direct (ready : fs.MapReady) (new : NewHeader fs num.toNat)
  (hdrEq : fs.device.sectors num.toNat = disk.encode) (direct : i + secSave ≤ 123)
  (ran : inodeCreateLoop fuel num secSave i disk fs = .ok (res, after)) :
  (res = true ∧ ∃ final, Created fs after num.toNat disk final i (i + secSave)) ∨
    (res = false ∧ Leaked fs after num.toNat) := by
  induction secSave generalizing fs i disk with
  | zero =>
    cases ran
    exact Or.inl ⟨rfl, disk, .refl _ disk i hdrEq⟩
  | succ secSave ih =>
    have opened := ran
    obtain ⟨first, middle, firstRan, rest⟩ := bind_eq_ok opened
    rcases freeMapAllocate_eq_ok ready firstRan with
      ⟨rfl, rfl, full⟩ | ⟨sector, rfl, alloc⟩
    · right
      obtain ⟨second, later, secondRan, rest⟩ := bind_eq_ok rest
      have secondLeak := Leaked.of_freeMapAllocate ready secondRan num.toNat
      rw [if_neg (by omega)] at rest
      obtain ⟨third, last, thirdRan, rest⟩ := bind_eq_ok rest
      have thirdLeak := Leaked.of_freeMapAllocate (secondLeak.mapReady ready) thirdRan
        num.toNat
      rw [if_neg (by omega)] at rest
      cases rest
      exact ⟨rfl, secondLeak.trans thirdLeak⟩
    rw [inodeCreateLoop_allocated ready new alloc (by omega) firstRan] at ran
    have round := created_round ready new disk alloc (show i < 125 by omega)
    have leak := Leaked.of_created round
    rcases ih (round.mapReady ready) (new.of_leaked leak) round.header_eq (by omega)
      ran with ⟨rfl, final, others⟩ | ⟨rfl, failed⟩
    · refine Or.inl ⟨rfl, final, ?_⟩
      rw [show i + (secSave + 1) = i + 1 + secSave by omega]
      exact round.trans ready new.used (by omega) (by omega) others
    · exact Or.inr ⟨rfl, leak.trans failed⟩

def Fs.freeSectors (fs : Fs) : Finset ℕ :=
  (Finset.range fs.freeMap.bitCnt).filter fun sector => bitmapTest fs.freeMap sector = false

lemma Fs.mem_freeSectors :
  sector ∈ fs.freeSectors ↔ sector < fs.freeMap.bitCnt ∧ ¬ fs.Used sector := by
  simp [freeSectors, Used]

lemma freeSectors_card_of_used_iff (lt : sector < fs.freeMap.bitCnt) (free : ¬ fs.Used sector)
  (bitCnt : after.freeMap.bitCnt = fs.freeMap.bitCnt)
  (usedIff : ∀ other, after.Used other ↔ other = sector ∨ fs.Used other) :
  fs.freeSectors.card = after.freeSectors.card + 1 := by
  have erased : after.freeSectors = fs.freeSectors.erase sector := by
    ext other
    rw [Finset.mem_erase, Fs.mem_freeSectors, Fs.mem_freeSectors, bitCnt, usedIff]
    tauto
  rw [erased, Finset.card_erase_add_one (Fs.mem_freeSectors.mpr ⟨lt, free⟩)]

lemma Allocated.card (alloc : Allocated fs after sector) :
  fs.freeSectors.card = after.freeSectors.card + 1 :=
  freeSectors_card_of_used_iff alloc.lt alloc.free alloc.onlyData.bitCnt_eq
    alloc.used_iff

lemma Created.card_le (created : Created fs after hdr disk final 0 last) :
  fs.freeSectors.card ≤ after.freeSectors.card + last := by
  have subset : fs.freeSectors ⊆
      after.freeSectors ∪ (Finset.range last).image final.dataSector := by
    intro sector mem
    rw [Fs.mem_freeSectors] at mem
    rw [Finset.mem_union, Fs.mem_freeSectors, Finset.mem_image, created.onlyData.bitCnt_eq,
      created.used_iff]
    by_cases isNew : ∃ blk ∈ Finset.range last, final.dataSector blk = sector
    · exact Or.inr isNew
    refine Or.inl ⟨mem.1, ?_⟩
    rintro (used | ⟨blk, _, bound, same⟩)
    · exact mem.2 used
    · exact isNew ⟨blk, Finset.mem_range.mpr bound, same⟩
  have image := Finset.card_image_le (s := Finset.range last) (f := final.dataSector)
  rw [Finset.card_range] at image
  exact (Finset.card_le_card subset).trans
    ((Finset.card_union_le _ _).trans (Nat.add_le_add_left image _))

lemma freeMapAllocate_card (ready : fs.MapReady) {res : Option Word}
  (pos : 0 < fs.freeSectors.card)
  (ran : freeMapAllocate fuel 1 fs = .ok (res, after)) :
  ∃ sector, res = some (BitVec.ofNat 32 sector) ∧ Allocated fs after sector := by
  rcases freeMapAllocate_eq_ok ready ran with ⟨_, _, full⟩ | found
  · obtain ⟨sector, mem⟩ := Finset.card_pos.mp pos
    rw [Fs.mem_freeSectors] at mem
    exact absurd (full sector mem.1) mem.2
  · exact found

lemma inodeCreateLoop_returns (ready : fs.MapReady) (fits : fs.MapFits)
  (new : NewHeader fs num.toNat) (direct : i + secSave ≤ 123)
  (enough : secSave ≤ fs.freeSectors.card) (disk : InodeDisk) :
  ∃ after, ∀ fuel, byteCnt fs.freeMap.bitCnt < fuel →
    inodeCreateLoop fuel num secSave i disk fs = .ok (true, after) := by
  induction secSave generalizing fs i disk with
  | zero => exact ⟨fs, fun _ _ => rfl⟩
  | succ secSave ih =>
    obtain ⟨free, mem⟩ := Finset.card_pos.mp (show 0 < fs.freeSectors.card by omega)
    rw [Fs.mem_freeSectors] at mem
    obtain ⟨word, middle, allocates⟩ := freeMapAllocate_returns ready fits mem.1 mem.2
    obtain ⟨sector, found, alloc⟩ := freeMapAllocate_card ready (by omega)
      (allocates (byteCnt fs.freeMap.bitCnt + 1) (by omega))
    cases found
    have round := created_round ready new disk alloc (show i < 125 by omega)
    have leak := Leaked.of_created round
    have card : fs.freeSectors.card = Finset.card (Fs.freeSectors
        ((middle.writeSector sector .zeros).writeSector num.toNat
          (disk.setSector i (BitVec.ofNat 32 sector)).encode)) + 1 := alloc.card
    obtain ⟨after, run⟩ := ih (round.mapReady ready) (leak.onlyData.mapFits fits)
      (new.of_leaked leak) (show i + 1 + secSave ≤ 123 by omega) (by omega)
      (disk.setSector i (BitVec.ofNat 32 sector))
    refine ⟨after, ?_⟩
    intro fuel fuelLt
    rw [inodeCreateLoop_allocated ready new alloc (by omega) (allocates fuel fuelLt)]
    exact run fuel (by rw [leak.onlyData.bitCnt_eq]; exact fuelLt)

lemma inodeCreateLoop_long (ready : fs.MapReady) (new : NewHeader fs num.toNat)
  (direct : i ≤ 123) (long : 123 < i + secSave) (spare : 126 ≤ i + fs.freeSectors.card)
  (disk : InodeDisk) : inodeCreateLoop fuel num secSave i disk fs ≠ .ok (res, after) := by
  induction secSave generalizing fs i disk with
  | zero => omega
  | succ secSave ih =>
    intro ran
    have opened := ran
    obtain ⟨first, middle, firstRan, rest⟩ := bind_eq_ok opened
    obtain ⟨sector, rfl, alloc⟩ := freeMapAllocate_card ready (by omega) firstRan
    have card := alloc.card
    by_cases inside : i < 123
    · rw [inodeCreateLoop_allocated ready new alloc inside firstRan] at ran
      have round := created_round ready new disk alloc (show i < 125 by omega)
      have leak := Leaked.of_created round
      refine ih (round.mapReady ready) (new.of_leaked leak) (by omega) (by omega) ?_ _ ran
      change 126 ≤ i + 1 + middle.freeSectors.card
      omega
    rw [if_neg (by omega)] at rest
    obtain ⟨second, later, secondRan, rest⟩ := bind_eq_ok rest
    obtain ⟨another, rfl, secondAlloc⟩ := freeMapAllocate_card
      (alloc.mapReady ready) (by omega) secondRan
    have secondCard := secondAlloc.card
    rw [if_pos (by simp; omega)] at rest
    obtain ⟨_, _, indirect, _⟩ := bind_eq_ok rest
    obtain ⟨third, _, thirdRan, stored⟩ := bind_eq_ok indirect
    obtain ⟨_, rfl, _⟩ := freeMapAllocate_card
      (secondAlloc.mapReady (alloc.mapReady ready)) (by omega) thirdRan
    simp at stored

lemma bytesToSectors_natCast (len : ℕ) :
  bytesToSectors (len : ℤ) = (len + 511) / 512 := by
  unfold bytesToSectors
  have shifted : ((len : ℤ) + (blockSectorSize : ℕ) - 1) = ((len + 511 : ℕ) : ℤ) := by
    simp only [blockSectorSize]
    omega
  rw [shifted, ← Int.ofNat_tdiv]
  rfl

section Header

variable {len : ℕ}

lemma leaked_header (fs : Fs) (hdr : ℕ) (data : Sector) :
  Leaked fs (fs.writeSector hdr data) hdr where
  onlyData := fs.onlyData_writeSector hdr data
  used _ := id
  sectors_eq _ _ _ notHdr := Block.write_sectors_of_ne _ _ notHdr

section

variable (ready : fs.MapReady)
include ready

lemma recorded_header (new : NewHeader fs hdr) (data : Sector) (recorded : fs.Recorded) :
  (fs.writeSector hdr data).Recorded := by
  refine recorded.of_sectors ready (fs.onlyData_writeSector hdr data) rfl ?_
  intro sector isMap
  apply Block.write_sectors_of_ne
  rintro rfl
  exact new.notMap isMap

lemma inodeCreate_of_heapOk (new : NewHeader fs num.toNat) (fuel len : ℕ) :
  inodeCreate fuel num len fs =
    inodeCreateLoop fuel num ((len + 511) / 512) 0 (newInodeDisk len)
      (fs.writeSector num.toNat (newInodeDisk len).encode) := by
  have hdrLt := new.lt
  rw [ready.bitCnt_eq] at hdrLt
  unfold inodeCreate
  rw [if_neg (by omega), bind_of_ok (malloc_of_heapOk ready.heap), if_pos rfl,
    bind_of_ok (blockWrite_of_lt hdrLt), bytesToSectors_natCast]

lemma inodeCreate_eq_ok (new : NewHeader fs num.toNat) (direct : len ≤ 123 * 512)
  (ran : inodeCreate fuel num len fs = .ok (res, after)) :
  (res = true ∧ ∃ final, Created fs after num.toNat (newInodeDisk len) final 0
      ((len + 511) / 512)) ∨
    (res = false ∧ Leaked fs after num.toNat) := by
  have leak := leaked_header fs num.toNat (newInodeDisk len).encode
  rw [inodeCreate_of_heapOk ready new] at ran
  rcases inodeCreateLoop_direct (leak.mapReady ready) (new.of_leaked leak)
    (Block.write_sectors_self _ _ _) (by omega) ran with ⟨rfl, final, created⟩ | ⟨rfl, failed⟩
  · refine Or.inl ⟨rfl, final, ?_⟩
    rw [Nat.zero_add] at created
    exact
      { created with
        onlyData := IsTrans.trans _ _ _ leak.onlyData created.onlyData
        sectors_eq := fun other notMap notHdr notFresh =>
          (created.sectors_eq other notMap notHdr notFresh).trans
            (Block.write_sectors_of_ne _ _ notHdr)
        recorded := fun recorded =>
          created.recorded (recorded_header ready new _ recorded) }
  · exact Or.inr ⟨rfl, leak.trans failed⟩

lemma inodeCreate_returns (fits : fs.MapFits) (new : NewHeader fs num.toNat)
  (direct : len ≤ 123 * 512) (enough : (len + 511) / 512 ≤ fs.freeSectors.card) :
  ∃ after, ∀ fuel, byteCnt fs.freeMap.bitCnt < fuel →
    inodeCreate fuel num len fs = .ok (true, after) := by
  have leak := leaked_header fs num.toNat (newInodeDisk len).encode
  obtain ⟨after, run⟩ := inodeCreateLoop_returns (leak.mapReady ready)
    (leak.onlyData.mapFits fits) (new.of_leaked leak)
    (show 0 + (len + 511) / 512 ≤ 123 by omega) enough (newInodeDisk len)
  refine ⟨after, ?_⟩
  intro fuel fuelLt
  rw [inodeCreate_of_heapOk ready new]
  exact run fuel fuelLt

lemma inodeCreate_long (new : NewHeader fs num.toNat) (long : 123 * 512 < len)
  (spare : 126 ≤ fs.freeSectors.card) (fuel : ℕ) (res : Bool) :
  inodeCreate fuel num len fs ≠ .ok (res, after) := by
  have leak := leaked_header fs num.toNat (newInodeDisk len).encode
  rw [inodeCreate_of_heapOk ready new]
  exact inodeCreateLoop_long (leak.mapReady ready) (new.of_leaked leak) (by omega) (by omega)
    (by rw [Nat.zero_add]; exact spare) _

end

lemma inodeCreate_exhausted (exhausted : fs.mallocs 0 = false) (fuel len : ℕ) :
  inodeCreate fuel num len fs =
    .ok (true, { fs with mallocs := fun req => fs.mallocs (req + 1) }) := by
  unfold inodeCreate
  rw [if_neg (by omega), bind_of_ok rfl, exhausted]
  rfl

end Header

end Pintos
