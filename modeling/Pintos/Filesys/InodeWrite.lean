import Pintos.Filesys.Frame
import Pintos.Filesys.InodeRead

/-!
# Writing an inode

Inside the file, `inode_write_at` overwrites the requested range of the flat
byte array and touches no sector but the file's own. Past the end of the file it
never returns: the chunk is not positive, and the only way on is a round that
changes neither the position nor the remaining size.
-/

namespace Pintos

open Pintos.Computation

variable {fs after : Fs} {address ofs size : ℕ} {inode : Inode} {disk : InodeDisk}
  {src buf : ℕ → Byte} {bounce : Bool} {allocate : ℕ → Kernel (Option Word)} {value : ℤ}

structure Overwritten (disk : InodeDisk) (before after : Block) (offset count : ℕ)
    (source : ℕ → Byte) : Prop where
  size_eq : after.size = before.size
  contents_eq : ∀ index, index < disk.blockCnt * 512 →
    disk.contents after index = overlay (disk.contents before) offset count source index
  sectors_eq : ∀ sector, (∀ block, block < disk.blockCnt → disk.dataSector block ≠ sector) →
    after.sectors sector = before.sectors sector

lemma Overwritten.refl (disk : InodeDisk) (dev : Block) (ofs : ℕ) (src : ℕ → Byte) :
  Overwritten disk dev dev ofs 0 src where
  size_eq := rfl
  contents_eq idx _ := by rw [overlay_zero]
  sectors_eq _ _ := rfl

lemma Overwritten.trans {pre mid after : Block} {first second : ℕ}
  (left : Overwritten disk pre mid ofs first src)
  (right : Overwritten disk mid after (ofs + first) second fun idx => src (first + idx)) :
  Overwritten disk pre after ofs (first + second) src where
  size_eq := right.size_eq.trans left.size_eq
  contents_eq idx inside := by
    rw [right.contents_eq idx inside, ← overlay_overlay]
    unfold overlay
    split
    · rfl
    · exact left.contents_eq idx inside
  sectors_eq sec foreign :=
    (right.sectors_eq sec foreign).trans (left.sectors_eq sec foreign)

lemma InodeDisk.WellFormed.of_size_eq {pre after : Block} (wf : disk.WellFormed pre)
  (size : after.size = pre.size) : disk.WellFormed after where
  size_nonneg := wf.size_nonneg
  size_le := wf.size_le
  sector_lt blk bound := by
    rw [size]
    exact wf.sector_lt blk bound
  sector_inj := wf.sector_inj

def writeChunk (disk : InodeDisk) (device : Block) (offset count : ℕ) (source : ℕ → Byte) :
    Block :=
  device.write (disk.dataSector (offset / 512))
    (.ofBytes (overlay (device.sectors (disk.dataSector (offset / 512))).bytes (offset % 512)
      count source))

lemma overwritten_writeChunk {dev : Block} (wf : disk.WellFormed dev) {count : ℕ}
  (src : ℕ → Byte) (inside : ofs < disk.len) (fits : ofs % 512 + count ≤ 512) :
  Overwritten disk dev (writeChunk disk dev ofs count src) ofs count src where
  size_eq := rfl
  contents_eq idx idxLt := by
    have blk := wf.toReadable.block_lt inside
    have idxBlk : idx / 512 < disk.blockCnt := by omega
    refine concatBlocks_overlay (show 0 < blockSectorSize by decide) fits ?_ ?_
    · intro posn posnLt
      change ((dev.write _ _).sectors (disk.dataSector (ofs / 512))).bytes posn = _
      rw [Block.write_sectors_self, Sector.bytes_ofBytes _ posnLt]
      rfl
    intro other
    have ne : disk.dataSector (idx / 512) ≠ disk.dataSector (ofs / 512) := by
      intro same
      exact other (wf.sector_inj _ _ idxBlk blk same)
    change ((dev.write _ _).sectors (disk.dataSector (idx / 512))).bytes = _
    rw [Block.write_sectors_of_ne _ _ ne]
    rfl
  sectors_eq sec foreign := by
    have blk := wf.toReadable.block_lt inside
    exact Block.write_sectors_of_ne _ _ (foreign _ blk).symm

lemma writeSectorChunk_of_lt (heap : fs.HeapOk) {sec : Word}
  (inRange : sec.toNat < fs.device.size) {secOfs chunk : ℕ}
  (fits : secOfs + chunk ≤ 512) (src : ℕ → Byte) (bounce : Bool) :
  ∃ ready, writeSectorChunk (some sec) secOfs chunk src bounce fs =
    .ok (some ready, fs.writeSector sec.toNat
      (.ofBytes (overlay (fs.device.sectors sec.toNat).bytes secOfs chunk src))) := by
  unfold writeSectorChunk
  by_cases full : (secOfs : ℤ) = 0 ∧ (chunk : ℤ) = (blockSectorSize : ℕ)
  · refine ⟨bounce, ?_⟩
    have sameSec : Sector.ofBytes src =
        .ofBytes (overlay (fs.device.sectors sec.toNat).bytes secOfs chunk src) := by
      apply Sector.ofBytes_congr
      intro idx idxLt
      rw [overlay_inside (by omega) (by omega)]
      congr 1
      omega
    rw [if_pos full, bind_of_ok (blockWrite_of_lt inRange), ← sameSec]
    rfl
  refine ⟨true, ?_⟩
  have keepsRest : (secOfs : ℤ) > 0 ∨ (chunk : ℤ) < (blockSectorSize : ℕ) - secOfs := by
    unfold blockSectorSize at *
    omega
  have copied : copyIntoSector (fs.device.sectors sec.toNat) secOfs chunk src fs =
      .ok (.ofBytes (overlay (fs.device.sectors sec.toNat).bytes secOfs chunk src),
        fs) := by
    rw [copyIntoSector, if_neg (by omega)]
    rfl
  rw [if_neg full, bind_of_ok (getBounce_of_heapOk heap bounce), if_pos rfl,
    if_pos keepsRest, bind_of_ok (blockRead_of_lt inRange)]
  refine (bind_of_ok copied).trans ?_
  rw [bind_of_ok (blockWrite_of_lt inRange)]
  rfl

lemma inodeWriteLoop_chunk (allocate : ℕ → Kernel (Option Word)) (heap : fs.HeapOk)
  (isOpen : fs.inodes address = some inode) (readable : inode.data.Readable fs.device) (fuel : ℕ)
  (buf : ℕ → Byte) (bytesWritten : ℕ) (bounce : Bool) (pos : 0 < size)
  (inside : ofs < inode.data.len) : ∃ ready,
    inodeWriteLoop allocate address buf (fuel + 1) size ofs bytesWritten bounce fs =
      inodeWriteLoop allocate address buf fuel
        (size - chunkLen inode.data size ofs : ℕ)
        (ofs + chunkLen inode.data size ofs : ℕ)
        (bytesWritten + chunkLen inode.data size ofs : ℕ) ready
        { fs with
          device := writeChunk inode.data fs.device ofs (chunkLen inode.data size ofs)
            fun idx => buf (bytesWritten + idx) } := by
  have lenLe := readable.len_le
  have blk := readable.block_lt inside
  have sizeLe := chunkLen_le_size inode.data size ofs
  have chunkPos := chunkLen_pos pos inside
  obtain ⟨sec, sectorAt, num⟩ := inode.data.sectorAt_eq_some (show ofs / 512 < 125 by omega)
  have inRange : sec.toNat < fs.device.size := by
    rw [num]
    exact readable.sector_lt _ blk
  obtain ⟨ready, written⟩ := writeSectorChunk_of_lt heap inRange
    (chunkLen_fits inode.data size ofs) (fun idx => buf (bytesWritten + idx)) bounce
  refine ⟨ready, ?_⟩
  rw [inodeWriteLoop, if_pos (by omega), bind_of_ok (derefInode_of_some isOpen),
    bind_of_ok (byteToSector_direct inode (by omega) fs)]
  simp only [chunkSize_eq readable size (Nat.le_of_lt inside), tmod_blockSectorSize,
    Int.toNat_natCast]
  rw [allocatePastEnd, if_neg (by omega), pure_bind_apply, sectorAt, bind_of_ok written, num]
  push_cast [sizeLe]
  rfl

lemma inodeWriteLoop_inside (heap : fs.HeapOk) (isOpen : fs.inodes address = some inode)
  (wf : inode.data.WellFormed fs.device) (inside : ofs + size ≤ inode.data.len) (buf : ℕ → Byte)
  (bytesWritten : ℕ) : ∃ dev, Overwritten inode.data fs.device dev ofs size
      (fun idx => buf (bytesWritten + idx)) ∧
    ∀ allocate fuel bounce, size ≤ fuel →
      inodeWriteLoop allocate address buf fuel size ofs bytesWritten bounce fs =
        .ok ((bytesWritten + size : ℕ), { fs with device := dev }) := by
  induction size using Nat.strongRecOn generalizing fs ofs bytesWritten with
  | ind size ih =>
    by_cases done : size = 0
    · subst done
      refine ⟨fs.device, .refl _ _ _ _, ?_⟩
      intro allocate fuel bounce _
      cases fuel <;> simp [inodeWriteLoop]
    have pos : 0 < size := by omega
    have pre : ofs < inode.data.len := by omega
    have chunkPos := chunkLen_pos pos pre
    have sizeLe := chunkLen_le_size inode.data size ofs
    have first := overwritten_writeChunk wf (fun idx => buf (bytesWritten + idx)) pre
      (chunkLen_fits inode.data size ofs)
    have step := fun allocate fuel bounce => inodeWriteLoop_chunk allocate heap isOpen
      wf.toReadable fuel buf bytesWritten bounce pos pre
    generalize chunkLen inode.data size ofs = chunk at *
    generalize writeChunk inode.data fs.device ofs chunk _ = mid at *
    obtain ⟨dev, rest, run⟩ := ih (size - chunk) (by omega)
      (show ({ fs with device := mid } : Fs).HeapOk from heap) isOpen
      (wf.of_size_eq first.size_eq)
      (show ofs + chunk + (size - chunk) ≤ inode.data.len by omega)
      (bytesWritten + chunk)
    have total : chunk + (size - chunk) = size := by omega
    refine ⟨dev, ?_, ?_⟩
    · rw [← total]
      apply first.trans
      simpa only [Nat.add_assoc] using rest
    intro allocate fuel bounce enough
    obtain ⟨left, rfl⟩ : ∃ left, fuel = left + 1 := ⟨fuel - 1, by omega⟩
    obtain ⟨ready, stepEq⟩ := step allocate left bounce
    rw [stepEq, run allocate left ready (by omega), Nat.add_assoc, total]

lemma inodeWriteAtWith_inside (heap : fs.HeapOk) (isOpen : fs.inodes address = some inode)
  (writable : inode.denyWriteCnt = 0) (wf : inode.data.WellFormed fs.device)
  (inside : ofs + size ≤ inode.data.len) (buf : ℕ → Byte) :
  ∃ dev, Overwritten inode.data fs.device dev ofs size buf ∧
    ∀ allocate fuel, size ≤ fuel →
      inodeWriteAtWith allocate fuel address buf size ofs fs =
        .ok (size, { fs with device := dev }) := by
  obtain ⟨dev, overwritten, run⟩ :=
    inodeWriteLoop_inside heap isOpen wf inside buf 0
  simp only [Nat.zero_add] at overwritten run
  refine ⟨dev, overwritten, ?_⟩
  intro allocate fuel enough
  unfold inodeWriteAtWith
  rw [bind_of_ok (malloc_of_heapOk heap), if_pos rfl, bind_of_ok (derefInode_of_some isOpen),
    if_neg (by simp [writable])]
  exact run allocate fuel false enough

lemma inodeWriteAtWith_exhausted (exhausted : fs.mallocs 0 = false)
  (allocate : ℕ → Kernel (Option Word)) (fuel address : ℕ) (buf : ℕ → Byte) (size ofs : ℤ) :
  inodeWriteAtWith allocate fuel address buf size ofs fs = .error .fault := by
  unfold inodeWriteAtWith
  rw [bind_of_ok rfl, exhausted]
  rfl

/-- All requests but the next one are met. -/
def Fs.BouncesOk (fs : Fs) : Prop := ∀ request, fs.mallocs (request + 1) = true

lemma Fs.BouncesOk.heapOk (bounces : fs.BouncesOk) (next : fs.mallocs 0 = true) : fs.HeapOk := by
  intro req
  cases req with
  | zero => exact next
  | succ req => exact bounces req

/-- Writing `size` bytes at `offset` overwrites that range of a flat byte array: the call returns
`size`, every later read inside the file delivers the overwritten array, and no sector but the
file's own changes. -/
def WritesFlat (fs : Fs) (address : ℕ) (disk : InodeDisk) (buffer : ℕ → Byte)
    (size offset : ℕ) : Prop :=
  ∃ after : Fs,
    (∃ bound, ∀ fuel, bound ≤ fuel →
      inodeWriteAt fuel address buffer size offset fs = .ok (size, after)) ∧
    (∀ (readSize readOffset : ℕ) (target : ℕ → Byte), readOffset + readSize ≤ disk.len →
      inodeReadAt address target readSize readOffset after =
        .ok ((readSize, overlay target 0 readSize fun index =>
          overlay (disk.contents fs.device) offset size buffer (readOffset + index)), after)) ∧
    ∀ sector, (∀ block, block < disk.blockCnt → disk.dataSector block ≠ sector) →
      after.device.sectors sector = fs.device.sectors sector

lemma writesFlat_of_heapOk (heap : fs.HeapOk) (isOpen : fs.inodes address = some inode)
  (writable : inode.denyWriteCnt = 0) (wf : inode.data.WellFormed fs.device)
  (inside : ofs + size ≤ inode.data.len) (buf : ℕ → Byte) :
  WritesFlat fs address inode.data buf size ofs := by
  obtain ⟨dev, overwritten, run⟩ :=
    inodeWriteAtWith_inside heap isOpen writable wf inside buf
  refine ⟨{ fs with device := dev }, ⟨size, fun fuel enough => run _ fuel enough⟩, ?_,
    overwritten.sectors_eq⟩
  intro readSize readOfs target readInside
  have readable := (wf.of_size_eq overwritten.size_eq).toReadable
  have blks := readable.blockCnt_eq
  have read := inodeReadAt_inside (show ({ fs with device := dev } : Fs).HeapOk from heap)
    isOpen readable readInside target
  rw [read]
  congr 3
  apply overlay_congr
  intro idx bound
  exact overwritten.contents_eq _ (by omega)

lemma WritesFlat.next_malloc (meets : WritesFlat fs address disk buf size ofs) :
  fs.mallocs 0 = true := by
  obtain ⟨after, ⟨bound, ran⟩, _⟩ := meets
  by_contra exhausted
  have fault := inodeWriteAtWith_exhausted (by simpa using exhausted) (freeMapAllocate bound)
    bound address buf size ofs
  have same := (ran bound le_rfl).symm.trans fault
  cases same

/-- Writing inside a file is an overwrite of a flat array exactly when the `calloc` at the start
of `inode_write_at`, whose result is stored through unchecked, succeeds. -/
theorem writesFlat_iff (bounces : fs.BouncesOk) (isOpen : fs.inodes address = some inode)
    (writable : inode.denyWriteCnt = 0) (wellFormed : inode.data.WellFormed fs.device)
    {size offset : ℕ} (inside : offset + size ≤ inode.data.len) (buffer : ℕ → Byte) :
    WritesFlat fs address inode.data buffer size offset ↔ fs.mallocs 0 = true := by
  constructor
  · exact WritesFlat.next_malloc
  intro next
  exact writesFlat_of_heapOk (bounces.heapOk next) isOpen writable wellFormed inside buffer

/-- A file of 600 bytes in the sectors 3 and 6. -/
def wideInode : Inode :=
  { smallInode 600 with
    data := { smallDisk 3 600 with sectors := fun index => if index = 0 then 3 else 6 } }

def wideFs : Fs :=
  { smallFs 600 with
    device :=
      { size := 7
        sectors := Function.update (smallFs 600).device.sectors 2 wideInode.data.encode }
    freeMap := { bitCnt := 7, bits := fun _ => 127 }
    inodes := Function.update (smallFs 600).inodes 0 (some wideInode) }

lemma wideFs_inodes : wideFs.inodes 0 = some wideInode := rfl

lemma wideFs_wellFormed : wideInode.data.WellFormed wideFs.device where
  size_nonneg := by decide
  size_le := by decide
  sector_lt := by decide
  sector_inj := by
    have apart : ∀ left, left < wideInode.data.blockCnt → ∀ right, right < wideInode.data.blockCnt →
        wideInode.data.dataSector left = wideInode.data.dataSector right → left = right := by
      decide
    exact fun left right leftLt rightLt => apart left leftLt right rightLt

/-- Overwriting the last hundred bytes of a file of 600 bytes, across the end of its first
sector. -/
theorem writesFlat_across : WritesFlat wideFs 0 wideInode.data (fun _ => 7) 100 500 :=
  (writesFlat_iff (fun _ => rfl) wideFs_inodes rfl wideFs_wellFormed (by decide) _).mpr rfl

def smallFsExhausted (length : Word) : Fs :=
  { smallFs length with mallocs := fun request => request != 0 }

/-- With the heap exhausted at the `calloc`, overwriting the byte of a one-byte file faults. -/
theorem inodeWriteAt_exhausted_fault :
    inodeWriteAt 1 0 (fun _ => 7) 1 0 (smallFsExhausted 1) = .error .fault ∧
      ¬ WritesFlat (smallFsExhausted 1) 0 (smallInode 1).data (fun _ => 7) 1 0 := by
  refine ⟨inodeWriteAtWith_exhausted rfl _ _ _ _ _ _, ?_⟩
  intro meets
  exact absurd meets.next_malloc (by decide)

lemma writeSectorChunk_nonpos (heap : fs.HeapOk) {secIdx : Option Word} {secOfs chunk : ℤ}
  {written : Option Bool} (nonpos : chunk ≤ 0)
  (ran : writeSectorChunk secIdx secOfs chunk src bounce fs = .ok (written, after)) :
  chunk = 0 ∧ ∃ ready, written = some ready := by
  unfold writeSectorChunk at ran
  have notFull : ¬(secOfs = 0 ∧ chunk = (blockSectorSize : ℕ)) := by
    unfold blockSectorSize
    omega
  rw [if_neg notFull, bind_of_ok (getBounce_of_heapOk heap bounce), if_pos rfl] at ran
  have copied : ∀ {old : Sector} {pre : Fs}, (do
      let data ← copyIntoSector old secOfs chunk src
      blockWrite secIdx data
      pure (some true)) pre = .ok (written, after) → chunk = 0 ∧ written = some true := by
    intro old pre rest
    obtain ⟨data, mid, copy, write⟩ := bind_eq_ok rest
    obtain ⟨_, _, _, same⟩ := bind_eq_ok write
    cases same
    unfold copyIntoSector at copy
    split at copy
    · simp at copy
    · exact ⟨by omega, rfl⟩
  split at ran
  · obtain ⟨old, mid, _, rest⟩ := bind_eq_ok ran
    obtain ⟨zero, same⟩ := copied rest
    exact ⟨zero, true, same⟩
  obtain ⟨zero, same⟩ := copied ran
  exact ⟨zero, true, same⟩

section PastEnd

section

variable (allocateKeeps : ∀ cnt, Preserves Fs.OnlyData (allocate cnt)) (heap : fs.HeapOk)
  (isOpen : fs.inodes address = some inode)

include allocateKeeps heap isOpen

lemma inodeWriteLoop_past {size ofs : ℤ} (pos : 0 < size) (past : inode.data.size ≤ ofs) (fuel : ℕ)
  (bytesWritten : ℤ) (bounce : Bool) :
  inodeWriteLoop allocate address buf fuel size ofs bytesWritten bounce fs ≠
    .ok (value, after) := by
  induction fuel generalizing fs bounce with
  | zero =>
    rw [inodeWriteLoop, if_pos pos]
    simp
  | succ fuel ih =>
    intro ran
    rw [inodeWriteLoop, if_pos pos, bind_of_ok (derefInode_of_some isOpen)] at ran
    obtain ⟨secIdx, found, lookup, rest⟩ := bind_eq_ok ran
    obtain rfl := byteToSector_state lookup
    obtain ⟨_, grown, alloc, copying⟩ := bind_eq_ok rest
    have grownKeeps := @allocatePastEnd_preserves Fs.OnlyData _ allocate
      (fun cnt _ _ failed => allocateKeeps cnt failed) _ _ _ _ _ alloc
    obtain ⟨written, copied, copy, next⟩ := bind_eq_ok copying
    have copiedKeeps : grown.OnlyData copied :=
      writeSectorChunk_preserves malloc_onlyData blockWrite_onlyData _ _ _ _ _ copy
    obtain ⟨unchanged, ready, rfl⟩ := writeSectorChunk_nonpos (grownKeeps.heapOk heap)
      (chunkSize_nonpos past) copy
    simp only [unchanged, sub_zero, add_zero] at next
    refine ih (copiedKeeps.heapOk (grownKeeps.heapOk heap)) ?_ ready next
    rw [copiedKeeps.inodes_eq, grownKeeps.inodes_eq, isOpen]

lemma inodeWriteLoop_crossing (readable : inode.data.Readable fs.device) (pos : 0 < size)
  (past : inode.data.len < ofs + size) (fuel bytesWritten : ℕ) (bounce : Bool) :
  inodeWriteLoop allocate address buf fuel size ofs bytesWritten bounce fs ≠
    .ok (value, after) := by
  induction fuel generalizing fs size ofs bytesWritten bounce with
  | zero =>
    rw [inodeWriteLoop, if_pos (by omega)]
    simp
  | succ fuel ih =>
    have sizeEq := readable.size_eq
    by_cases inside : ofs < inode.data.len
    · have leftLe := chunkLen_le_left inode.data size ofs
      obtain ⟨ready, step⟩ := inodeWriteLoop_chunk allocate heap isOpen readable fuel buf
        bytesWritten bounce pos inside
      rw [step]
      apply ih
      · exact heap
      · exact isOpen
      · exact ⟨readable.size_nonneg, readable.size_le, readable.sector_lt⟩
      · omega
      · omega
    · exact inodeWriteLoop_past allocateKeeps heap isOpen (by omega) (by omega) _ _ _

end

lemma inodeWriteAt_crossing (heap : fs.HeapOk) (isOpen : fs.inodes address = some inode)
  (writable : inode.denyWriteCnt = 0) (readable : inode.data.Readable fs.device)
  (pos : 0 < size) (past : inode.data.len < ofs + size) (fuel : ℕ) :
  inodeWriteAt fuel address buf size ofs fs ≠ .ok (value, after) := by
  unfold inodeWriteAt inodeWriteAtWith
  rw [bind_of_ok (malloc_of_heapOk heap), if_pos rfl, bind_of_ok (derefInode_of_some isOpen),
    if_neg (by simp [writable])]
  exact inodeWriteLoop_crossing (freeMapAllocate_onlyData fuel) heap isOpen readable pos past
    fuel 0 false

end PastEnd

lemma inodeWriteLoop_mono {fuel more : ℕ} (le : fuel ≤ more) {size ofs bytesWritten : ℤ}
  (ran : inodeWriteLoop allocate address buf fuel size ofs bytesWritten bounce fs =
    .ok (value, after)) :
  inodeWriteLoop allocate address buf more size ofs bytesWritten bounce fs =
    .ok (value, after) := by
  induction fuel generalizing fs more size ofs bytesWritten bounce with
  | zero =>
    rw [inodeWriteLoop] at ran
    split at ran
    · simp at ran
    next done =>
      cases more <;> rw [inodeWriteLoop, if_neg done] <;> exact ran
  | succ fuel ih =>
    obtain ⟨left, rfl⟩ : ∃ left, more = left + 1 := ⟨more - 1, by omega⟩
    rw [inodeWriteLoop] at ran ⊢
    split at ran
    · next pos =>
        rw [if_pos pos]
        obtain ⟨inode, _, deref, rest⟩ := bind_eq_ok ran
        rw [bind_of_ok deref]
        obtain ⟨secIdx, _, lookup, rest⟩ := bind_eq_ok rest
        rw [bind_of_ok lookup]
        obtain ⟨_, _, alloc, rest⟩ := bind_eq_ok rest
        rw [bind_of_ok alloc]
        obtain ⟨written, _, copy, rest⟩ := bind_eq_ok rest
        rw [bind_of_ok copy]
        cases written with
        | none => exact rest
        | some ready => exact ih (by omega) rest
    next done =>
      rw [if_neg done]
      exact ran

lemma inodeWriteAtWith_eq_ok (allocateKeeps : ∀ cnt, Preserves Fs.OnlyData (allocate cnt))
  (heap : fs.HeapOk) (isOpen : fs.inodes address = some inode) (writable : inode.denyWriteCnt = 0)
  (wf : inode.data.WellFormed fs.device) {fuel : ℕ}
  (ran : inodeWriteAtWith allocate fuel address buf size ofs fs = .ok (value, after)) :
  value = size ∧ (size = 0 ∨ ofs + size ≤ inode.data.len) ∧
    ∃ dev, Overwritten inode.data fs.device dev ofs size buf ∧
      after = { fs with device := dev } := by
  unfold inodeWriteAtWith at ran
  rw [bind_of_ok (malloc_of_heapOk heap), if_pos rfl, bind_of_ok (derefInode_of_some isOpen),
    if_neg (by simp [writable])] at ran
  by_cases empty : size = 0
  · subst empty
    have same : (Except.ok (0, fs) : Except Stop (ℤ × Fs)) = .ok (value, after) := by
      rw [← ran]
      cases fuel <;> simp [inodeWriteLoop]
    cases same
    exact ⟨rfl, Or.inl rfl, fs.device, .refl _ _ _ _, rfl⟩
  by_cases inside : ofs + size ≤ inode.data.len
  · obtain ⟨dev, overwritten, run⟩ :=
      inodeWriteLoop_inside heap isOpen wf inside buf 0
    have longer := inodeWriteLoop_mono (le_max_left fuel size) ran
    have same := longer.symm.trans (run allocate (max fuel size) false (le_max_right _ _))
    cases same
    simp only [Nat.zero_add] at overwritten ⊢
    exact ⟨trivial, Or.inr inside, dev, overwritten, rfl⟩
  exact absurd ran (inodeWriteLoop_crossing allocateKeeps heap isOpen
    wf.toReadable (by omega) (by omega) fuel 0 false)

/-- A write of `size` bytes at `offset` ends as it should: it returns a count, a read at `offset`
delivers that many bytes of the buffer, the length is what the written range makes it, and the
gap between the old end and `offset` reads as zeros. -/
def WritesSanely (fs : Fs) (address : ℕ) (disk : InodeDisk) (buffer : ℕ → Byte)
    (size offset : ℕ) : Prop :=
  ∃ (count : ℕ) (after : Fs) (grown : Inode), count ≤ size ∧
    (∃ bound, ∀ fuel, bound ≤ fuel →
      inodeWriteAt fuel address buffer size offset fs = .ok (count, after)) ∧
    after.inodes address = some grown ∧
    (∀ target, inodeReadAt address target count offset after =
      .ok ((count, overlay target 0 count buffer), after)) ∧
    (0 < count → grown.data.len = max disk.len (offset + count)) ∧
    (0 < count → ∀ target, inodeReadAt address target (offset - disk.len : ℕ) disk.len after =
      .ok (((offset - disk.len : ℕ), overlay target 0 (offset - disk.len) fun _ => 0), after))

lemma inodeReadAt_zero (target : ℕ → Byte) (ofs : ℤ) :
  inodeReadAt address target (0 : ℕ) ofs fs = .ok (((0 : ℕ), target), fs) := by
  simp [inodeReadAt, inodeReadLoop]

lemma writesSanely_zero (heap : fs.HeapOk) (isOpen : fs.inodes address = some inode)
  (writable : inode.denyWriteCnt = 0) (buf : ℕ → Byte) (ofs : ℕ) :
  WritesSanely fs address inode.data buf 0 ofs := by
  refine ⟨0, fs, inode, le_rfl, ⟨0, ?_⟩, isOpen, ?_, by simp, by simp⟩
  · intro fuel _
    unfold inodeWriteAt inodeWriteAtWith
    rw [bind_of_ok (malloc_of_heapOk heap), if_pos rfl, bind_of_ok (derefInode_of_some isOpen),
      if_neg (by simp [writable])]
    cases fuel <;> simp [inodeWriteLoop]
  intro target
  rw [inodeReadAt_zero, overlay_zero]

lemma writesSanely_inside (heap : fs.HeapOk) (isOpen : fs.inodes address = some inode)
  (writable : inode.denyWriteCnt = 0) (wf : inode.data.WellFormed fs.device)
  (inside : ofs + size ≤ inode.data.len) (buf : ℕ → Byte) :
  WritesSanely fs address inode.data buf size ofs := by
  obtain ⟨dev, overwritten, run⟩ :=
    inodeWriteAtWith_inside heap isOpen writable wf inside buf
  have readable := (wf.of_size_eq overwritten.size_eq).toReadable
  have blks := readable.blockCnt_eq
  refine ⟨size, { fs with device := dev }, inode, le_rfl,
    ⟨size, fun fuel enough => run _ fuel enough⟩, isOpen, ?_, ?_, ?_⟩
  · intro target
    rw [inodeReadAt_inside (show ({ fs with device := dev } : Fs).HeapOk from heap) isOpen
      readable inside target]
    congr 3
    apply overlay_congr
    intro idx bound
    rw [overwritten.contents_eq _ (by omega), overlay_inside (by omega) (by omega)]
    congr 1
    omega
  · intro _
    omega
  intro _ target
  have noGap : ofs - inode.data.len = 0 := by omega
  rw [noGap, inodeReadAt_zero, overlay_zero]

/-- A write ends as it should exactly when the `calloc` at its start succeeds and it stays inside
the file. All other writes of at least one byte do not return at all. -/
theorem writesSanely_iff (bounces : fs.BouncesOk) (isOpen : fs.inodes address = some inode)
    (writable : inode.denyWriteCnt = 0) (wellFormed : inode.data.WellFormed fs.device)
    (size offset : ℕ) (buffer : ℕ → Byte) :
    WritesSanely fs address inode.data buffer size offset ↔
      fs.mallocs 0 = true ∧ (size = 0 ∨ offset + size ≤ inode.data.len) := by
  constructor
  · rintro ⟨count, after, grown, _, ⟨bound, returned⟩, _⟩
    have run := returned bound le_rfl
    by_cases next : fs.mallocs 0 = true
    · refine ⟨next, ?_⟩
      by_contra crossing
      exact inodeWriteAt_crossing (bounces.heapOk next) isOpen writable wellFormed.toReadable
        (by omega) (by omega) bound run
    have fault := inodeWriteAtWith_exhausted (by simpa using next) (freeMapAllocate bound)
      bound address buffer size offset
    have same := run.symm.trans fault
    cases same
  rintro ⟨next, empty | inside⟩
  · subst empty
    exact writesSanely_zero (bounces.heapOk next) isOpen writable buffer offset
  · exact writesSanely_inside (bounces.heapOk next) isOpen writable wellFormed inside buffer

/-- Overwriting the last hundred bytes of a file of two sectors ends as it should. -/
theorem writesSanely_across : WritesSanely wideFs 0 wideInode.data (fun _ => 7) 100 500 :=
  (writesSanely_iff (fun _ => rfl) wideFs_inodes rfl wideFs_wellFormed 100 500 _).mpr
    ⟨rfl, Or.inr (by decide)⟩

/-- Appending one byte to a one-byte file on a full device never returns. -/
theorem inodeWriteAt_append_stuck :
    (∀ fuel value after,
      inodeWriteAt fuel 0 (fun _ => 7) 1 1 (smallFs 1) ≠ .ok (value, after)) ∧
    ¬ WritesSanely (smallFs 1) 0 (smallInode 1).data (fun _ => 7) 1 1 := by
  have stuck : ∀ fuel value after,
      inodeWriteAt fuel 0 (fun _ => 7) 1 1 (smallFs 1) ≠ .ok (value, after) :=
    fun fuel value after => inodeWriteAt_crossing (smallFs_heapOk 1) (smallFs_inodes 1) rfl
      smallFs_wellFormed_one.toReadable (show 0 < 1 by decide)
      (show (smallInode 1).data.len < 1 + 1 by decide) fuel
  refine ⟨stuck, ?_⟩
  rintro ⟨count, after, grown, _, ⟨bound, returned⟩, _⟩
  exact stuck bound _ _ (returned bound le_rfl)

end Pintos
