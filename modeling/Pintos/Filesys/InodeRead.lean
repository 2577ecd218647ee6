import Pintos.Filesys.Contents

/-!
# Reading an inode

`inode_read_at` copies the requested range of the file chunk by chunk. The
end-of-file test sits inside the loop and returns zero instead of the number of
bytes copied so far. A request that starts inside the file and runs past its end
therefore fills the buffer correctly and reports that nothing was read.
-/

namespace Pintos

open Pintos.Computation

variable {fs : Fs} {addr ofs size : ℕ} {ino : Inode}

lemma InodeDisk.contents_add (disk : InodeDisk) (dev : Block) {index : ℕ}
  (fits : ofs % 512 + index < 512) : disk.contents dev (ofs + index) =
    (dev.sectors (disk.dataSector (ofs / 512))).bytes (ofs % 512 + index) := by
  have blk : (ofs + index) / 512 = ofs / 512 := by omega
  have position : (ofs + index) % 512 = ofs % 512 + index := by omega
  simp [InodeDisk.contents, concatBlocks, blockSectorSize, blk, position]

section

variable (heap : fs.HeapOk) (isOpen : fs.inodes addr = some ino)
  (readable : ino.data.Readable fs.device)

include heap isOpen readable

lemma inodeReadLoop_chunk (fuel : ℕ) (buf : ℕ → Byte) (bytesRead : ℕ) (bounce : Bool)
  (positive : 0 < size) (inside : ofs < ino.data.len) :
  ∃ ready, inodeReadLoop addr (fuel + 1) buf size ofs bytesRead bounce fs =
    inodeReadLoop addr fuel
      (overlay buf bytesRead (chunkLen ino.data size ofs)
        fun idx => ino.data.contents fs.device (ofs + idx))
      (size - chunkLen ino.data size ofs : ℕ)
      (ofs + chunkLen ino.data size ofs : ℕ)
      (bytesRead + chunkLen ino.data size ofs : ℕ) ready fs := by
  have sizeEq := readable.size_eq
  have lenLe := readable.len_le
  have blk := readable.block_lt inside
  have sizeLe := chunkLen_le_size ino.data size ofs
  have fits := chunkLen_fits ino.data size ofs
  have chunkPos := chunkLen_pos positive inside
  have chunkEq := chunkSize_eq readable size (Nat.le_of_lt inside)
  obtain ⟨sec, sectorAt, num⟩ := ino.data.sectorAt_eq_some (show ofs / 512 < 125 by omega)
  have inRange : sec.toNat < fs.device.size := by
    rw [num]
    exact readable.sector_lt _ blk
  have secBytes : ∀ idx, idx < chunkLen ino.data size ofs →
      (fs.device.sectors sec.toNat).bytes (ofs % 512 + idx) =
        ino.data.contents fs.device (ofs + idx) := by
    intro idx bound
    rw [InodeDisk.contents_add _ _ (by omega), num]
  rw [inodeReadLoop, if_pos (by omega), bind_of_ok (derefInode_of_some isOpen),
    bind_of_ok (byteToSector_direct ino (by omega) fs), if_neg (by omega)]
  simp only [chunkEq, tmod_blockSectorSize]
  rw [if_neg (by omega), sectorAt]
  by_cases full : ((ofs % 512 : ℕ) : ℤ) = 0 ∧
      (chunkLen ino.data size ofs : ℤ) = (blockSectorSize : ℕ)
  · refine ⟨bounce, ?_⟩
    have wholeChunk : chunkLen ino.data size ofs = blockSectorSize := by omega
    have aligned : ofs % 512 = 0 := by omega
    rw [if_pos full, bind_of_ok (blockRead_of_lt inRange), ← wholeChunk]
    push_cast [sizeLe]
    congr 1
    apply overlay_congr
    intro idx bound
    simpa [aligned] using secBytes idx bound
  refine ⟨true, ?_⟩
  rw [if_neg full, bind_of_ok (getBounce_of_heapOk heap bounce), if_pos rfl,
    bind_of_ok (blockRead_of_lt inRange)]
  push_cast [sizeLe]
  congr 1
  exact overlay_congr secBytes

lemma inodeReadLoop_available {available : ℕ} (inside : ofs ≤ ino.data.len)
  (availableEq : available = min size (ino.data.len - ofs)) {fuel : ℕ} (enough : size ≤ fuel)
  (buf : ℕ → Byte) (bytesRead : ℕ) (bounce : Bool) : ∃ left ready, size - available ≤ left ∧
    inodeReadLoop addr fuel buf size ofs bytesRead bounce fs =
      inodeReadLoop addr left
        (overlay buf bytesRead available
          fun idx => ino.data.contents fs.device (ofs + idx))
        (size - available : ℕ) (ofs + available : ℕ) (bytesRead + available : ℕ)
        ready fs := by
  induction fuel generalizing size ofs available buf bytesRead bounce with
  | zero =>
    have nothing : available = 0 := by omega
    exact ⟨0, bounce, by omega, by simp [nothing]⟩
  | succ fuel ih =>
    by_cases done : available = 0
    · exact ⟨fuel + 1, bounce, by omega, by simp [done]⟩
    have positive : 0 < size := by omega
    have pre : ofs < ino.data.len := by omega
    have chunkPos := chunkLen_pos positive pre
    have sizeLe := chunkLen_le_size ino.data size ofs
    have leftLe := chunkLen_le_left ino.data size ofs
    obtain ⟨ready, step⟩ := inodeReadLoop_chunk heap isOpen readable fuel buf bytesRead
      bounce positive pre
    generalize chunkLen ino.data size ofs = chunk at *
    have rest : available - chunk =
        min (size - chunk) (ino.data.len - (ofs + chunk)) := by omega
    obtain ⟨left, final, leftEnough, run⟩ := ih (show ofs + chunk ≤ ino.data.len by omega)
      rest (show size - chunk ≤ fuel by omega)
      (overlay buf bytesRead chunk fun idx => ino.data.contents fs.device (ofs + idx))
      (bytesRead + chunk) ready
    refine ⟨left, final, by omega, ?_⟩
    have joined := overlay_overlay buf bytesRead chunk (available - chunk)
      fun idx => ino.data.contents fs.device (ofs + idx)
    simp only [← Nat.add_assoc] at joined
    rw [step, run, joined]
    congr 2 <;> omega

lemma inodeReadAt_inside (inside : ofs + size ≤ ino.data.len) (buf : ℕ → Byte) :
  inodeReadAt addr buf size ofs fs =
    .ok ((size, overlay buf 0 size
      fun idx => ino.data.contents fs.device (ofs + idx)), fs) := by
  obtain ⟨left, ready, _, run⟩ := inodeReadLoop_available heap isOpen readable
    (show ofs ≤ ino.data.len by omega)
    (show size = min size (ino.data.len - ofs) by omega)
    (show size ≤ size from le_rfl) buf 0 false
  have start : inodeReadAt addr buf size ofs fs =
      inodeReadLoop addr size buf size ofs (0 : ℕ) false fs := rfl
  rw [start, run]
  cases left <;> simp [inodeReadLoop]

end

def InodeDisk.Resolvable (disk : InodeDisk) (device : Block) (pos : ℕ) : Prop :=
  pos / 512 ≤ 122 ∨
    (122 < pos / 512 ∧ pos / 512 ≤ 250 ∧ disk.dataSector 123 < device.size) ∨
    (250 < pos / 512 ∧ disk.dataSector 124 < device.size ∧ (pos / 512 - 250) / 128 < 125 ∧
      disk.dataSector ((pos / 512 - 250) / 128) < device.size)

lemma blockRead_sectorAt (disk : InodeDisk) (idx : ℕ) (fs : Fs) :
  (∃ data, blockRead (disk.sectorAt idx) fs = .ok (data, fs)) ↔
    idx < 125 ∧ disk.dataSector idx < fs.device.size := by
  constructor
  · rintro ⟨data, ran⟩
    obtain ⟨num, sectorAt, inRange, _, _⟩ := blockRead_eq_ok ran
    have bound : idx < 125 := by
      by_contra past
      simp [InodeDisk.sectorAt, past] at sectorAt
    refine ⟨bound, ?_⟩
    simpa [InodeDisk.dataSector, sectorAt] using inRange
  rintro ⟨bound, inRange⟩
  obtain ⟨sec, sectorAt, num⟩ := disk.sectorAt_eq_some bound
  rw [sectorAt]
  exact ⟨_, blockRead_of_lt (by omega)⟩

lemma byteToSector_returns_iff (ino : Inode) (pos : ℕ) (fs : Fs) :
  (∃ sec, byteToSector ino pos fs = .ok (sec, fs)) ↔
    ino.data.Resolvable fs.device pos := by
  unfold byteToSector InodeDisk.Resolvable
  simp only [tdiv_blockSectorSize]
  by_cases direct : pos / 512 ≤ 122
  · rw [if_pos (by omega)]
    simp [direct]
  rw [if_neg (by omega)]
  by_cases indirect : pos / 512 ≤ 250
  · rw [if_pos (by omega)]
    have single := blockRead_sectorAt ino.data 123 fs
    constructor
    · rintro ⟨sec, ran⟩
      obtain ⟨data, mid, read, _⟩ := bind_eq_ok ran
      obtain ⟨_, _, _, _, rfl⟩ := blockRead_eq_ok read
      have := single.mp ⟨data, read⟩
      omega
    intro resolvable
    obtain ⟨data, read⟩ := single.mpr (by omega)
    rw [bind_of_ok read]
    exact ⟨_, rfl⟩
  rw [if_neg (by omega), if_pos (by omega)]
  have firstSpot : (((pos / 512 : ℕ) : ℤ) - (122 + 128)).tdiv 128 =
      (((pos / 512 - 250) / 128 : ℕ) : ℤ) := by
    have shifted : ((pos / 512 : ℕ) : ℤ) - (122 + 128) = ((pos / 512 - 250 : ℕ) : ℤ) := by
      omega
    rw [shifted]
    exact (Int.ofNat_tdiv _ 128).symm
  simp only [firstSpot, Int.toNat_natCast]
  have first := blockRead_sectorAt ino.data 124 fs
  have second := blockRead_sectorAt ino.data ((pos / 512 - 250) / 128) fs
  constructor
  · rintro ⟨sec, ran⟩
    obtain ⟨firstData, mid, readFirst, rest⟩ := bind_eq_ok ran
    obtain ⟨_, _, _, _, rfl⟩ := blockRead_eq_ok readFirst
    obtain ⟨secondData, last, readSecond, _⟩ := bind_eq_ok rest
    obtain ⟨_, _, _, _, rfl⟩ := blockRead_eq_ok readSecond
    have := first.mp ⟨firstData, readFirst⟩
    have := second.mp ⟨secondData, readSecond⟩
    omega
  intro resolvable
  obtain ⟨firstData, readFirst⟩ := first.mpr (by omega)
  obtain ⟨secondData, readSecond⟩ := second.mpr (by omega)
  rw [bind_of_ok readFirst, bind_of_ok readSecond]
  exact ⟨_, rfl⟩

lemma inodeReadLoop_past (isOpen : fs.inodes addr = some ino) (positive : 0 < size)
  (past : ino.data.size ≤ ofs) (fuel : ℕ) (buf : ℕ → Byte) (bytesRead : ℤ) (bounce : Bool)
  {res : (ℤ × (ℕ → Byte)) × Fs} :
  inodeReadLoop addr (fuel + 1) buf size ofs bytesRead bounce fs = .ok res ↔
    ino.data.Resolvable fs.device ofs ∧ res = ((0, buf), fs) := by
  rcases res with ⟨⟨cnt, filled⟩, after⟩
  rw [inodeReadLoop, if_pos (by omega), bind_of_ok (derefInode_of_some isOpen),
    ← byteToSector_returns_iff]
  constructor
  · intro ran
    obtain ⟨sec, mid, found, rest⟩ := bind_eq_ok ran
    obtain rfl := byteToSector_state found
    rw [if_pos past] at rest
    cases rest
    exact ⟨⟨sec, found⟩, rfl⟩
  rintro ⟨⟨sec, found⟩, same⟩
  cases same
  rw [bind_of_ok found, if_pos past]
  rfl

end Pintos
