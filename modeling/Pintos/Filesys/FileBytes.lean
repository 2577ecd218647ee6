import Pintos.Filesys.Frame

/-!
# The bytes of any file

A file of any length has the bytes that `byte_to_sector` leads to. When `inode_read_at`
delivers as many bytes as it was asked for, they are the bytes of the file at that position,
whatever the inode and whatever becomes of the requests for memory on the way.
-/

namespace Pintos

open Pintos.Computation

def Fs.ByteAt (fs : Fs) (inode : Inode) (pos : ℕ) (byte : Byte) : Prop :=
  ∃ sector : Word, byteToSector inode pos fs = .ok (some sector, fs) ∧
    (fs.device.sectors sector.toNat).bytes (pos % 512) = byte

def Fs.SameFiles (before after : Fs) : Prop :=
  after.device = before.device ∧ after.inodes = before.inodes

instance : IsPreorder Fs Fs.SameFiles where
  refl _ := ⟨rfl, rfl⟩
  trans _ _ _ first second := ⟨second.1.trans first.1, second.2.trans first.2⟩

lemma malloc_sameFiles : Preserves Fs.SameFiles malloc := by
  intro pre val after ran
  cases ran
  exact ⟨rfl, rfl⟩

lemma inodeReadAt_sameFiles (addr : ℕ) (buf : ℕ → Byte) (size ofs : ℤ) :
  Preserves Fs.SameFiles (inodeReadAt addr buf size ofs) :=
  inodeReadLoop_preserves malloc_sameFiles _ _ _ _ _ _ _

variable {sec : Option Word} {ino : Inode}

lemma blockRead_congr {fs other : Fs} (same : fs.SameFiles other) {data : Sector}
  (ran : blockRead sec fs = .ok (data, fs)) : blockRead sec other = .ok (data, other) := by
  rcases blockRead_eq_ok ran with ⟨num, rfl, inside, rfl, _⟩
  rw [← same.1] at inside ⊢
  exact blockRead_of_lt inside

lemma byteToSector_sameFiles {fs other : Fs} (same : fs.SameFiles other) {ino : Inode} {pos : ℤ}
  {sec : Option Word} (ran : byteToSector ino pos fs = .ok (sec, fs)) :
  byteToSector ino pos other = .ok (sec, other) := by
  unfold byteToSector at ran ⊢
  split at ran
  · next direct =>
      rw [if_pos direct]
      cases ran
      rfl
  next notDirect =>
    rw [if_neg notDirect]
    split at ran
    · next indirect =>
        rw [if_pos indirect]
        rcases bind_eq_ok ran with ⟨data, mid, read, rest⟩
        cases rest
        rw [bind_of_ok (blockRead_congr same read)]
        rfl
    next notIndirect =>
      rw [if_neg notIndirect]
      split at ran
      · next doubly =>
          rw [if_pos doubly]
          rcases bind_eq_ok ran with ⟨data, mid, read, rest⟩
          obtain ⟨_, _, _, _, rfl⟩ := blockRead_eq_ok read
          rcases bind_eq_ok rest with ⟨second, mid, readSecond, rest⟩
          cases rest
          rw [bind_of_ok (blockRead_congr same read), bind_of_ok (blockRead_congr same readSecond)]
          rfl
      next negative =>
        rw [if_neg negative]
        cases ran
        rfl

lemma Fs.ByteAt.congr {fs other : Fs} (same : fs.SameFiles other) {pos : ℕ} {byte : Byte}
  (isByte : fs.ByteAt ino pos byte) : other.ByteAt ino pos byte := by
  rcases isByte with ⟨sec, found, isByte⟩
  refine ⟨sec, byteToSector_sameFiles same found, ?_⟩
  rw [same.1]
  exact isByte

structure Delivers (fs : Fs) (inode : Inode) (size offset bytesRead : ℕ)
    (buffer filled : ℕ → Byte) : Prop where
  inside : 0 < size → ((offset + size : ℕ) : ℤ) ≤ inode.data.size
  bytes : ∀ index, index < size → fs.ByteAt inode (offset + index) (filled (bytesRead + index))
  before : ∀ index, index < bytesRead → filled index = buffer index

lemma Delivers.round {fs later : Fs} {size offset bytesRead chunk : ℕ}
  {buffer filled source : ℕ → Byte} {sec : Word} (same : fs.SameFiles later)
  (found : byteToSector ino offset fs = .ok (some sec, fs)) (positive : 0 < chunk)
  (fits : offset % 512 + chunk ≤ 512) (chunkLe : chunk ≤ size)
  (inFile : ((offset + chunk : ℕ) : ℤ) ≤ ino.data.size) (isSource : ∀ idx, idx < chunk →
    source idx = (fs.device.sectors sec.toNat).bytes (offset % 512 + idx))
  (rest : Delivers later ino (size - chunk) (offset + chunk) (bytesRead + chunk)
    (overlay buffer bytesRead chunk source) filled) :
  Delivers fs ino size offset bytesRead buffer filled := by
  have back : later.SameFiles fs := ⟨same.1.symm, same.2.symm⟩
  refine ⟨?_, ?_, ?_⟩
  · intro _
    by_cases more : 0 < size - chunk
    · have inside := rest.inside more
      have total : offset + chunk + (size - chunk) = offset + size := by omega
      rwa [total] at inside
    have all : chunk = size := by omega
    rwa [← all]
  · intro idx idxLt
    by_cases first : idx < chunk
    · have isHere : filled (bytesRead + idx) = source idx := by
        rw [rest.before _ (by omega), overlay_inside (by omega) (by omega)]
        congr 1
        omega
      refine ⟨sec, ?_, ?_⟩
      · rw [byteToSector_congr ino (show (offset + idx) / 512 = offset / 512 by omega)]
        exact found
      rw [isHere, isSource idx first]
      congr 1
      omega
    have isByte := (rest.bytes (idx - chunk) (by omega)).congr back
    have position : offset + chunk + (idx - chunk) = offset + idx := by omega
    have place : bytesRead + chunk + (idx - chunk) = bytesRead + idx := by omega
    rwa [position, place] at isByte
  intro idx idxLt
  rw [rest.before idx (by omega), overlay_outside (by omega)]

lemma chunkSize_eq_natCast {size ofs : ℕ} (positive : 0 < size)
  (pre : (ofs : ℤ) < ino.data.size) :
  ∃ chunk : ℕ, chunkSize ino size ofs = chunk ∧ 0 < chunk ∧ chunk ≤ size ∧
    ofs % 512 + chunk ≤ 512 ∧ ((ofs + chunk : ℕ) : ℤ) ≤ ino.data.size := by
  refine ⟨(chunkSize ino size ofs).toNat, ?_⟩
  simp only [chunkSize, inodeLength, tmod_blockSectorSize]
  have sec : ((blockSectorSize : ℕ) : ℤ) = 512 := rfl
  omega

lemma inodeReadLoop_delivers {address fuel size offset bytesRead : ℕ} {buffer filled : ℕ → Byte}
  {bounce : Bool} {count : ℤ} {fs after : Fs} (isOpen : fs.inodes address = some ino)
  (returned : inodeReadLoop address fuel buffer size offset bytesRead bounce fs =
    .ok ((count, filled), after)) (complete : count = (bytesRead + size : ℕ)) :
  Delivers fs ino size offset bytesRead buffer filled := by
  have nothing : ∀ {fuel offset bytesRead : ℕ} {buffer : ℕ → Byte} {bounce : Bool} {fs : Fs},
      inodeReadLoop address fuel buffer (0 : ℕ) offset bytesRead bounce fs =
        .ok ((count, filled), after) → Delivers fs ino 0 offset bytesRead buffer filled := by
    intro fuel offset bytesRead buffer bounce fs returned
    have done : filled = buffer := by
      cases fuel <;>
      · unfold inodeReadLoop at returned
        cases returned
        rfl
    exact ⟨by omega, by omega, fun _ _ => by rw [done]⟩
  induction fuel generalizing buffer size offset bytesRead bounce fs with
  | zero =>
    by_cases empty : size = 0
    · subst empty
      exact nothing returned
    unfold inodeReadLoop at returned
    rw [if_pos (by omega)] at returned
    cases returned
  | succ fuel ih =>
    by_cases empty : size = 0
    · subst empty
      exact nothing returned
    unfold inodeReadLoop at returned
    rw [if_pos (by omega), bind_of_ok (derefInode_of_some isOpen)] at returned
    rcases bind_eq_ok returned with ⟨secIdx, _, found, rest⟩
    obtain rfl := byteToSector_state found
    by_cases past : (offset : ℤ) ≥ ino.data.size
    · rw [if_pos past] at rest
      cases rest
      omega
    rcases chunkSize_eq_natCast (Nat.pos_of_ne_zero empty) (not_le.mp past) with
      ⟨chunk, isChunk, positive, chunkLe, fits, inFile⟩
    simp only [isChunk, tmod_blockSectorSize] at rest
    rw [if_neg past, if_neg (by omega)] at rest
    have sizes : (size : ℤ) - chunk = (size - chunk : ℕ) ∧
        (offset : ℤ) + chunk = (offset + chunk : ℕ) ∧
        (bytesRead : ℤ) + chunk = (bytesRead + chunk : ℕ) := by omega
    rw [sizes.1, sizes.2.2] at rest
    split at rest
    · next whole =>
        rcases bind_eq_ok rest with ⟨data, _, read, ranRest⟩
        obtain ⟨sec, rfl, _, rfl, rfl⟩ := blockRead_eq_ok read
        have isWhole : chunk = blockSectorSize := by omega
        have aligned : offset % 512 = 0 := by omega
        rw [← isWhole] at ranRest
        refine Delivers.round (Std.Refl.refl _) found positive fits chunkLe inFile ?_
          (ih isOpen ranRest (by omega))
        intro idx _
        rw [aligned, Nat.zero_add]
    rcases bind_eq_ok rest with ⟨ready, later, gotBounce, rest⟩
    have same := getBounce_preserves malloc_sameFiles bounce gotBounce
    split at rest
    · rcases bind_eq_ok rest with ⟨data, _, read, ranRest⟩
      obtain ⟨sec, rfl, _, rfl, rfl⟩ := blockRead_eq_ok read
      rw [Int.toNat_natCast, Int.toNat_natCast, Int.toNat_natCast] at ranRest
      refine Delivers.round same found positive fits chunkLe inFile ?_
        (ih (by rw [same.2]; exact isOpen) ranRest (by omega))
      intro idx _
      rw [same.1]
    cases rest
    omega

lemma fileRead_sameFiles (file : File) (buf : ℕ → Byte) (size : ℤ) :
  Preserves Fs.SameFiles (fileRead file buf size) :=
  .bind (inodeReadAt_sameFiles _ _ _ _) fun _ => .pure _

lemma fileRead_delivers {file moved : File} {buf filled : ℕ → Byte} {size pos : ℕ}
  {fs after : Fs} (isOpen : fs.inodes file.inode = some ino) (atPos : file.pos = pos)
  (ran : fileRead file buf size fs = .ok ((moved, (size : ℤ), filled), after)) :
  Delivers fs ino size pos 0 buf filled ∧ moved.pos = (pos + size : ℕ) := by
  rcases bind_eq_ok ran with ⟨⟨cnt, delivered⟩, mid, read, rest⟩
  cases rest
  rw [atPos] at read
  refine ⟨inodeReadLoop_delivers isOpen read (by simp), ?_⟩
  rw [atPos]
  rfl

end Pintos
