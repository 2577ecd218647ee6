import Pintos.Filesys.File
import Pintos.Filesys.Contents

/-!
# What reading, writing and allocating leave alone

Reading and writing a file, and allocating and releasing sectors, change at most
the sectors of the device, the free map and the supply of heap memory. The table
of in-memory inodes stays as it is. The statements hold for every call that
returns, whatever the state it started from.
-/

namespace Pintos

open Pintos.Computation

structure Fs.OnlyData (before after : Fs) : Prop where
  size_eq : after.device.size = before.device.size
  inodes_eq : after.inodes = before.inodes
  openInodes_eq : after.openInodes = before.openInodes
  nextInode_eq : after.nextInode = before.nextInode
  freeMapFile_eq : after.freeMapFile = before.freeMapFile
  bitCnt_eq : after.freeMap.bitCnt = before.freeMap.bitCnt
  i_eq : after.i = before.i
  heapOk : before.HeapOk → after.HeapOk

instance : IsPreorder Fs Fs.OnlyData where
  refl _ := ⟨rfl, rfl, rfl, rfl, rfl, rfl, rfl, id⟩
  trans _ _ _ first second :=
    { size_eq := second.size_eq.trans first.size_eq
      inodes_eq := second.inodes_eq.trans first.inodes_eq
      openInodes_eq := second.openInodes_eq.trans first.openInodes_eq
      nextInode_eq := second.nextInode_eq.trans first.nextInode_eq
      freeMapFile_eq := second.freeMapFile_eq.trans first.freeMapFile_eq
      bitCnt_eq := second.bitCnt_eq.trans first.bitCnt_eq
      i_eq := second.i_eq.trans first.i_eq
      heapOk := second.heapOk ∘ first.heapOk }

lemma malloc_onlyData : Preserves Fs.OnlyData malloc := by
  intro pre val after ran
  cases ran
  exact ⟨rfl, rfl, rfl, rfl, rfl, rfl, rfl, fun heap req => heap (req + 1)⟩

lemma blockWrite_onlyData (sector : Option Word) (data : Sector) :
  Preserves Fs.OnlyData (blockWrite sector data) := by
  intro pre val after ran
  obtain ⟨_, _, _, rfl⟩ := blockWrite_eq_ok ran
  exact ⟨rfl, rfl, rfl, rfl, rfl, rfl, rfl, id⟩

section Reading

variable {related : Fs → Fs → Prop} [IsPreorder Fs related]

lemma derefInode_preserves (addr : ℕ) : Preserves related (derefInode addr) := by
  intro pre val after ran
  obtain ⟨_, rfl⟩ := derefInode_eq_ok ran
  exact Std.Refl.refl _

lemma blockRead_preserves (sector : Option Word) : Preserves related (blockRead sector) := by
  intro pre val after ran
  obtain ⟨_, _, _, _, rfl⟩ := blockRead_eq_ok ran
  exact Std.Refl.refl _

lemma byteToSector_preserves (inode : Inode) (pos : ℤ) :
  Preserves related (byteToSector inode pos) := by
  intro pre val after ran
  obtain rfl := byteToSector_state ran
  exact Std.Refl.refl _

lemma getBounce_preserves (mallocKeeps : Preserves related malloc) (bounce : Bool) :
  Preserves related (getBounce bounce) := by
  cases bounce
  · exact mallocKeeps
  · exact Preserves.pure true

lemma inodeReadLoop_preserves (mallocKeeps : Preserves related malloc) (addr fuel : ℕ)
  (buf : ℕ → Byte) (size ofs bytesRead : ℤ) (bounce : Bool) :
  Preserves related (inodeReadLoop addr fuel buf size ofs bytesRead bounce) := by
  induction fuel generalizing buf size ofs bytesRead bounce with
  | zero =>
    exact .ite (.stop _) (.pure _)
  | succ fuel ih =>
    refine .ite (.bind (derefInode_preserves addr) fun inode =>
      .bind (byteToSector_preserves inode ofs) fun sectorIdx => ?_) (.pure _)
    refine .ite (.pure _) (.ite (.pure _) (.ite ?_ ?_))
    · exact .bind (blockRead_preserves sectorIdx) fun data => ih _ _ _ _ _
    refine .bind (getBounce_preserves mallocKeeps bounce) fun ready => .ite ?_ (.pure _)
    exact .bind (blockRead_preserves sectorIdx) fun data => ih _ _ _ _ _

end Reading

def Fs.Untouched (before after : Fs) : Prop := before.HeapOk → after = before

instance : IsPreorder Fs Fs.Untouched where
  refl _ _ := rfl
  trans _ _ _ first second heap := by
    obtain rfl := first heap
    exact second heap

lemma malloc_untouched : Preserves Fs.Untouched malloc := by
  intro pre val after ran heap
  rw [malloc_of_heapOk heap] at ran
  cases ran
  rfl

lemma inodeReadAt_untouched (addr : ℕ) (buf : ℕ → Byte) (size ofs : ℤ) :
  Preserves Fs.Untouched (inodeReadAt addr buf size ofs) :=
  inodeReadLoop_preserves malloc_untouched _ _ _ _ _ _ _

variable {writeAt : ℕ → (ℕ → Byte) → ℤ → ℤ → Kernel ℤ}

section Writing

variable {related : Fs → Fs → Prop} [IsPreorder Fs related]

lemma copyIntoSector_preserves (bounce : Sector) (sectorOfs chunk : ℤ) (src : ℕ → Byte) :
  Preserves related (copyIntoSector bounce sectorOfs chunk src) :=
  .ite (.stop _) (.pure _)

lemma bitmapWrite_preserves
  (writeKeeps : ∀ addr buf size ofs, Preserves related (writeAt addr buf size ofs))
  (bitmap : Bitmap) (file : File) : Preserves related (bitmapWrite writeAt bitmap file) :=
  .bind (writeKeeps _ _ _ _) fun _ => .pure _

variable {allocate : ℕ → Kernel (Option Word)} (mallocKeeps : Preserves related malloc)
  (blockWriteKeeps : ∀ sector data, Preserves related (blockWrite sector data))
  (failureKeeps : ∀ cnt pre after, allocate cnt pre = .ok (none, after) →
    related pre after)

include failureKeeps in
lemma allocatePastEnd_preserves (chunk remainingSize : ℤ) :
  Preserves related (allocatePastEnd allocate chunk remainingSize) := by
  refine .ite ?_ (.pure _)
  intro pre val after ran
  rcases bind_eq_ok ran with ⟨sector, mid, allocates, rest⟩
  cases sector with
  | none =>
    cases rest
    exact failureKeeps _ pre after allocates
  | some num => cases rest

include mallocKeeps blockWriteKeeps

lemma writeSectorChunk_preserves (sectorIdx : Option Word) (sectorOfs chunk : ℤ)
  (src : ℕ → Byte) (bounce : Bool) :
  Preserves related (writeSectorChunk sectorIdx sectorOfs chunk src bounce) := by
  have copies : ∀ old, Preserves related (do
      let data ← copyIntoSector old sectorOfs chunk src
      blockWrite sectorIdx data
      pure (some true)) := fun old =>
    .bind (copyIntoSector_preserves _ _ _ _) fun _ =>
      .bind (blockWriteKeeps _ _) fun _ => .pure _
  refine .ite (.bind (blockWriteKeeps _ _) fun _ => .pure _) ?_
  refine .bind (getBounce_preserves mallocKeeps bounce) fun ready => .ite (.ite ?_ ?_) (.pure _)
  · exact .bind (blockRead_preserves _) copies
  · exact .bind (.pure _) copies

include failureKeeps

lemma inodeWriteLoop_preserves (addr : ℕ) (buf : ℕ → Byte) (fuel : ℕ) (size ofs bytesWritten : ℤ)
  (bounce : Bool) :
  Preserves related (inodeWriteLoop allocate addr buf fuel size ofs bytesWritten bounce) := by
  induction fuel generalizing size ofs bytesWritten bounce with
  | zero =>
    exact .ite (.stop _) (.pure _)
  | succ fuel ih =>
    refine .ite (.bind (derefInode_preserves addr) fun inode =>
      .bind (byteToSector_preserves inode ofs) fun sectorIdx =>
      .bind (allocatePastEnd_preserves failureKeeps _ _) fun _ =>
      .bind (writeSectorChunk_preserves mallocKeeps blockWriteKeeps _ _ _ _ _) fun written =>
        ?_) (.pure _)
    cases written with
    | none => exact .pure _
    | some ready => exact ih _ _ _ _

lemma inodeWriteAtWith_preserves (fuel addr : ℕ) (buf : ℕ → Byte) (size ofs : ℤ) :
  Preserves related (inodeWriteAtWith allocate fuel addr buf size ofs) :=
  .bind mallocKeeps fun _ => .ite (.bind (derefInode_preserves addr) fun _ =>
      .ite (.pure _)
        (inodeWriteLoop_preserves mallocKeeps blockWriteKeeps failureKeeps _ _ _ _ _ _ _))
    (.stop _)

end Writing

lemma inodeWriteAtWith_onlyData {allocate : ℕ → Kernel (Option Word)}
  (allocateKeeps : ∀ cnt, Preserves Fs.OnlyData (allocate cnt)) (fuel addr : ℕ) (buf : ℕ → Byte)
  (size ofs : ℤ) : Preserves Fs.OnlyData (inodeWriteAtWith allocate fuel addr buf size ofs) :=
  inodeWriteAtWith_preserves malloc_onlyData blockWrite_onlyData
    (fun cnt _ _ ran => allocateKeeps cnt ran) fuel addr buf size ofs

lemma Fs.onlyData_freeMap (fs : Fs) {freeMap : Bitmap}
  (bitCnt : freeMap.bitCnt = fs.freeMap.bitCnt) : fs.OnlyData { fs with freeMap := freeMap } :=
  ⟨rfl, rfl, rfl, rfl, rfl, bitCnt, rfl, id⟩

lemma recordAllocation_onlyData
  (writeKeeps : ∀ addr buf size ofs, Preserves Fs.OnlyData (writeAt addr buf size ofs))
  (sector cnt : ℕ) (flipped : Bitmap) (file : File) :
  Preserves Fs.OnlyData (recordAllocation writeAt sector cnt flipped file) := by
  refine .bind (bitmapWrite_preserves writeKeeps flipped file) fun written => .ite (.pure _) ?_
  refine .bind (.updates fun fs => fs.onlyData_freeMap ?_) fun _ => .pure _
  exact bitmapSetMultiple_bitCnt fs.freeMap sector cnt false

lemma freeMapAllocate_onlyData (fuel cnt : ℕ) :
  Preserves Fs.OnlyData (freeMapAllocate fuel cnt) := by
  induction fuel generalizing cnt with
  | zero =>
    exact .stop _
  | succ fuel ih =>
    intro pre val after ran
    cases scan : bitmapScan pre.freeMap 0 cnt false with
    | none =>
      rw [freeMapAllocate_full fuel scan] at ran
      cases ran
      exact Std.Refl.refl _
    | some sector =>
      have marked := pre.onlyData_freeMap (bitmapSetMultiple_bitCnt pre.freeMap sector cnt true)
      cases isOpen : pre.freeMapFile with
      | none =>
        rw [freeMapAllocate_unrecorded fuel scan isOpen] at ran
        cases ran
        exact marked
      | some file =>
        rw [freeMapAllocate_recorded fuel scan isOpen] at ran
        exact IsTrans.trans _ _ _ marked
          (recordAllocation_onlyData (inodeWriteAtWith_onlyData ih fuel) _ _ _ _ ran)

lemma inodeWriteAt_onlyData (fuel addr : ℕ) (buf : ℕ → Byte) (size ofs : ℤ) :
  Preserves Fs.OnlyData (inodeWriteAt fuel addr buf size ofs) :=
  inodeWriteAtWith_onlyData (freeMapAllocate_onlyData fuel) fuel addr buf size ofs

lemma freeMapRelease_onlyData (fuel : ℕ) (sector : Word) (cnt : ℕ) :
  Preserves Fs.OnlyData (freeMapRelease fuel sector cnt) := by
  intro pre val after ran
  obtain ⟨_, _, file, written, _, wrote⟩ := freeMapRelease_eq_ok fuel ran
  have cleared := pre.onlyData_freeMap (bitmapSetMultiple_bitCnt pre.freeMap sector.toNat cnt false)
  exact IsTrans.trans _ _ _ cleared
    (bitmapWrite_preserves (inodeWriteAt_onlyData fuel) _ file wrote)

section Creating

variable {related : Fs → Fs → Prop} [IsPreorder Fs related] {fuel : ℕ}
  (mallocKeeps : Preserves related malloc)
  (blockWriteKeeps : ∀ sector data, Preserves related (blockWrite sector data))
  (allocateKeeps : ∀ cnt, Preserves related (freeMapAllocate fuel cnt))

include allocateKeeps

lemma allocateIndirect_preserves (left : ℕ) : Preserves related (allocateIndirect fuel left) := by
  induction left with
  | zero => exact .pure _
  | succ left ih =>
    refine .bind (allocateKeeps 1) fun sector => ?_
    cases sector with
    | none => exact ih
    | some num => exact .stop _

include blockWriteKeeps

lemma inodeCreateLoop_preserves (sector : Word) (secSave i : ℕ) (disk : InodeDisk) :
  Preserves related (inodeCreateLoop fuel sector secSave i disk) := by
  induction secSave generalizing i disk with
  | zero => exact .pure _
  | succ secSave ih =>
    refine .bind (allocateKeeps 1) fun first => .ite ?_ ?_
    · exact .bind (blockWriteKeeps _ _) fun _ => .bind (blockWriteKeeps _ _) fun _ => ih _ _
    refine .bind (allocateKeeps 1) fun second => .ite ?_ ?_
    · exact .bind (allocateIndirect_preserves allocateKeeps 128) fun _ =>
        .bind (blockWriteKeeps _ _) fun _ => ih _ _
    · exact .bind (allocateKeeps 1) fun third => .ite (.stop _) (.pure _)

include mallocKeeps in
lemma inodeCreate_preserves (sector : Word) (len : ℤ) :
  Preserves related (inodeCreate fuel sector len) :=
  .ite (.stop _) (.bind mallocKeeps fun _ => .ite (.bind (blockWriteKeeps _ _) fun _ =>
      inodeCreateLoop_preserves blockWriteKeeps allocateKeeps sector _ _ _)
    (.pure _))

end Creating

lemma inodeCreate_onlyData (fuel : ℕ) (sector : Word) (len : ℤ) :
  Preserves Fs.OnlyData (inodeCreate fuel sector len) :=
  inodeCreate_preserves malloc_onlyData blockWrite_onlyData (freeMapAllocate_onlyData fuel) sector
    len

lemma fileRead_onlyData (file : File) (buf : ℕ → Byte) (size : ℤ) :
  Preserves Fs.OnlyData (fileRead file buf size) :=
  .bind (inodeReadLoop_preserves malloc_onlyData _ _ _ _ _ _ _) fun _ => .pure _

lemma fileWrite_onlyData (fuel : ℕ) (file : File) (buf : ℕ → Byte) (size : ℤ) :
  Preserves Fs.OnlyData (fileWrite fuel file buf size) :=
  .bind (inodeWriteAt_onlyData fuel _ _ _ _) fun _ => .pure _

end Pintos
