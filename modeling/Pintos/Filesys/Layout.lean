import Mathlib.Order.Interval.Finset.Nat
import Pintos.Filesys.InodeCreate

/-!
# The block layout

`inode_create` lays out the blocks of a file and `byte_to_sector` finds them
again. The two agree for files within the `123` direct sectors. A longer file
cannot be created: `inode_create` stores the sector numbers of its indirect
blocks through the sector number of the block, taken for an address.
-/

namespace Pintos

variable {fs : Fs} {number : Word} {len : ℕ}

/-- The sectors a file needs: its data sectors, its indirect block, and its doubly indirect block
with the indirect blocks below it. -/
def enoughSectors (length : ℕ) : ℕ :=
  let sectors := (length + 511) / 512
  sectors + (if 123 < sectors then 1 else 0) +
    (if 251 < sectors then 1 + (sectors - 251 + 127) / 128 else 0)

def InodeDisk.IndirectBlock (disk : InodeDisk) (device : Block) (length sector : ℕ) : Prop :=
  (123 * 512 < length ∧ disk.dataSector 123 = sector) ∨
    (251 * 512 < length ∧ (disk.dataSector 124 = sector ∨
      ∃ index entry, indirectEntry (device.sectors (disk.dataSector 124)) index = some entry ∧
        entry.toNat = sector))

/-- `inode_create` succeeds, and an inode opened on the new header resolves every position of the
file to a zeroed sector that was allocated for it, one for each block, with no sector allocated
beyond these and the indirect blocks. -/
def CreatesLayout (fs : Fs) (number : Word) (length : ℕ) : Prop :=
  ∃ after, (∃ bound, ∀ fuel, bound ≤ fuel →
      inodeCreate fuel number length fs = .ok (true, after)) ∧
    ∃ address opened inode, inodeOpen number after = .ok (some address, opened) ∧
      opened.inodes address = some inode ∧
      (∀ pos : ℕ, pos < length → ∃ sector : Word,
        byteToSector inode pos opened = .ok (some sector, opened) ∧
          ¬ fs.Used sector.toNat ∧ after.Used sector.toNat ∧
          after.device.sectors sector.toNat = .zeros) ∧
      (∀ left right : ℕ, left < length → right < length →
        (byteToSector inode left opened = byteToSector inode right opened ↔
          left / 512 = right / 512)) ∧
      ∀ other, ¬ fs.Used other → after.Used other →
        (∃ (pos : ℕ) (sector : Word), pos < length ∧
          byteToSector inode pos opened = .ok (some sector, opened) ∧ sector.toNat = other) ∨
        inode.data.IndirectBlock opened.device length other

/-- A state in which an inode can be created at a header sector: the free map is consistent and
fits in its file, the header is marked used, no inode is open there, and heap requests after
the first one are met. -/
structure CreateReady (fs : Fs) (number : Word) : Prop where
  consistent : fs.MapConsistent
  fits : fs.MapFits
  bounces : fs.BouncesOk
  header : NewHeader fs number.toNat
  closed : fs.findInode number = none

lemma CreateReady.mapReady (ready : CreateReady fs number) (next : fs.mallocs 0 = true) :
  fs.MapReady :=
  { ready.consistent with heap := ready.bounces.heapOk next }

lemma findInode_of_onlyData {after : Fs} (same : fs.OnlyData after) (number : Word) :
  after.findInode number = fs.findInode number := by
  unfold Fs.findInode
  rw [same.openInodes_eq, same.inodes_eq]

lemma createsLayout_direct (ready : CreateReady fs number) (next : fs.mallocs 0 = true)
  (direct : len ≤ 123 * 512) (enough : (len + 511) / 512 ≤ fs.freeSectors.card) :
  CreatesLayout fs number len := by
  have mapReady := ready.mapReady next
  obtain ⟨after, run⟩ := inodeCreate_returns mapReady ready.fits ready.header direct enough
  obtain ⟨_, final, created⟩ | ⟨failed, _⟩ := inodeCreate_eq_ok mapReady ready.header direct
    (run (byteCnt fs.freeMap.bitCnt + 1) (by omega))
  · have opening : inodeOpen number after = .ok (some after.nextInode,
        after.pushInode (openedInode number final.encode)) := by
      have hdrLt := ready.header.lt
      have size := created.onlyData.size_eq
      have bitCnt := mapReady.bitCnt_eq
      rw [← created.header_eq]
      refine inodeOpen_fresh (created.onlyData.heapOk mapReady.heap) ?_ (by omega)
      rw [findInode_of_onlyData created.onlyData, ready.closed]
    have resolves : ∀ pos : ℕ, pos < len → byteToSector (openedInode number final.encode) pos
        (after.pushInode (openedInode number final.encode)) =
          .ok (final.sectorAt (pos / 512), after.pushInode (openedInode number final.encode)) := by
      intro pos inside
      have found := byteToSector_direct (openedInode number final.encode)
        (show pos / 512 ≤ 122 by omega) (after.pushInode (openedInode number final.encode))
      rw [found]
      simp [openedInode]
    refine ⟨after, ⟨byteCnt fs.freeMap.bitCnt + 1, fun fuel enough => run fuel (by omega)⟩,
      after.nextInode, _, _, opening, Function.update_self _ _ _, ?_, ?_, ?_⟩
    · intro pos inside
      obtain ⟨sec, sectorAt, isData⟩ := final.sectorAt_eq_some (show pos / 512 < 125 by omega)
      refine ⟨sec, by rw [resolves pos inside, sectorAt], ?_⟩
      rw [isData]
      refine ⟨created.fresh _ (Nat.zero_le _) (by omega), ?_,
        created.zeroed _ (Nat.zero_le _) (by omega)⟩
      rw [created.used_iff]
      exact Or.inr ⟨pos / 512, Nat.zero_le _, by omega, rfl⟩
    · intro left right leftLt rightLt
      rw [resolves left leftLt, resolves right rightLt]
      constructor
      · intro same
        simp only [Except.ok.injEq, Prod.mk.injEq, and_true] at same
        apply created.inj _ _ (Nat.zero_le _) (by omega) (Nat.zero_le _) (by omega)
        unfold InodeDisk.dataSector
        rw [same]
      intro same
      rw [same]
    intro other free used
    rw [created.used_iff] at used
    rcases used with used | ⟨blk, _, blkLt, isData⟩
    · exact absurd used free
    left
    obtain ⟨sec, sectorAt, number⟩ := final.sectorAt_eq_some (show blk < 125 by omega)
    refine ⟨blk * 512, sec, by omega, ?_, number.trans isData⟩
    rw [resolves _ (by omega), Nat.mul_div_cancel _ (by omega), sectorAt]
  · cases failed

lemma createsLayout_exhausted (ready : CreateReady fs number)
  (exhausted : fs.mallocs 0 = false) :
  CreatesLayout fs number len ↔ len = 0 := by
  constructor
  · rintro ⟨after, ⟨bound, ran⟩, addr, opened, ino, _, _, resolves, _, _⟩
    by_contra nonempty
    have same := (ran bound le_rfl).symm.trans (inodeCreate_exhausted exhausted bound len)
    cases same
    obtain ⟨sec, _, free, used, _⟩ := resolves 0 (by omega)
    exact free used
  rintro rfl
  have hdrLt := ready.header.lt
  have bitCnt := ready.consistent.bitCnt_eq
  have opening := inodeOpen_fresh
    (show Fs.HeapOk { fs with mallocs := fun req => fs.mallocs (req + 1) } from
      ready.bounces) ready.closed (show number.toNat < fs.device.size by omega)
  refine ⟨_, ⟨0, fun fuel _ => inodeCreate_exhausted exhausted fuel 0⟩, _, _, _, opening,
    Function.update_self _ _ _, by simp, by simp, ?_⟩
  intro other free used
  exact absurd used free

lemma not_createsLayout_long (ready : CreateReady fs number) (long : 123 * 512 < len)
  (spare : 126 ≤ fs.freeSectors.card) : ¬ CreatesLayout fs number len := by
  intro meets
  by_cases next : fs.mallocs 0 = true
  · obtain ⟨after, ⟨bound, ran⟩, _⟩ := meets
    exact inodeCreate_long (ready.mapReady next) ready.header long spare bound true
      (ran bound le_rfl)
  have empty := (createsLayout_exhausted ready (by simpa using next)).mp meets
  omega

def blankFs (size : ℕ) : Fs where
  device := { size := size, sectors := fun _ => .zeros }
  freeMap := bitmapMark { bitCnt := size, bits := fun _ => 0 } 0
  freeMapFile := none
  inodes := fun _ => none
  openInodes := []
  nextInode := 0
  i := 0
  mallocs := fun _ => true

lemma blankFs_used_iff (size sec : ℕ) : (blankFs size).Used sec ↔ sec = 0 := by
  have marked := bitmapTest_bitmapSet { bitCnt := size, bits := fun _ => 0 } 0 sec true
  have clear : bitmapTest { bitCnt := size, bits := fun _ => 0 } sec = false := by
    simp [bitmapTest]
  rw [clear] at marked
  change bitmapTest (bitmapSet { bitCnt := size, bits := fun _ => 0 } 0 true) sec = true ↔ _
  rw [marked]
  simp

lemma blankFs_createReady {size : ℕ} (positive : 0 < size) (bounded : size ≤ 2 ^ 32) :
  CreateReady (blankFs size) 0 where
  consistent :=
    { bitCnt_eq := rfl
      size_le := bounded
      file_open := fun _ isFile => by cases isFile
      file_used := fun _ isMap => by
        obtain ⟨_, _, _, isFile, _⟩ := isMap
        cases isFile }
  fits _ _ isFile := by cases isFile
  bounces _ := rfl
  header :=
    { lt := positive
      used := (blankFs_used_iff size 0).mpr rfl
      notMap := fun isMap => by
        obtain ⟨_, _, _, isFile, _⟩ := isMap
        cases isFile }
  closed := rfl

lemma blankFs_freeSectors (size : ℕ) : size - 1 ≤ (blankFs size).freeSectors.card := by
  have subset : Finset.Ico 1 size ⊆ (blankFs size).freeSectors := by
    intro sec mem
    rw [Finset.mem_Ico] at mem
    rw [Fs.mem_freeSectors, blankFs_used_iff]
    exact ⟨mem.2, by omega⟩
  have card := Finset.card_le_card subset
  rwa [Nat.card_Ico] at card

end Pintos
