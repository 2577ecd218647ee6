import Mathlib.Data.List.Pairwise
import Pintos.Threads.Malloc

/-!
# The books of the block allocator

What the headers, the free lists and the pages in use say about one another. The
allocator changes them in six ways: it adds an arena or a big block, takes a block
from a free list or gives it back, and drops an arena or a big block. Each way
keeps the books, and so does a store into a block that is handed out.
-/

namespace Pintos.Malloc

section Addresses

variable {run other : Run} {ofs : ℕ}

lemma pgRoundDown_base (inside : ofs < pgSize) : pgRoundDown (run.base + ofs) = run.base := by
  simp only [pgRoundDown, Run.base, pgSize] at inside ⊢
  omega

lemma pgOfs_base (inside : ofs < pgSize) : pgOfs (run.base + ofs) = ofs := by
  simp only [pgOfs, Run.base, pgSize] at inside ⊢
  omega

lemma Run.base_inj (same : run.base = other.base) : run.page = other.page := by
  simp only [Run.base, pgSize] at same
  omega

instance : Std.Symm Run.Apart := ⟨fun _ _ apart => Or.symm apart⟩

lemma Run.Apart.addresses (apart : run.Apart other) :
  run.stop ≤ other.base ∨ other.stop ≤ run.base := by
  rcases apart with pre | behind
  · exact Or.inl (Nat.mul_le_mul_right _ pre)
  · exact Or.inr (Nat.mul_le_mul_right _ behind)

lemma Run.stop_eq : run.stop = run.base + run.count * pgSize :=
  Nat.add_mul _ _ _

lemma Run.base_add_le_stop (cnt : 0 < run.count) : run.base + pgSize ≤ run.stop := by
  simp only [Run.stop, Run.base, pgSize]
  omega

lemma Run.headers_apart (ne : run.base ≠ other.base) :
  run.base + pgSize ≤ other.base ∨ other.base + pgSize ≤ run.base := by
  simp only [Run.base, pgSize] at ne ⊢
  omega

end Addresses

section Headers

variable {heap : Heap} {addr start cnt : ℕ} {src mem : ℕ → Byte} {arena : Arena}

lemma wordAt_overlay_of_apart (apart : addr + 4 ≤ start ∨ start + cnt ≤ addr) :
  wordAt (overlay mem start cnt src) addr = wordAt mem addr := by
  refine wordOfBytes_congr ?_
  intro idx bound
  refine overlay_outside ?_
  omega

lemma arena_write_of_apart (apart : addr + arenaSize ≤ start ∨ start + cnt ≤ addr) :
  (heap.write start cnt src).arena addr = heap.arena addr := by
  simp only [arenaSize] at apart
  simp only [Heap.arena, Heap.write]
  rw [wordAt_overlay_of_apart (by omega), wordAt_overlay_of_apart (by omega),
    wordAt_overlay_of_apart (by omega)]

lemma wordAt_putArena {words : ℕ → Word} {idx : ℕ} (inside : idx < 3) :
  wordAt (overlay mem addr arenaSize (bytesOfWords words)) (addr + 4 * idx) = words idx := by
  have words_eq : wordsOfBytes (bytesOfWords words) idx = words idx := by
    rw [wordsOfBytes_bytesOfWords]
  rw [← words_eq]
  refine wordOfBytes_congr ?_
  intro posn bound
  rw [overlay_inside (by omega) (by simp only [arenaSize]; omega)]
  congr 1
  omega

lemma descOfWord_wordOfDesc {desc : Option ℕ} (bound : ∀ num, desc = some num → num < 10) :
  descOfWord (wordOfDesc desc) = desc := by
  cases desc with
  | none => rfl
  | some num =>
    have small := bound num rfl
    have isNat : (BitVec.ofNat 32 (num + 1)).toNat = num + 1 := by
      rw [BitVec.toNat_ofNat]
      omega
    have notZero : BitVec.ofNat 32 (num + 1) ≠ 0 := by
      intro isZero
      rw [isZero] at isNat
      simp at isNat
    rw [wordOfDesc, descOfWord, if_neg notZero, isNat, Nat.add_sub_cancel]

lemma arena_putArena_self (bound : ∀ num, arena.desc = some num → num < 10) :
  (heap.putArena addr arena).arena addr = arena := by
  have words : ∀ idx < 3, wordAt (overlay heap.memory addr arenaSize
      (bytesOfWords arena.words)) (addr + 4 * idx) = arena.words idx :=
    fun idx inside => wordAt_putArena inside
  have magic := words 0 (by omega)
  have desc := words 1 (by omega)
  have freeCnt := words 2 (by omega)
  simp only [Nat.mul_zero, Nat.add_zero, Nat.mul_one] at magic desc freeCnt
  simp only [Heap.arena, Heap.putArena, Heap.write, magic, desc, freeCnt, Arena.words,
    descOfWord_wordOfDesc bound]

lemma arena_putArena_of_ne {run other : Run} (ne : run.base ≠ other.base) :
  (heap.putArena run.base arena).arena other.base = heap.arena other.base := by
  refine arena_write_of_apart ?_
  have apart := Run.headers_apart ne
  simp only [arenaSize, pgSize] at apart ⊢
  omega

end Headers

section FreeLists

variable {heap : Heap} {desc other : ℕ} {freeList : List ℕ}

@[simp]
lemma putFreeList_blockSize :
  ((heap.putFreeList desc freeList).descs other).blockSize = (heap.descs other).blockSize := by
  by_cases same : other = desc <;> simp [Heap.putFreeList, same]

@[simp]
lemma putFreeList_blocksPerArena : ((heap.putFreeList desc freeList).descs other).blocksPerArena =
    (heap.descs other).blocksPerArena := by
  by_cases same : other = desc <;> simp [Heap.putFreeList, same]

@[simp]
lemma putFreeList_freeList_self :
  ((heap.putFreeList desc freeList).descs desc).freeList = freeList := by
  simp [Heap.putFreeList]

lemma putFreeList_of_ne (ne : other ≠ desc) :
  (heap.putFreeList desc freeList).descs other = heap.descs other := by
  simp [Heap.putFreeList, ne]

end FreeLists

structure Desc.Sound (desc : Desc) : Prop where
  roomy : elemSize ≤ desc.blockSize
  positive : 0 < desc.blocksPerArena
  fits : arenaSize + desc.blocksPerArena * desc.blockSize ≤ pgSize

def Heap.freeIn (heap : Heap) (desc base : ℕ) : ℕ :=
  (heap.descs desc).freeList.countP fun block => decide (pgRoundDown block = base)

structure Heap.Normal (heap : Heap) (run : Run) (desc : ℕ) : Prop where
  magic : (heap.arena run.base).magic = arenaMagic
  owner : (heap.arena run.base).desc = some desc
  known : desc < heap.descCnt
  single : run.count = 1
  counted : (heap.arena run.base).freeCnt.toNat = heap.freeIn desc run.base

structure Heap.Big (heap : Heap) (run : Run) : Prop where
  magic : (heap.arena run.base).magic = arenaMagic
  owner : (heap.arena run.base).desc = none
  counted : (heap.arena run.base).freeCnt.toNat = run.count

def Heap.Slot (heap : Heap) (run : Run) (desc block : ℕ) : Prop :=
  ∃ index < (heap.descs desc).blocksPerArena,
    block = run.base + arenaSize + index * (heap.descs desc).blockSize

inductive Heap.Holds (heap : Heap) (run : Run) (block : ℕ) : Prop
  | big (isBig : heap.Big run) (isFirst : block = run.base + arenaSize) : Holds heap run block
  | normal {desc : ℕ} (isNormal : heap.Normal run desc) (isSlot : heap.Slot run desc block)
      (notFree : block ∉ (heap.descs desc).freeList) : Holds heap run block

structure Heap.Books (heap : Heap) (live : Finset ℕ) : Prop where
  few : heap.descCnt ≤ 10
  shapes : ∀ desc < heap.descCnt, (heap.descs desc).Sound
  apart : heap.runs.Pairwise Run.Apart
  placed : ∀ run ∈ heap.runs, 0 < run.page ∧ 0 < run.count ∧ run.page + run.count ≤ 2 ^ 20
  headed : ∀ run ∈ heap.runs, heap.Big run ∨ ∃ desc, heap.Normal run desc
  frees : ∀ desc < heap.descCnt, ∀ block ∈ (heap.descs desc).freeList,
    ∃ run ∈ heap.runs, heap.Normal run desc ∧ heap.Slot run desc block
  nodup : ∀ desc < heap.descCnt, (heap.descs desc).freeList.Nodup
  lives : ∀ block ∈ live, ∃ run ∈ heap.runs, heap.Holds run block

def Heap.Unfilled (heap : Heap) (run : Run) : Prop :=
  ∀ desc, (heap.arena run.base).desc = some desc →
    heap.freeIn desc run.base < (heap.descs desc).blocksPerArena

section Slots

variable {heap : Heap} {run : Run} {desc blk one two : ℕ}

lemma Heap.Slot.bounds (isSlot : heap.Slot run desc blk) (sound : (heap.descs desc).Sound) :
  run.base + arenaSize ≤ blk ∧ blk + (heap.descs desc).blockSize ≤ run.base + pgSize := by
  rcases isSlot with ⟨idx, inside, rfl⟩
  have fits := sound.fits
  have upper : (idx + 1) * (heap.descs desc).blockSize ≤
      (heap.descs desc).blocksPerArena * (heap.descs desc).blockSize :=
    Nat.mul_le_mul_right _ inside
  rw [Nat.add_mul] at upper
  omega

lemma Heap.Slot.page (isSlot : heap.Slot run desc blk) (sound : (heap.descs desc).Sound) :
  pgRoundDown blk = run.base := by
  have bounds := isSlot.bounds sound
  have roomy := sound.roomy
  have isOfs : blk = run.base + (blk - run.base) := by omega
  rw [isOfs]
  refine pgRoundDown_base ?_
  simp only [elemSize] at roomy
  omega

lemma Heap.Slot.apart (isOne : heap.Slot run desc one) (isTwo : heap.Slot run desc two)
  (ne : one ≠ two) :
  one + (heap.descs desc).blockSize ≤ two ∨ two + (heap.descs desc).blockSize ≤ one := by
  rcases isOne with ⟨first, _, rfl⟩
  rcases isTwo with ⟨second, _, rfl⟩
  rcases Nat.lt_trichotomy first second with pre | same | behind
  · have upper : (first + 1) * (heap.descs desc).blockSize ≤
        second * (heap.descs desc).blockSize := Nat.mul_le_mul_right _ pre
    rw [Nat.add_mul] at upper
    omega
  · exact absurd (by rw [same]) ne
  have upper : (second + 1) * (heap.descs desc).blockSize ≤
      first * (heap.descs desc).blockSize := Nat.mul_le_mul_right _ behind
  rw [Nat.add_mul] at upper
  omega

end Slots

structure Heap.Alike (heap after : Heap) : Prop where
  descCnt : after.descCnt = heap.descCnt
  blockSize : ∀ desc, (after.descs desc).blockSize = (heap.descs desc).blockSize
  blocksPerArena : ∀ desc, (after.descs desc).blocksPerArena = (heap.descs desc).blocksPerArena

section Transport

variable {heap after : Heap} {run : Run} {desc blk : ℕ}

lemma Heap.Alike.sound (alike : heap.Alike after) (sound : (heap.descs desc).Sound) :
  (after.descs desc).Sound := by
  rcases sound with ⟨roomy, pos, fits⟩
  exact ⟨by rwa [alike.blockSize], by rwa [alike.blocksPerArena],
    by rwa [alike.blockSize, alike.blocksPerArena]⟩

lemma Heap.Alike.slot (alike : heap.Alike after) :
  after.Slot run desc blk ↔ heap.Slot run desc blk := by
  simp [Heap.Slot, alike.blockSize, alike.blocksPerArena]

lemma Heap.Big.transport (isBig : heap.Big run)
  (sameArena : after.arena run.base = heap.arena run.base) : after.Big run := by
  rcases isBig with ⟨magic, owner, counted⟩
  exact ⟨by rwa [sameArena], by rwa [sameArena], by rwa [sameArena]⟩

lemma Heap.Normal.transport (isNormal : heap.Normal run desc) (alike : heap.Alike after)
  (sameArena : after.arena run.base = heap.arena run.base)
  (sameFree : after.freeIn desc run.base = heap.freeIn desc run.base) :
  after.Normal run desc := by
  rcases isNormal with ⟨magic, owner, known, single, counted⟩
  exact ⟨by rwa [sameArena], by rwa [sameArena], by rwa [alike.descCnt], single,
    by rwa [sameArena, sameFree]⟩

lemma Heap.Holds.transport (holds : heap.Holds run blk) (alike : heap.Alike after)
  (big : heap.Big run → after.Big run)
  (normal : ∀ desc, heap.Normal run desc → after.Normal run desc)
  (free : ∀ desc, heap.Normal run desc → heap.Slot run desc blk →
    blk ∈ (after.descs desc).freeList → blk ∈ (heap.descs desc).freeList) :
  after.Holds run blk := by
  cases holds with
  | big isBig isFirst => exact .big (big isBig) isFirst
  | normal isNormal isSlot notFree =>
    exact .normal (normal _ isNormal) (alike.slot.mpr isSlot)
      (fun isFree => notFree (free _ isNormal isSlot isFree))

lemma Heap.Normal.unique {other : ℕ} (isNormal : heap.Normal run desc)
  (isOther : heap.Normal run other) : desc = other :=
  Option.some.inj (isNormal.owner.symm.trans isOther.owner)

lemma Heap.Big.not_normal (isBig : heap.Big run) : ¬ heap.Normal run desc := by
  intro isNormal
  cases isBig.owner.symm.trans isNormal.owner

end Transport

def Heap.recount (heap : Heap) (desc base : ℕ) (freeList : List ℕ) (freeCnt : Word) : Heap :=
  (heap.putFreeList desc freeList).putArena base { heap.arena base with freeCnt := freeCnt }

section Recount

variable {heap : Heap} {desc other base : ℕ} {freeList : List ℕ} {freeCnt : Word}

lemma write_alike {start cnt : ℕ} {src : ℕ → Byte} : heap.Alike (heap.write start cnt src) :=
  ⟨rfl, fun _ => rfl, fun _ => rfl⟩

lemma putFreeList_alike : heap.Alike (heap.putFreeList desc freeList) :=
  ⟨rfl, fun _ => putFreeList_blockSize, fun _ => putFreeList_blocksPerArena⟩

lemma recount_alike : heap.Alike (heap.recount desc base freeList freeCnt) :=
  ⟨rfl, fun _ => putFreeList_blockSize, fun _ => putFreeList_blocksPerArena⟩

@[simp]
lemma recount_freeList_self :
  ((heap.recount desc base freeList freeCnt).descs desc).freeList = freeList :=
  putFreeList_freeList_self

lemma recount_descs_of_ne (ne : other ≠ desc) :
  (heap.recount desc base freeList freeCnt).descs other = heap.descs other :=
  putFreeList_of_ne ne

end Recount

def Heap.grow (heap : Heap) (run : Run) (arena : Arena) : Heap :=
  Heap.putArena { heap with runs := run :: heap.runs } run.base arena

namespace Heap.Books

variable {heap after : Heap} {live blks : Finset ℕ} {run other : Run} {desc blk : ℕ}
  {added freeList : List ℕ}

section

variable (books : heap.Books live)
include books

lemma eq_of_base (member : run ∈ heap.runs) (memOther : other ∈ heap.runs)
  (same : run.base = other.base) : run = other := by
  by_contra ne
  have apart := books.apart.forall member memOther ne
  have cnt := (books.placed run member).2.1
  have cntOther := (books.placed other memOther).2.1
  have samePage := Run.base_inj same
  grind [Run.Apart]

lemma nodup_runs : heap.runs.Nodup := by
  refine books.apart.imp_of_mem ?_
  rintro one two member _ apart rfl
  have cnt := (books.placed one member).2.1
  grind [Run.Apart]

lemma free_page (known : desc < heap.descCnt) (member : run ∈ heap.runs)
  (isFree : blk ∈ (heap.descs desc).freeList) (inPage : pgRoundDown blk = run.base) :
  heap.Normal run desc ∧ heap.Slot run desc blk := by
  rcases books.frees desc known blk isFree with ⟨owner, memOwner, isNormal, isSlot⟩
  have same : owner = run := books.eq_of_base memOwner member
    ((isSlot.page (books.shapes desc known)).symm.trans inPage)
  rw [← same]
  exact ⟨isNormal, isSlot⟩

lemma page_of_holds (holds : heap.Holds run blk) : pgRoundDown blk = run.base := by
  cases holds with
  | big isBig isFirst =>
    rw [isFirst]
    exact pgRoundDown_base (by decide)
  | normal isNormal isSlot notFree => exact isSlot.page (books.shapes _ isNormal.known)

lemma not_free (isLive : blk ∈ live) (known : desc < heap.descCnt) :
  blk ∉ (heap.descs desc).freeList := by
  intro isFree
  rcases books.lives blk isLive with ⟨run, member, holds⟩
  rcases books.free_page known member isFree (books.page_of_holds holds) with ⟨isNormal, _⟩
  cases holds with
  | big isBig isFirst => exact isBig.not_normal isNormal
  | normal isNormal' isSlot notFree =>
    cases isNormal.unique isNormal'
    exact notFree isFree

lemma written {start cnt : ℕ} {src : ℕ → Byte}
  (kept : ∀ run ∈ heap.runs, (heap.write start cnt src).arena run.base = heap.arena run.base) :
  (heap.write start cnt src).Books live := by
  have normal : ∀ run ∈ heap.runs, ∀ desc, heap.Normal run desc →
      (heap.write start cnt src).Normal run desc :=
    fun run member desc isNormal => isNormal.transport write_alike (kept run member) rfl
  have big : ∀ run ∈ heap.runs, heap.Big run → (heap.write start cnt src).Big run :=
    fun run member isBig => isBig.transport (kept run member)
  rcases books with ⟨few, shapes, apart, placed, headed, frees, nodup, lives⟩
  refine ⟨few, shapes, apart, placed, by grind [Heap.write], ?_, nodup, ?_⟩
  · intro desc known blk isFree
    rcases frees desc known blk isFree with ⟨run, member, isNormal, isSlot⟩
    exact ⟨run, member, normal run member desc isNormal, isSlot⟩
  intro blk isLive
  rcases lives blk isLive with ⟨run, member, holds⟩
  exact ⟨run, member, holds.transport write_alike (big run member) (normal run member)
    fun _ _ _ => id⟩

lemma base_ne_of_fresh (fresh : heap.Fresh run) (cnt : 0 < run.count) (member : other ∈ heap.runs) :
  run.base ≠ other.base := by
  intro same
  have samePage := Run.base_inj same
  have cntOther := (books.placed other member).2.1
  have apart := fresh.2.2 other member
  grind [Run.Apart]

lemma grow_arena_of_mem (fresh : heap.Fresh run) (cnt : 0 < run.count) (arena : Arena)
  (member : other ∈ heap.runs) : (heap.grow run arena).arena other.base = heap.arena other.base :=
  arena_putArena_of_ne (books.base_ne_of_fresh fresh cnt member)

lemma freeIn_of_added (fresh : heap.Fresh run) (cnt : 0 < run.count)
  (list : (after.descs desc).freeList = (heap.descs desc).freeList ++ added)
  (lists : ∀ other, other ≠ desc → (after.descs other).freeList = (heap.descs other).freeList)
  (pageAdded : ∀ blk ∈ added, pgRoundDown blk = run.base) (member : other ∈ heap.runs)
  (owner : ℕ) : after.freeIn owner other.base = heap.freeIn owner other.base := by
  by_cases same : owner = desc
  · have none : added.countP (fun blk => decide (pgRoundDown blk = other.base)) = 0 := by
      rw [List.countP_eq_zero]
      intro blk isBlk
      rw [pageAdded blk isBlk, decide_eq_true_eq]
      exact books.base_ne_of_fresh fresh cnt member
    rw [same, Heap.freeIn, list, List.countP_append, none]
    rfl
  rw [Heap.freeIn, lists owner same]
  rfl

lemma extended (alike : heap.Alike after) (fresh : heap.Fresh run)
  (cnt : 0 < run.count) (runs : after.runs = run :: heap.runs)
  (kept : ∀ old ∈ heap.runs, after.arena old.base = heap.arena old.base) {added : List ℕ}
  (list : (after.descs desc).freeList = (heap.descs desc).freeList ++ added)
  (lists : ∀ other, other ≠ desc → (after.descs other).freeList = (heap.descs other).freeList)
  (isAdded : ∀ blk ∈ added, after.Normal run desc ∧ after.Slot run desc blk)
  (nodupAdded : added.Nodup) (headed : after.Big run ∨ ∃ desc, after.Normal run desc) :
  after.Books live := by
  have ne : ∀ old ∈ heap.runs, old.base ≠ run.base := fun old member =>
    (books.base_ne_of_fresh fresh cnt member).symm
  have pageAdded : ∀ blk ∈ added, pgRoundDown blk = run.base := by
    intro blk isBlk
    rcases isAdded blk isBlk with ⟨isNormal, isSlot⟩
    exact isSlot.page (alike.sound (books.shapes desc (alike.descCnt ▸ isNormal.known)))
  have pageFree : ∀ owner, ∀ old ∈ heap.runs, heap.Normal old owner → ∀ blk,
      heap.Slot old owner blk → pgRoundDown blk = old.base :=
    fun owner old _ isNormal blk isSlot => isSlot.page (books.shapes owner isNormal.known)
  have normal : ∀ old ∈ heap.runs, ∀ owner, heap.Normal old owner → after.Normal old owner :=
    fun old member owner isNormal =>
      isNormal.transport alike (kept old member)
        (books.freeIn_of_added fresh cnt list lists pageAdded member owner)
  have big : ∀ old ∈ heap.runs, heap.Big old → after.Big old :=
    fun old member isBig => isBig.transport (kept old member)
  have slot : ∀ old owner blk, heap.Slot old owner blk → after.Slot old owner blk :=
    fun _ _ _ => alike.slot.mpr
  have descCnt := alike.descCnt
  rcases books with ⟨few, shapes, apart, placed, headedBefore, frees, nodup, lives⟩
  refine ⟨by omega, fun owner known => alike.sound (shapes owner (by omega)), ?_, ?_,
    ?_, ?_, ?_, ?_⟩
  · rw [runs, List.pairwise_cons]
    exact ⟨fresh.2.2, apart⟩
  · grind [fresh.1, fresh.2.1]
  · grind
  · grind
  · intro owner known
    by_cases same : owner = desc
    · rw [same, list]
      grind
    · grind
  intro blk isLive
  rcases lives blk isLive with ⟨old, member, holds⟩
  exact ⟨old, by grind, holds.transport alike (big old member) (normal old member) (by grind)⟩

lemma recount_arena_self (isNormal : heap.Normal run desc) (freeList : List ℕ) (freeCnt : Word) :
  (heap.recount desc run.base freeList freeCnt).arena run.base =
    { heap.arena run.base with freeCnt := freeCnt } := by
  refine arena_putArena_self ?_
  intro num isNum
  cases isNormal.owner.symm.trans isNum
  exact lt_of_lt_of_le isNormal.known books.few

section

variable (member : run ∈ heap.runs)

include member

lemma recount_arena_of_ne (memOther : other ∈ heap.runs) (ne : other ≠ run) (desc : ℕ)
  (freeList : List ℕ) (freeCnt : Word) :
  (heap.recount desc run.base freeList freeCnt).arena other.base = heap.arena other.base := by
  refine arena_putArena_of_ne ?_
  intro same
  exact ne (books.eq_of_base memOther member same.symm)

lemma recount_freeIn_of_ne (memOther : other ∈ heap.runs) (ne : other ≠ run)
  (others : ∀ base, base ≠ run.base →
    (freeList.countP fun blk => decide (pgRoundDown blk = base)) = heap.freeIn desc base)
  (freeCnt : Word) (owner : ℕ) :
  (heap.recount desc run.base freeList freeCnt).freeIn owner other.base =
    heap.freeIn owner other.base := by
  by_cases sameDesc : owner = desc
  · rw [sameDesc, Heap.freeIn, recount_freeList_self]
    refine others other.base ?_
    intro sameBase
    exact ne (books.eq_of_base memOther member sameBase)
  rw [Heap.freeIn, recount_descs_of_ne sameDesc]
  rfl

lemma recounted (isNormal : heap.Normal run desc) {freeCnt : Word} (nodup : freeList.Nodup)
  (elements : ∀ blk ∈ freeList, blk ∈ (heap.descs desc).freeList ∨ heap.Slot run desc blk)
  (counted : freeCnt.toNat =
    freeList.countP fun blk => decide (pgRoundDown blk = run.base))
  (others : ∀ base, base ≠ run.base →
    (freeList.countP fun blk => decide (pgRoundDown blk = base)) = heap.freeIn desc base)
  (lives : ∀ blk ∈ blks, (blk ∈ live ∨ heap.Slot run desc blk) ∧ blk ∉ freeList) :
  (heap.recount desc run.base freeList freeCnt).Books blks := by
  have hdr := books.recount_arena_self isNormal freeList freeCnt
  have alike : heap.Alike (heap.recount desc run.base freeList freeCnt) := recount_alike
  have itself : (heap.recount desc run.base freeList freeCnt).Normal run desc := by
    refine ⟨?_, ?_, isNormal.known, isNormal.single, ?_⟩
    · rw [hdr]
      exact isNormal.magic
    · rw [hdr]
      exact isNormal.owner
    rw [hdr, Heap.freeIn, recount_freeList_self]
    exact counted
  have normal : ∀ old ∈ heap.runs, ∀ owner, heap.Normal old owner →
      (heap.recount desc run.base freeList freeCnt).Normal old owner := by
    intro old memOld owner isNormalOld
    by_cases same : old = run
    · rw [same] at isNormalOld ⊢
      rw [isNormalOld.unique isNormal]
      exact itself
    exact isNormalOld.transport alike
      (books.recount_arena_of_ne member memOld same desc freeList freeCnt)
      (books.recount_freeIn_of_ne member memOld same others freeCnt owner)
  have big : ∀ old ∈ heap.runs, heap.Big old →
      (heap.recount desc run.base freeList freeCnt).Big old := by
    intro old memOld isBig
    refine isBig.transport (books.recount_arena_of_ne member memOld ?_ desc freeList freeCnt)
    rintro rfl
    exact isBig.not_normal isNormal
  have lists : ∀ owner, owner ≠ desc →
      (heap.recount desc run.base freeList freeCnt).descs owner = heap.descs owner :=
    fun owner ne => recount_descs_of_ne ne
  have list : ((heap.recount desc run.base freeList freeCnt).descs desc).freeList = freeList :=
    recount_freeList_self
  have slot : ∀ old owner blk, heap.Slot old owner blk →
      (heap.recount desc run.base freeList freeCnt).Slot old owner blk :=
    fun _ _ _ => alike.slot.mpr
  have runs : (heap.recount desc run.base freeList freeCnt).runs = heap.runs := rfl
  have descCnt := alike.descCnt
  rcases books with ⟨few, shapes, apart, placed, headed, frees, nodupBefore, livesBefore⟩
  refine ⟨few, fun owner known => alike.sound (shapes owner known), apart, placed, ?_, ?_, ?_, ?_⟩
  · grind
  · grind
  · grind
  intro blk isLive
  rcases lives blk isLive with ⟨wasLive | isSlot, notFree⟩
  · rcases livesBefore blk wasLive with ⟨old, memOld, holds⟩
    exact ⟨old, memOld,
      holds.transport alike (big old memOld) (normal old memOld) (by grind)⟩
  · exact ⟨run, member, .normal itself (slot _ _ _ isSlot) (by rwa [list])⟩

lemma freeIn_of_filtered (memOther : other ∈ heap.runs) (ne : other ≠ run)
  (list : (after.descs desc).freeList = (heap.descs desc).freeList.filter fun blk =>
    decide (pgRoundDown blk ≠ run.base)) :
  after.freeIn desc other.base = heap.freeIn desc other.base := by
  rw [Heap.freeIn, list, List.countP_filter]
  refine List.countP_congr ?_
  intro blk _
  simp only [Bool.and_eq_true, decide_eq_true_eq, and_iff_left_iff_imp]
  rintro inOther inRun
  exact ne (books.eq_of_base memOther member (inOther.symm.trans inRun))

lemma normal_of_owner (isOwner : (heap.arena run.base).desc = some desc) :
  heap.Normal run desc := by
  rcases books.headed run member with isBig | ⟨owner, isNormal⟩
  · cases isBig.owner.symm.trans isOwner
  cases isNormal.owner.symm.trans isOwner
  exact isNormal

end

lemma shrunk (alike : heap.Alike after) (member : run ∈ heap.runs)
  (runs : after.runs = heap.runs.erase run)
  (kept : ∀ old ∈ heap.runs, old ≠ run → after.arena old.base = heap.arena old.base)
  (lists : ∀ owner < heap.descCnt, (after.descs owner).freeList =
    (heap.descs owner).freeList.filter fun blk => decide (pgRoundDown blk ≠ run.base))
  (lives : ∀ blk ∈ blks, blk ∈ live ∧ pgRoundDown blk ≠ run.base) :
  after.Books blks := by
  have memOf : ∀ old, old ∈ after.runs ↔ old ≠ run ∧ old ∈ heap.runs := by
    intro old
    rw [runs, books.nodup_runs.mem_erase_iff]
  have normal : ∀ old ∈ heap.runs, old ≠ run → ∀ owner, heap.Normal old owner →
      after.Normal old owner := fun old memOld ne owner isNormal =>
    isNormal.transport alike (kept old memOld ne)
      (books.freeIn_of_filtered member memOld ne (lists owner isNormal.known))
  have big : ∀ old ∈ heap.runs, old ≠ run → heap.Big old → after.Big old :=
    fun old memOld ne isBig => isBig.transport (kept old memOld ne)
  have page : ∀ owner, ∀ old ∈ heap.runs, heap.Normal old owner → ∀ blk,
      heap.Slot old owner blk → pgRoundDown blk = old.base :=
    fun owner old _ isNormal blk isSlot => isSlot.page (books.shapes owner isNormal.known)
  have slot : ∀ old owner blk, heap.Slot old owner blk → after.Slot old owner blk :=
    fun _ _ _ => alike.slot.mpr
  have livePage : ∀ old blk, heap.Holds old blk → pgRoundDown blk = old.base :=
    fun _ _ => books.page_of_holds
  have descCnt := alike.descCnt
  rcases books with ⟨few, shapes, apart, placed, headed, frees, nodup, livesBefore⟩
  refine ⟨by omega, fun owner known => alike.sound (shapes owner (by omega)), ?_, by grind,
    by grind, ?_, ?_, ?_⟩
  · rw [runs]
    exact apart.sublist List.erase_sublist
  · grind
  · intro owner known
    rw [lists owner (by omega)]
    exact (nodup owner (by omega)).filter _
  intro blk isLive
  rcases livesBefore blk (lives blk isLive).1 with ⟨old, memOld, holds⟩
  have ne : old ≠ run := by grind
  exact ⟨old, by grind, holds.transport alike (big old memOld ne)
    (normal old memOld ne) (by grind [Heap.Normal])⟩

lemma freeIn_le (member : run ∈ heap.runs) (isNormal : heap.Normal run desc) :
  heap.freeIn desc run.base ≤ (heap.descs desc).blocksPerArena ∧
    ((heap.descs desc).blocksPerArena ≤ heap.freeIn desc run.base →
      ∀ blk, heap.Slot run desc blk → blk ∈ (heap.descs desc).freeList) := by
  have known := isNormal.known
  let slots := (List.range (heap.descs desc).blocksPerArena).map fun idx =>
    run.base + arenaSize + idx * (heap.descs desc).blockSize
  let inPage := (heap.descs desc).freeList.filter fun blk =>
    decide (pgRoundDown blk = run.base)
  have isLen : inPage.length = heap.freeIn desc run.base := List.countP_eq_length_filter.symm
  have within : inPage ⊆ slots := by
    intro blk isFree
    rw [List.mem_filter, decide_eq_true_eq] at isFree
    rcases (books.free_page known member isFree.1 isFree.2).2 with ⟨idx, inside, isBlk⟩
    exact List.mem_map.mpr ⟨idx, List.mem_range.mpr inside, isBlk.symm⟩
  have subperm := ((books.nodup desc known).filter _).subperm within
  have slotsLen : slots.length = (heap.descs desc).blocksPerArena := by
    rw [List.length_map, List.length_range]
  refine ⟨?_, ?_⟩
  · rw [← isLen, ← slotsLen]
    exact subperm.length_le
  rintro full blk ⟨idx, inside, rfl⟩
  have perm := subperm.perm_of_length_le (by rw [isLen, slotsLen]; exact full)
  have isSlot : run.base + arenaSize + idx * (heap.descs desc).blockSize ∈ slots :=
    List.mem_map.mpr ⟨idx, List.mem_range.mpr inside, rfl⟩
  exact (List.mem_filter.mp (perm.mem_iff.mpr isSlot)).1

end

end Heap.Books

section Usable

variable {heap after : Heap} {live : Finset ℕ} {run other : Run} {desc blk one two : ℕ}

lemma usable_of_normal (isNormal : heap.Normal run desc) (inPage : pgRoundDown blk = run.base) :
  heap.usable blk = (heap.descs desc).blockSize := by
  simp [Heap.usable, inPage, isNormal.owner]

lemma usable_of_big (isBig : heap.Big run) (pages : run.count ≤ 2 ^ 20 - 1)
  (pos : 0 < run.count) : heap.usable (run.base + arenaSize) + arenaSize =
    run.count * pgSize := by
  have inside : arenaSize < pgSize := by decide
  simp only [Heap.usable, pgRoundDown_base inside, isBig.owner, pgOfs_base inside,
    BitVec.toNat_sub, BitVec.toNat_mul, BitVec.toNat_ofNat, isBig.counted, arenaSize, pgSize,
    BitVec.reduceToNat]
  omega

lemma Heap.Books.holds_bounds (books : heap.Books live) (member : run ∈ heap.runs)
  (holds : heap.Holds run blk) : run.base + arenaSize ≤ blk ∧ 0 < heap.usable blk ∧
    blk + heap.usable blk ≤ run.stop := by
  have placed := books.placed run member
  have page := books.page_of_holds holds
  have stop := Run.base_add_le_stop placed.2.1
  cases holds with
  | big isBig isFirst =>
    have usable := usable_of_big isBig (by omega) placed.2.1
    rw [← isFirst] at usable
    simp only [Run.stop, Run.base, arenaSize, pgSize] at usable isFirst ⊢
    omega
  | @normal desc isNormal isSlot notFree =>
    have sound := books.shapes desc isNormal.known
    have bounds := isSlot.bounds sound
    have roomy := sound.roomy
    rw [usable_of_normal isNormal page]
    simp only [elemSize] at roomy
    exact ⟨bounds.1, by omega, by omega⟩

lemma Heap.Books.lives_apart (books : heap.Books live) (isOne : one ∈ live) (isTwo : two ∈ live)
  (ne : one ≠ two) : one + heap.usable one ≤ two ∨ two + heap.usable two ≤ one := by
  rcases books.lives one isOne with ⟨run, member, holds⟩
  rcases books.lives two isTwo with ⟨other, memOther, holdsOther⟩
  have bounds := books.holds_bounds member holds
  have boundsOther := books.holds_bounds memOther holdsOther
  by_cases same : run = other
  · subst same
    have page := books.page_of_holds holds
    have pageOther := books.page_of_holds holdsOther
    cases holds with
    | big isBig isFirst =>
      cases holdsOther with
      | big isBig' isFirst' => exact absurd (isFirst.trans isFirst'.symm) ne
      | normal isNormal' isSlot' notFree' => exact absurd isNormal' isBig.not_normal
    | normal isNormal isSlot notFree =>
      cases holdsOther with
      | big isBig' isFirst' => exact absurd isNormal isBig'.not_normal
      | normal isNormal' isSlot' notFree' =>
        cases isNormal.unique isNormal'
        rw [usable_of_normal isNormal page, usable_of_normal isNormal pageOther]
        exact isSlot.apart isSlot' ne
  have apart := (books.apart.forall member memOther same).addresses
  omega

lemma Heap.Books.free_apart (books : heap.Books live) (isLive : one ∈ live)
  (known : desc < heap.descCnt) (isFree : blk ∈ (heap.descs desc).freeList) :
  one + heap.usable one ≤ blk ∨ blk + (heap.descs desc).blockSize ≤ one := by
  rcases books.lives one isLive with ⟨run, member, holds⟩
  rcases books.frees desc known blk isFree with ⟨other, memOther, isNormal, isSlot⟩
  have sound := books.shapes desc known
  have bounds := books.holds_bounds member holds
  have boundsOther := isSlot.bounds sound
  have stopOther := Run.base_add_le_stop (books.placed other memOther).2.1
  by_cases same : run = other
  · subst same
    have page := books.page_of_holds holds
    cases holds with
    | big isBig isFirst => exact absurd isNormal isBig.not_normal
    | normal isNormal' isSlot' notFree =>
      cases isNormal.unique isNormal'
      rw [usable_of_normal isNormal page]
      refine isSlot'.apart isSlot ?_
      rintro rfl
      exact notFree isFree
  have apart := (books.apart.forall member memOther same).addresses
  omega

lemma Heap.Books.store_within (books : heap.Books live) (isLive : blk ∈ live) {start cnt : ℕ}
  (lower : blk ≤ start) (upper : start + cnt ≤ blk + heap.usable blk) (src : ℕ → Byte) :
  store start cnt src heap = .ok ((), heap.write start cnt src) ∧
    (∀ run ∈ heap.runs, (heap.write start cnt src).arena run.base =
      heap.arena run.base) ∧
    (heap.write start cnt src).Books live := by
  rcases books.lives blk isLive with ⟨run, member, holds⟩
  have bounds := books.holds_bounds member holds
  have placed := books.placed run member
  have kept : ∀ other ∈ heap.runs,
      (heap.write start cnt src).arena other.base = heap.arena other.base := by
    intro other memOther
    refine arena_write_of_apart ?_
    have stopOther := Run.base_add_le_stop (books.placed other memOther).2.1
    by_cases same : run = other
    · subst same
      omega
    have apart := (books.apart.forall member memOther same).addresses
    omega
  refine ⟨?_, kept, books.written kept⟩
  rw [store, if_pos]
  refine ⟨?_, ?_⟩
  · simp only [Run.stop, pgSize] at bounds
    omega
  intro desc known free isFree
  have roomy := (books.shapes desc known).roomy
  have apart := books.free_apart isLive known isFree
  omega

lemma usable_transport (alike : heap.Alike after)
  (sameDesc : (after.arena (pgRoundDown blk)).desc = (heap.arena (pgRoundDown blk)).desc)
  (sameCnt : (heap.arena (pgRoundDown blk)).desc = none →
    (after.arena (pgRoundDown blk)).freeCnt = (heap.arena (pgRoundDown blk)).freeCnt) :
  after.usable blk = heap.usable blk := by
  simp only [Heap.usable, sameDesc]
  cases isDesc : (heap.arena (pgRoundDown blk)).desc with
  | none => simp only [sameCnt isDesc]
  | some desc => exact alike.blockSize desc

lemma Heap.Books.usable_kept (books : heap.Books live) (alike : heap.Alike after)
  (kept : ∀ old ∈ heap.runs, after.arena old.base = heap.arena old.base) :
  ∀ old ∈ live, after.usable old = heap.usable old := by
  intro old isLive
  rcases books.lives old isLive with ⟨run, member, holds⟩
  refine usable_transport alike ?_ ?_
  · rw [books.page_of_holds holds, kept run member]
  rw [books.page_of_holds holds, kept run member]
  exact fun _ => rfl

lemma Heap.Unfilled.transport (unfilled : heap.Unfilled run) (alike : heap.Alike after)
  (sameArena : after.arena run.base = heap.arena run.base)
  (sameFree : ∀ desc, (heap.arena run.base).desc = some desc →
    after.freeIn desc run.base = heap.freeIn desc run.base) : after.Unfilled run := by
  intro desc owner
  rw [sameArena] at owner
  rw [sameFree desc owner, alike.blocksPerArena]
  exact unfilled desc owner

lemma Heap.Books.insert (books : heap.Books live) (member : run ∈ heap.runs)
  (holds : heap.Holds run blk) : heap.Books (insert blk live) := by
  refine { books with lives := ?_ }
  intro one isLive
  rcases Finset.mem_insert.mp isLive with rfl | wasLive
  · exact ⟨run, member, holds⟩
  · exact books.lives one wasLive

end Usable

end Pintos.Malloc
