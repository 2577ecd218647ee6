import Pintos.Threads.MallocCalls

/-!
# Giving blocks back

`free` and `realloc` on a heap whose books are kept, for a block that is handed
out. No assertion fails, and the books are kept for the blocks that remain. Only
the copy of `realloc` can leave the new block, if the number of pages of that
block has wrapped around.
-/

namespace Pintos.Malloc

open Pintos.Computation

section Dropping

variable {heap mid : Heap} {live blks : Finset ℕ} {run : Run} {desc blk : ℕ} {cnt : Word}

lemma Heap.Books.free_outside (books : heap.Books live) (mem : run ∈ heap.runs)
  (known : desc < heap.descCnt) (isFree : blk ∈ (heap.descs desc).freeList)
  (outside : pgRoundDown blk ≠ run.base) : blk + elemSize ≤ run.base ∨ run.stop ≤ blk := by
  rcases books.frees desc known blk isFree with ⟨other, memOther, isNormal, isSlot⟩
  have sound := books.shapes desc known
  have bounds := isSlot.bounds sound
  have roomy := sound.roomy
  have stopOther := Run.base_add_le_stop (books.placed other memOther).2.1
  have ne : other ≠ run := by
    rintro rfl
    exact outside (isSlot.page sound)
  rcases (books.apart.forall memOther mem ne).addresses with pre | behind
  · exact Or.inl (by omega)
  · exact Or.inr (by omega)

lemma pallocFreeMultiple_eq (mem : run ∈ heap.runs)
  (placed : 0 < run.page ∧ 0 < run.count ∧ run.page + run.count ≤ 2 ^ 20)
  (isCnt : cnt.toNat = run.count) (intact : heap.Intact run.base (run.count * pgSize)) :
  pallocFreeMultiple run.base cnt heap =
    .ok ((), { heap.write run.base (run.count * pgSize) (fun _ => 0xcc) with
      runs := heap.runs.erase run }) := by
  have aligned : pgOfs run.base = 0 := by
    simp only [pgOfs, Run.base, pgSize]
    omega
  have notNull : ¬ (run.base = 0 ∨ cnt = 0) := by
    rintro (isNull | isZero)
    · exact Run.base_ne_zero placed.1 isNull
    rw [isZero] at isCnt
    simp at isCnt
    omega
  have bytes : (4096 * cnt : Word).toNat = run.count * pgSize := by
    rw [BitVec.toNat_mul]
    simp only [BitVec.reduceToNat, pgSize]
    omega
  have isRun : (⟨run.base / pgSize, cnt.toNat⟩ : Run) = run := by
    rw [isCnt]
    simp [Run.base]
  have cleared : memset run.base 0xcc (4096 * cnt : Word).toNat heap =
      .ok ((), heap.write run.base (run.count * pgSize) fun _ => 0xcc) := by
    rw [bytes, memset, store, if_pos]
    refine ⟨?_, intact⟩
    simp only [Run.base, pgSize]
    omega
  have inUse : run ∈ (heap.write run.base (run.count * pgSize) fun _ => 0xcc).runs := mem
  rw [pallocFreeMultiple, bind_of_ok (ensure_of aligned), if_neg notNull, bind_of_ok cleared,
    reads_bind_apply, isRun, bind_of_ok (ensure_of inUse)]
  rfl

lemma Heap.Books.dropped (books : heap.Books live) (mem : run ∈ heap.runs)
  (unfilled : ∀ other ∈ heap.runs, other ≠ run → heap.Unfilled other) (alike : heap.Alike mid)
  (sameMem : mid.memory = heap.memory) (sameRuns : mid.runs = heap.runs)
  (lists : ∀ owner < heap.descCnt, (mid.descs owner).freeList =
    (heap.descs owner).freeList.filter fun blk => decide (pgRoundDown blk ≠ run.base))
  (lives : ∀ blk ∈ blks, blk ∈ live ∧ pgRoundDown blk ≠ run.base)
  (isCnt : cnt.toNat = run.count) :
  ∃ after, pallocFreeMultiple run.base cnt mid = .ok ((), after) ∧ after.Balanced blks := by
  have placed := books.placed run mem
  have intact : mid.Intact run.base (run.count * pgSize) := by
    intro owner known blk isFree
    rw [alike.descCnt] at known
    rw [lists owner known, List.mem_filter, decide_eq_true_eq] at isFree
    rw [← Run.stop_eq]
    exact books.free_outside mem known isFree.1 isFree.2
  refine ⟨_, pallocFreeMultiple_eq (by rw [sameRuns]; exact mem) placed isCnt intact, ?_⟩
  have kept : ∀ old ∈ heap.runs, old ≠ run →
      (mid.write run.base (run.count * pgSize) fun _ => 0xcc).arena old.base =
        heap.arena old.base := by
    intro old memOld ne
    have sameArena : mid.arena old.base = heap.arena old.base := by
      simp [Heap.arena, sameMem]
    rw [← sameArena]
    refine arena_write_of_apart ?_
    rw [← Run.stop_eq]
    have stopOld := Run.base_add_le_stop (books.placed old memOld).2.1
    have inside : arenaSize ≤ pgSize := by decide
    rcases (books.apart.forall memOld mem ne).addresses with pre | behind
    · exact Or.inl (by omega)
    · exact Or.inr behind
  have alikeAfter : heap.Alike { mid.write run.base (run.count * pgSize) (fun _ => 0xcc) with
      runs := mid.runs.erase run } := ⟨alike.descCnt, alike.blockSize, alike.blocksPerArena⟩
  refine ⟨books.shrunk alikeAfter mem (by rw [sameRuns]) kept lists lives, ?_⟩
  intro old memOld
  simp only [sameRuns, books.nodup_runs.mem_erase_iff] at memOld
  refine (unfilled old memOld.2 memOld.1).transport alikeAfter
    (kept old memOld.2 memOld.1) ?_
  intro owner isOwner
  have known := (books.normal_of_owner memOld.2 isOwner).known
  exact books.freeIn_of_filtered mem memOld.2 memOld.1 (lists owner known)

lemma Heap.Balanced.freeBig (balanced : heap.Balanced live) (mem : run ∈ heap.runs)
  (isBig : heap.Big run) :
  ∃ after, pallocFreeMultiple run.base (heap.arena run.base).freeCnt heap = .ok ((), after) ∧
    after.Balanced (live.erase (run.base + arenaSize)) := by
  have books := balanced.books
  refine books.dropped mem (fun other memOther _ => balanced.unfilled other memOther)
    ⟨rfl, fun _ => rfl, fun _ => rfl⟩ rfl rfl ?_ ?_ isBig.counted
  · intro owner known
    refine (List.filter_eq_self.mpr ?_).symm
    intro blk isFree
    rw [decide_eq_true_eq]
    intro inRun
    exact isBig.not_normal (books.free_page known mem isFree inRun).1
  intro blk isLive
  rw [Finset.mem_erase] at isLive
  refine ⟨isLive.2, ?_⟩
  intro inRun
  rcases books.lives blk isLive.2 with ⟨other, memOther, holds⟩
  have same := books.eq_of_base memOther mem ((books.page_of_holds holds).symm.trans inRun)
  rw [same] at holds
  cases holds with
  | big isBig' isFirst => exact isLive.1 isFirst
  | normal isNormal isSlot notFree => exact isBig.not_normal isNormal

lemma Heap.Books.freeArena (books : heap.Books live) (mem : run ∈ heap.runs)
  (unfilled : ∀ other ∈ heap.runs, other ≠ run → heap.Unfilled other)
  (isNormal : heap.Normal run desc)
  (full : (heap.descs desc).blocksPerArena ≤ heap.freeIn desc run.base) : ∃ after, (do
      unlinkLoop desc run.base (List.range (heap.descs desc).blocksPerArena)
      pallocFreePage run.base) heap = .ok ((), after) ∧ after.Balanced live := by
  have known := isNormal.known
  have sound := books.shapes desc known
  have allFree := (books.freeIn_le mem isNormal).2 full
  have unlinked := unlinkLoop_eq (books.placed run mem).1 isNormal.magic isNormal.owner
    (List.range (heap.descs desc).blocksPerArena) (fun idx => List.mem_range.mp)
    (books.nodup desc known) (sound.nodup_slots run)
    (fun idx inside => allFree _ ⟨idx, List.mem_range.mp inside, rfl⟩)
  have filtered : ((heap.descs desc).freeList.filter fun blk =>
      decide (blk ∉ (List.range (heap.descs desc).blocksPerArena).map fun idx =>
        run.base + arenaSize + idx * (heap.descs desc).blockSize)) =
      (heap.descs desc).freeList.filter fun blk => decide (pgRoundDown blk ≠ run.base) := by
    refine List.filter_congr ?_
    intro blk isFree
    rw [decide_eq_decide, not_iff_not]
    constructor
    · intro isSlot
      rcases List.mem_map.mp isSlot with ⟨idx, inside, rfl⟩
      exact Heap.Slot.page ⟨idx, List.mem_range.mp inside, rfl⟩ sound
    intro inRun
    rcases (books.free_page known mem isFree inRun).2 with ⟨idx, inside, isBlk⟩
    exact List.mem_map.mpr ⟨idx, List.mem_range.mpr inside, isBlk.symm⟩
  rw [filtered] at unlinked
  rw [bind_of_ok unlinked]
  refine books.dropped mem unfilled putFreeList_alike rfl rfl ?_ ?_ isNormal.single.symm
  · intro owner knownOwner
    by_cases same : owner = desc
    · rw [same, putFreeList_freeList_self]
    rw [putFreeList_of_ne same]
    refine (List.filter_eq_self.mpr ?_).symm
    intro blk isFree
    rw [decide_eq_true_eq]
    intro inRun
    exact same ((books.free_page knownOwner mem isFree inRun).1.unique isNormal)
  intro blk isLive
  refine ⟨isLive, ?_⟩
  intro inRun
  rcases books.lives blk isLive with ⟨other, memOther, holds⟩
  have sameRun := books.eq_of_base memOther mem
    ((books.page_of_holds holds).symm.trans inRun)
  rw [sameRun] at holds
  cases holds with
  | big isBig isFirst => exact isBig.not_normal isNormal
  | normal isNormal' isSlot notFree =>
    cases isNormal.unique isNormal'
    exact notFree (allFree blk isSlot)

lemma dropUnused_balanced (books : heap.Books live) (mem : run ∈ heap.runs)
  (isNormal : heap.Normal run desc)
  (unfilled : ∀ other ∈ heap.runs, other ≠ run → heap.Unfilled other) :
  ∃ after, dropUnused run.base desc heap = .ok ((), after) ∧ after.Balanced live := by
  have counted := isNormal.counted
  rw [dropUnused, reads_bind_apply, reads_bind_apply]
  by_cases full : (heap.descs desc).blocksPerArena ≤ (heap.arena run.base).freeCnt.toNat
  · have atMost := (books.freeIn_le mem isNormal).1
    have isFull : (heap.arena run.base).freeCnt.toNat = (heap.descs desc).blocksPerArena := by
      omega
    rw [if_pos full, bind_of_ok (ensure_of isFull)]
    exact books.freeArena mem unfilled isNormal (by omega)
  rw [if_neg full]
  refine ⟨heap, rfl, books, ?_⟩
  intro other memOther
  by_cases same : other = run
  · rw [same]
    intro owner isOwner
    cases isNormal.owner.symm.trans isOwner
    omega
  · exact unfilled other memOther same

end Dropping

section Calls

variable {heap : Heap} {live : Finset ℕ} {run : Run} {desc blk : ℕ} {proposal : Option ℕ}

section

variable (balanced : heap.Balanced live) (isLive : blk ∈ live)

include balanced isLive

lemma Heap.Balanced.store_within {start cnt : ℕ} (lower : blk ≤ start)
  (upper : start + cnt ≤ blk + heap.usable blk) (src : ℕ → Byte) :
  store start cnt src heap = .ok ((), heap.write start cnt src) ∧
    (heap.write start cnt src).Balanced live ∧
    ∀ old ∈ live, (heap.write start cnt src).usable old = heap.usable old := by
  rcases balanced.books.store_within isLive lower upper src with ⟨stored, kept, books⟩
  refine ⟨stored, ⟨books, ?_⟩, balanced.books.usable_kept write_alike kept⟩
  intro run mem
  exact (balanced.unfilled run mem).transport write_alike (kept run mem) fun _ _ => rfl

lemma Heap.Balanced.given (mem : run ∈ heap.runs) (isNormal : heap.Normal run desc)
  (isSlot : heap.Slot run desc blk) :
  (heap.recount desc run.base (blk :: (heap.descs desc).freeList)
      ((heap.arena run.base).freeCnt + 1)).Books (live.erase blk) ∧
    (heap.recount desc run.base (blk :: (heap.descs desc).freeList)
      ((heap.arena run.base).freeCnt + 1)).Normal run desc ∧
    ∀ other ∈ heap.runs, other ≠ run →
      (heap.recount desc run.base (blk :: (heap.descs desc).freeList)
        ((heap.arena run.base).freeCnt + 1)).Unfilled other := by
  have books := balanced.books
  have known := isNormal.known
  have sound := books.shapes desc known
  have page := isSlot.page sound
  have notFree := books.not_free isLive known
  have others : ∀ base, base ≠ run.base → ((blk :: (heap.descs desc).freeList).countP fun other =>
        decide (pgRoundDown other = base)) = heap.freeIn desc base := by
    intro base ne
    rw [countP_cons_of_page]
    · rfl
    rw [page]
    exact ne.symm
  have itself : ((blk :: (heap.descs desc).freeList).countP fun other =>
      decide (pgRoundDown other = run.base)) = heap.freeIn desc run.base + 1 :=
    countP_cons_page page _
  have counted : ((heap.arena run.base).freeCnt + 1).toNat = heap.freeIn desc run.base + 1 := by
    have small := sound.toNat_blocksPerArena
    have unfilled := balanced.unfilled run mem desc isNormal.owner
    rw [toNat_add_one, isNormal.counted]
    omega
  have after : (heap.recount desc run.base (blk :: (heap.descs desc).freeList)
      ((heap.arena run.base).freeCnt + 1)).Books (live.erase blk) := by
    refine books.recounted mem isNormal ?_ ?_ (counted.trans itself.symm) others ?_
    · exact List.nodup_cons.mpr ⟨notFree, books.nodup desc known⟩
    · intro other isOther
      rcases List.mem_cons.mp isOther with rfl | isFree
      · exact Or.inr isSlot
      · exact Or.inl isFree
    intro other isOther
    rw [Finset.mem_erase] at isOther
    refine ⟨Or.inl isOther.2, ?_⟩
    rw [List.mem_cons, not_or]
    exact ⟨isOther.1, books.not_free isOther.2 known⟩
  refine ⟨after, ?_, ?_⟩
  · refine after.normal_of_owner mem ?_
    rw [books.recount_arena_self isNormal]
    exact isNormal.owner
  intro other memOther ne
  exact (balanced.unfilled other memOther).transport recount_alike
    (books.recount_arena_of_ne mem memOther ne _ _ _)
    fun owner _ => books.recount_freeIn_of_ne mem memOther ne others _ owner

lemma freeNormal_balanced (mem : run ∈ heap.runs) (isNormal : heap.Normal run desc)
  (isSlot : heap.Slot run desc blk) :
  ∃ after, freeNormal blk run.base desc heap = .ok ((), after) ∧
    after.Balanced (live.erase blk) := by
  have page := isSlot.page (balanced.books.shapes desc isNormal.known)
  have usable := usable_of_normal isNormal page
  rcases balanced.books.store_within isLive le_rfl (by rw [usable]) (fun _ => 0xcc) with
    ⟨_, kept, _⟩
  rcases balanced.store_within isLive le_rfl (by rw [usable]) (fun _ => 0xcc) with
    ⟨cleared, balanced', _⟩
  have isNormal' := isNormal.transport write_alike (kept run mem) rfl
  rcases balanced'.given isLive mem isNormal' (write_alike.slot.mpr isSlot) with
    ⟨books, isNormalAfter, unfilled⟩
  rcases dropUnused_balanced books mem isNormalAfter unfilled with
    ⟨after, dropped, balancedAfter⟩
  refine ⟨after, ?_, balancedAfter⟩
  rw [freeNormal, reads_bind_apply, memset, bind_of_ok cleared, listPushFront, updates_bind_apply,
    updates_bind_apply]
  exact dropped

end

lemma blockToArena_holds (books : heap.Books live) (mem : run ∈ heap.runs)
  (holds : heap.Holds run blk) : blockToArena blk heap = .ok (run.base, heap) := by
  have page := (books.placed run mem).1
  cases holds with
  | big isBig isFirst =>
    rw [isFirst]
    exact blockToArena_big page isBig
  | normal isNormal isSlot notFree =>
    exact blockToArena_normal page isNormal.magic isNormal.owner
      (books.shapes _ isNormal.known) isSlot

lemma Heap.Books.ne_zero (books : heap.Books live) (isLive : blk ∈ live) : blk ≠ 0 := by
  rcases books.lives blk isLive with ⟨run, mem, holds⟩
  have bounds := books.holds_bounds mem holds
  simp only [arenaSize] at bounds
  omega

lemma free_balanced (balanced : heap.Balanced live) (isLive : blk ∈ live) :
  ∃ after, free blk heap = .ok ((), after) ∧ after.Balanced (live.erase blk) := by
  rcases balanced.books.lives blk isLive with ⟨run, mem, holds⟩
  rw [free, if_pos (balanced.books.ne_zero isLive),
    bind_of_ok (blockToArena_holds balanced.books mem holds), reads_bind_apply]
  cases holds with
  | big isBig isFirst =>
    rw [isFirst]
    simp only [isBig.owner]
    exact balanced.freeBig mem isBig
  | normal isNormal isSlot notFree =>
    simp only [isNormal.owner]
    exact freeNormal_balanced balanced isLive mem isNormal isSlot

lemma blockSize_eq (books : heap.Books live) (isLive : blk ∈ live) :
  blockSize blk heap = .ok (heap.usable blk, heap) := by
  rcases books.lives blk isLive with ⟨run, mem, holds⟩
  rw [blockSize, bind_of_ok (blockToArena_holds books mem holds)]
  rfl

lemma calloc_balanced {a b : Word} (balanced : heap.Balanced live)
  (fits : ¬ (2 ^ 32 ≤ (a * b).toNat + 11 ∧ a ≤ a * b ∧ b ≤ a * b ∧ heap.Grants proposal)) :
  calloc proposal a b heap = .ok (0, heap) ∨
    ∃ blk after, calloc proposal a b heap = .ok (blk, after) ∧
      Handed heap live blk after := by
  by_cases rejected : a * b < a ∨ a * b < b
  · refine Or.inl ?_
    rw [calloc]
    simp only [if_pos rejected]
    rfl
  rw [calloc]
  simp only [if_neg rejected]
  rcases @malloc_handed heap live proposal (a * b) balanced with refused |
    ⟨blk, mid, granted, handed, room⟩
  · refine Or.inl ?_
    rw [bind_of_ok refused]
    rfl
  have enough : (a * b).toNat ≤ mid.usable blk := by
    rcases room with enough | ⟨wraps, grants, _⟩
    · exact enough
    rw [not_or, BitVec.not_lt, BitVec.not_lt] at rejected
    exact absurd ⟨wraps, rejected.1, rejected.2, grants⟩ fits
  rcases handed.balanced.store_within (Finset.mem_insert_self blk live) le_rfl
    (Nat.add_le_add_left enough blk) (fun _ => 0) with ⟨cleared, balanced', kept⟩
  refine Or.inr ⟨blk, _, ?_, ⟨handed.notNull, handed.fresh, balanced', ?_⟩⟩
  · rw [bind_of_ok granted, if_pos handed.notNull, memset, bind_of_ok cleared]
    rfl
  intro old isOld
  rw [kept old (Finset.mem_insert_of_mem isOld)]
  exact handed.kept old isOld

lemma realloc_balanced {size : Word} (balanced : heap.Balanced live) (isLive : blk ∈ live)
  (notZero : size ≠ 0) (fits : ¬ (2 ^ 32 ≤ size.toNat + 11 ∧ heap.Grants proposal ∧
    pgSize - arenaSize < heap.usable blk)) : realloc proposal blk size heap = .ok (0, heap) ∨
    ∃ moved after, realloc proposal blk size heap = .ok (moved, after) ∧ moved ≠ 0 ∧
      after.Balanced (insert moved (live.erase blk)) := by
  have notNull := balanced.books.ne_zero isLive
  rw [realloc, if_neg notZero]
  rcases @malloc_handed heap live proposal size balanced with refused |
    ⟨moved, mid, granted, handed, room⟩
  · refine Or.inl ?_
    rw [bind_of_ok refused, if_neg (fun both => both.2 rfl)]
    rfl
  have stays : blk ∈ insert moved live := Finset.mem_insert_of_mem isLive
  have ne : blk ≠ moved := by
    rintro rfl
    exact handed.fresh isLive
  have enough : (if size.toNat < mid.usable blk then size.toNat else mid.usable blk) ≤
      mid.usable moved := by
    rw [handed.kept blk isLive]
    rcases room with enough | ⟨wraps, grants, single⟩
    · split
      · exact enough
      · omega
    have small : ¬ pgSize - arenaSize < heap.usable blk := fun large =>
      fits ⟨wraps, grants, large⟩
    split
    · omega
    · omega
  rcases handed.balanced.store_within (Finset.mem_insert_self moved live) le_rfl
    (Nat.add_le_add_left enough moved) (fun idx => mid.memory (blk + idx)) with
      ⟨copied, balanced', _⟩
  rcases free_balanced balanced' stays with ⟨after, freed, balancedAfter⟩
  refine Or.inr ⟨moved, after, ?_, handed.notNull, ?_⟩
  · rw [bind_of_ok granted, if_pos ⟨notNull, handed.notNull⟩,
      bind_of_ok (blockSize_eq handed.balanced.books stays)]
    refine (bind_of_ok copied).trans ?_
    rw [bind_of_ok freed]
    rfl
  · rwa [Finset.erase_insert_of_ne ne.symm] at balancedAfter

end Calls

end Pintos.Malloc
