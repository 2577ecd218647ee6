import Pintos.Threads.MallocBooks

/-!
# What the calls of the allocator return

Each part of `malloc`, `free` and `realloc` is evaluated on a heap whose books are
kept. No assertion fails, and the heap that is left has its books kept again, for
the blocks that are then handed out.
-/

namespace Pintos.Malloc

open Pintos.Computation

structure Heap.Balanced (heap : Heap) (live : Finset ℕ) : Prop where
  books : heap.Books live
  unfilled : ∀ run ∈ heap.runs, heap.Unfilled run

section Parts

variable {heap : Heap} {run : Run} {desc blk : ℕ}

lemma ensure_of {condition : Prop} [Decidable condition] (holds : condition) :
  ensure condition heap = .ok ((), heap) := by
  rw [ensure, if_pos holds]
  rfl

lemma Run.base_ne_zero (page : 0 < run.page) : run.base ≠ 0 := by
  simp only [Run.base, pgSize]
  omega

lemma blockOfs_base {ofs : ℕ} (lower : arenaSize ≤ ofs) (inside : ofs < pgSize) :
  blockOfs (run.base + ofs) = ofs - arenaSize := by
  rw [blockOfs, pgOfs_base inside]
  simp only [pgSize] at lower inside ⊢
  omega

lemma checkAligned_normal (sound : (heap.descs desc).Sound) (isSlot : heap.Slot run desc blk) :
  checkAligned blk (some desc) heap = .ok ((), heap) := by
  have bounds := isSlot.bounds sound
  have roomy := sound.roomy
  rcases isSlot with ⟨idx, inside, rfl⟩
  simp only [elemSize] at roomy
  refine ensure_of ?_
  rw [Nat.add_assoc, blockOfs_base (Nat.le_add_right _ _) (by omega), Nat.add_sub_cancel_left,
    Nat.mul_mod_left]

lemma blockToArena_normal (page : 0 < run.page) (magic : (heap.arena run.base).magic = arenaMagic)
  (owner : (heap.arena run.base).desc = some desc) (sound : (heap.descs desc).Sound)
  (isSlot : heap.Slot run desc blk) : blockToArena blk heap = .ok (run.base, heap) := by
  rw [blockToArena, isSlot.page sound, bind_of_ok (ensure_of (Run.base_ne_zero page)),
    reads_bind_apply, bind_of_ok (ensure_of magic), owner,
    bind_of_ok (checkAligned_normal sound isSlot)]
  rfl

lemma blockToArena_big (page : 0 < run.page) (isBig : heap.Big run) :
  blockToArena (run.base + arenaSize) heap = .ok (run.base, heap) := by
  have inside : arenaSize < pgSize := by decide
  have aligned : checkAligned (run.base + arenaSize) none heap = .ok ((), heap) :=
    ensure_of (pgOfs_base inside)
  rw [blockToArena, pgRoundDown_base inside, bind_of_ok (ensure_of (Run.base_ne_zero page)),
    reads_bind_apply, bind_of_ok (ensure_of isBig.magic), isBig.owner, bind_of_ok aligned]
  rfl

lemma arenaToBlock_eq (page : 0 < run.page) (magic : (heap.arena run.base).magic = arenaMagic)
  (owner : (heap.arena run.base).desc = some desc) {idx : ℕ}
  (inside : idx < (heap.descs desc).blocksPerArena) : arenaToBlock run.base idx heap =
    .ok (run.base + arenaSize + idx * (heap.descs desc).blockSize, heap) := by
  rw [arenaToBlock, bind_of_ok (ensure_of (Run.base_ne_zero page)), reads_bind_apply,
    bind_of_ok (ensure_of magic)]
  simp only [owner]
  rw [reads_bind_apply, bind_of_ok (ensure_of inside)]
  rfl

lemma putFreeList_putFreeList (first second : List ℕ) :
  (heap.putFreeList desc first).putFreeList desc second = heap.putFreeList desc second := by
  simp [Heap.putFreeList]

lemma putFreeList_self : heap.putFreeList desc (heap.descs desc).freeList = heap := by
  simp [Heap.putFreeList]

section

variable (page : 0 < run.page) (magic : (heap.arena run.base).magic = arenaMagic)
  (owner : (heap.arena run.base).desc = some desc) (indices : List ℕ)
  (inside : ∀ idx ∈ indices, idx < (heap.descs desc).blocksPerArena)

include page magic owner indices inside

lemma fillLoop_eq :
  fillLoop desc run.base indices heap = .ok ((), heap.putFreeList desc
    ((heap.descs desc).freeList ++
      indices.map fun idx => run.base + arenaSize + idx * (heap.descs desc).blockSize)) := by
  induction indices generalizing heap with
  | nil =>
    rw [List.map_nil, List.append_nil, putFreeList_self]
    rfl
  | cons idx rest ih =>
    rw [fillLoop, bind_of_ok (arenaToBlock_eq page magic owner (inside idx (by simp))),
      listPushBack, updates_bind_apply]
    refine (@ih (heap.putFreeList desc _) magic owner ?_).trans ?_
    · intro other mem
      rw [putFreeList_blocksPerArena]
      exact inside other (List.mem_cons_of_mem _ mem)
    simp only [putFreeList_freeList_self, putFreeList_blockSize, putFreeList_putFreeList,
      List.map_cons, List.append_assoc, List.singleton_append]

lemma unlinkLoop_eq (nodup : (heap.descs desc).freeList.Nodup) (distinct : (indices.map fun idx =>
    run.base + arenaSize + idx * (heap.descs desc).blockSize).Nodup) (linked : ∀ idx ∈ indices,
    run.base + arenaSize + idx * (heap.descs desc).blockSize ∈ (heap.descs desc).freeList) :
  unlinkLoop desc run.base indices heap = .ok ((), heap.putFreeList desc
    ((heap.descs desc).freeList.filter fun blk => decide (blk ∉ indices.map fun idx =>
      run.base + arenaSize + idx * (heap.descs desc).blockSize))) := by
  induction indices generalizing heap with
  | nil =>
    rw [unlinkLoop]
    simp [putFreeList_self]
  | cons idx rest ih =>
    rw [List.map_cons, List.nodup_cons] at distinct
    rw [unlinkLoop, bind_of_ok (arenaToBlock_eq page magic owner (inside idx (by simp)))]
    have removed : listRemove desc (run.base + arenaSize + idx * (heap.descs desc).blockSize) heap =
          .ok ((), heap.putFreeList desc ((heap.descs desc).freeList.erase
            (run.base + arenaSize + idx * (heap.descs desc).blockSize))) := by
      rw [listRemove, if_pos (linked idx (by simp))]
    rw [bind_of_ok removed]
    refine (@ih (heap.putFreeList desc _) magic owner ?_ ?_ ?_ ?_).trans ?_
    · intro other mem
      rw [putFreeList_blocksPerArena]
      exact inside other (List.mem_cons_of_mem _ mem)
    · rw [putFreeList_freeList_self]
      exact nodup.erase _
    · simpa only [putFreeList_blockSize] using distinct.2
    · intro other mem
      rw [putFreeList_freeList_self, putFreeList_blockSize, nodup.mem_erase_iff]
      refine ⟨?_, linked other (List.mem_cons_of_mem _ mem)⟩
      intro same
      exact distinct.1 (List.mem_map.mpr ⟨other, mem, same⟩)
    simp only [putFreeList_freeList_self, putFreeList_blockSize, putFreeList_putFreeList,
      nodup.erase_eq_filter, List.filter_filter, List.map_cons, List.mem_cons]
    congr 3
    refine List.filter_congr ?_
    intro other _
    rw [Bool.eq_iff_iff]
    simp [and_comm]

end

end Parts

structure Handed (heap : Heap) (live : Finset ℕ) (block : ℕ) (after : Heap) : Prop where
  notNull : block ≠ 0
  fresh : block ∉ live
  balanced : after.Balanced (insert block live)
  kept : ∀ old ∈ live, after.usable old = heap.usable old

def Heap.Grants (heap : Heap) (proposal : Option ℕ) : Prop :=
  ∃ page, proposal = some page ∧ heap.Fresh ⟨page, 1⟩

section Taking

variable {heap : Heap} {live : Finset ℕ} {run : Run} {desc blk : ℕ} {rest : List ℕ}

lemma countP_cons_of_page {base : ℕ} (ne : pgRoundDown blk ≠ base) (list : List ℕ) :
  ((blk :: list).countP fun other => decide (pgRoundDown other = base)) =
    list.countP fun other => decide (pgRoundDown other = base) := by
  rw [List.countP_cons_of_neg]
  simpa using ne

lemma countP_cons_page {base : ℕ} (same : pgRoundDown blk = base) (list : List ℕ) :
  ((blk :: list).countP fun other => decide (pgRoundDown other = base)) =
    (list.countP fun other => decide (pgRoundDown other = base)) + 1 := by
  rw [List.countP_cons_of_pos]
  simpa using same

lemma takeBlock_handed (books : heap.Books live) (known : desc < heap.descCnt)
  (isCons : (heap.descs desc).freeList = blk :: rest)
  (unfilled : ∀ run ∈ heap.runs, pgRoundDown blk ≠ run.base → heap.Unfilled run) :
  ∃ after, takeBlock desc heap = .ok (blk, after) ∧ Handed heap live blk after ∧
    after.usable blk = (heap.descs desc).blockSize := by
  have isFree : blk ∈ (heap.descs desc).freeList := by
    rw [isCons]
    exact List.mem_cons_self
  have nodup := books.nodup desc known
  rw [isCons, List.nodup_cons] at nodup
  rcases books.frees desc known blk isFree with ⟨run, mem, isNormal, isSlot⟩
  have sound := books.shapes desc known
  have page := isSlot.page sound
  have placed := books.placed run mem
  have isCnt : heap.freeIn desc run.base =
      (rest.countP fun other => decide (pgRoundDown other = run.base)) + 1 := by
    rw [Heap.freeIn, isCons, countP_cons_page page]
  have others : ∀ base, base ≠ run.base →
      (rest.countP fun other => decide (pgRoundDown other = base)) = heap.freeIn desc base := by
    intro base ne
    rw [Heap.freeIn, isCons, countP_cons_of_page]
    rw [page]
    exact ne.symm
  have counted := isNormal.counted
  have notZero : (heap.arena run.base).freeCnt ≠ 0 := by
    intro isZero
    rw [isZero, isCnt] at counted
    simp at counted
  have newCnt : ((heap.arena run.base).freeCnt - 1).toNat =
      rest.countP fun other => decide (pgRoundDown other = run.base) := by
    rw [toNat_sub_one notZero, counted, isCnt, Nat.add_sub_cancel]
  have isRest : ∀ other ∈ rest, other ∈ (heap.descs desc).freeList := by
    intro other isOther
    rw [isCons]
    exact List.mem_cons_of_mem _ isOther
  have after : (heap.recount desc run.base rest ((heap.arena run.base).freeCnt - 1)).Books
      (insert blk live) := by
    refine books.recounted mem isNormal nodup.2 (fun other isOther => Or.inl (isRest other
      isOther)) newCnt others ?_
    intro other isLive
    rcases Finset.mem_insert.mp isLive with rfl | wasLive
    · exact ⟨Or.inr isSlot, nodup.1⟩
    · exact ⟨Or.inl wasLive, fun isOther => books.not_free wasLive known (isRest other isOther)⟩
  have hdr := books.recount_arena_self isNormal rest ((heap.arena run.base).freeCnt - 1)
  refine ⟨_, ?_, ⟨?_, ?_, ⟨after, ?_⟩, ?_⟩, ?_⟩
  · have popped : listPopFront desc heap = .ok (blk, heap.putFreeList desc rest) := by
      simp [listPopFront, isCons]
    have arena : blockToArena blk (heap.putFreeList desc rest) =
        .ok (run.base, heap.putFreeList desc rest) :=
      blockToArena_normal placed.1 isNormal.magic isNormal.owner
        (putFreeList_alike.sound sound) (putFreeList_alike.slot.mpr isSlot)
    rw [takeBlock, bind_of_ok popped, bind_of_ok arena]
    rfl
  · have bounds := isSlot.bounds sound
    simp only [arenaSize] at bounds
    omega
  · exact fun isLive => books.not_free isLive known isFree
  · intro other memOther
    by_cases same : other = run
    · rw [same]
      intro owner isOwner
      rw [hdr] at isOwner
      cases isNormal.owner.symm.trans isOwner
      have atMost := (books.freeIn_le mem isNormal).1
      rw [Heap.freeIn, recount_freeList_self, recount_alike.blocksPerArena]
      omega
    refine (unfilled other memOther ?_).transport recount_alike
      (books.recount_arena_of_ne mem memOther same _ _ _)
      fun owner _ => books.recount_freeIn_of_ne mem memOther same others _ owner
    rw [page]
    intro sameBase
    exact same (books.eq_of_base memOther mem sameBase.symm)
  · intro old isLive
    rcases books.lives old isLive with ⟨other, memOther, holds⟩
    have pageOld := books.page_of_holds holds
    refine usable_transport recount_alike ?_ ?_
    · rw [pageOld]
      by_cases same : other = run
      · rw [same, hdr]
      · rw [books.recount_arena_of_ne mem memOther same]
    rw [pageOld]
    by_cases same : other = run
    · rw [same, isNormal.owner]
      rintro ⟨⟩
    rw [books.recount_arena_of_ne mem memOther same]
    exact fun _ => rfl
  simp only [Heap.usable, page, hdr, isNormal.owner]
  exact recount_alike.blockSize desc

end Taking

section Growing

variable {heap : Heap} {live : Finset ℕ} {run : Run} {desc blk : ℕ} {proposal : Option ℕ}
  {size : Word}

lemma pallocGetMultiple_cases (proposal : Option ℕ) (cnt : Word) (heap : Heap) :
  pallocGetMultiple proposal cnt heap = .ok (0, heap) ∨
    ∃ run : Run, run.count = cnt.toNat ∧ 0 < run.count ∧ heap.Fresh run ∧
      proposal = some run.page ∧ pallocGetMultiple proposal cnt heap =
        .ok (run.base, { heap with runs := run :: heap.runs }) := by
  by_cases isZero : cnt = 0
  · exact Or.inl (by simp only [pallocGetMultiple, if_pos isZero])
  cases proposal with
  | none => exact Or.inl (by simp only [pallocGetMultiple, if_neg isZero])
  | some page =>
    by_cases fresh : heap.Fresh ⟨page, cnt.toNat⟩
    · refine Or.inr ⟨⟨page, cnt.toNat⟩, rfl, toNat_pos_of_ne_zero isZero, fresh, rfl, ?_⟩
      simp only [pallocGetMultiple, if_neg isZero, if_pos fresh]
      rfl
    refine Or.inl ?_
    simp [pallocGetMultiple, if_neg fresh]

lemma pageCnt_cases (pos : 0 < (pageCnt size).toNat) :
  size.toNat + arenaSize ≤ (pageCnt size).toNat * pgSize ∨
    2 ^ 32 ≤ size.toNat + 11 ∧ (pageCnt size).toNat = 1 := by
  simp only [pageCnt, BitVec.toNat_udiv, BitVec.toNat_sub, BitVec.toNat_add, BitVec.reduceToNat,
    arenaSize, pgSize] at pos ⊢
  omega

lemma mallocBig_granted (balanced : heap.Balanced live)
  (isCnt : run.count = (pageCnt size).toNat) (cnt : 0 < run.count) (fresh : heap.Fresh run)
  (granted : pallocGetMultiple proposal (pageCnt size) heap =
    .ok (run.base, { heap with runs := run :: heap.runs })) :
  ∃ after, mallocBig proposal size heap = .ok (run.base + arenaSize, after) ∧
    Handed heap live (run.base + arenaSize) after ∧
    after.usable (run.base + arenaSize) + arenaSize = (pageCnt size).toNat * pgSize := by
  have books := balanced.books
  refine ⟨heap.grow run { magic := arenaMagic, desc := none, freeCnt := pageCnt size }, ?_, ?_⟩
  · rw [mallocBig, bind_of_ok granted]
    simp only [if_neg (Run.base_ne_zero fresh.1)]
    rfl
  have kept : ∀ old ∈ heap.runs, (heap.grow run
      { magic := arenaMagic, desc := none, freeCnt := pageCnt size }).arena old.base =
        heap.arena old.base := fun old mem => books.grow_arena_of_mem fresh cnt _ mem
  have hdr : (heap.grow run
      { magic := arenaMagic, desc := none, freeCnt := pageCnt size }).arena run.base =
        { magic := arenaMagic, desc := none, freeCnt := pageCnt size } :=
    arena_putArena_self (by simp)
  generalize isAfter : heap.grow run
    { magic := arenaMagic, desc := none, freeCnt := pageCnt size } = after at hdr kept ⊢
  have alike : heap.Alike after := by
    subst isAfter
    exact ⟨rfl, fun _ => rfl, fun _ => rfl⟩
  have runs : after.runs = run :: heap.runs := by
    subst isAfter
    rfl
  have descs : after.descs = heap.descs := by
    subst isAfter
    rfl
  have isBig : after.Big run := by
    refine ⟨?_, ?_, ?_⟩
    · rw [hdr]
    · rw [hdr]
    · rw [hdr, isCnt]
  have extended : after.Books live := by
    refine @Heap.Books.extended heap after live run 0 books alike fresh cnt runs kept []
      ?_ ?_ ?_ List.nodup_nil (Or.inl isBig)
    · rw [descs, List.append_nil]
    · intro other _
      rw [descs]
    intro blk isBlk
    cases isBlk
  have mem : run ∈ after.runs := by
    rw [runs]
    exact List.mem_cons_self
  refine ⟨⟨by simp, ?_, ⟨extended.insert mem (.big isBig rfl), ?_⟩,
    books.usable_kept alike kept⟩, ?_⟩
  · intro isLive
    rcases books.lives _ isLive with ⟨old, memOld, holds⟩
    refine books.base_ne_of_fresh fresh cnt memOld ?_
    rw [← books.page_of_holds holds, pgRoundDown_base (by decide)]
  · intro other memOther
    rw [runs, List.mem_cons] at memOther
    rcases memOther with rfl | old
    · intro owner isOwner
      cases isBig.owner.symm.trans isOwner
    refine (balanced.unfilled other old).transport alike (kept other old) ?_
    intro owner _
    rw [Heap.freeIn, descs]
    rfl
  have usable := usable_of_big isBig (by have := fresh.2.1; have := fresh.1; omega) cnt
  rw [isCnt] at usable
  exact usable

lemma mallocBig_handed (balanced : heap.Balanced live) :
  mallocBig proposal size heap = .ok (0, heap) ∨
    ∃ blk after, mallocBig proposal size heap = .ok (blk, after) ∧
      Handed heap live blk after ∧
      (size.toNat ≤ after.usable blk ∨
        2 ^ 32 ≤ size.toNat + 11 ∧ heap.Grants proposal ∧
          after.usable blk = pgSize - arenaSize) := by
  rcases pallocGetMultiple_cases proposal (pageCnt size) heap with refused |
    ⟨run, isCnt, cnt, fresh, isPage, granted⟩
  · refine Or.inl ?_
    rw [mallocBig, bind_of_ok refused]
    rfl
  rcases mallocBig_granted balanced isCnt cnt fresh granted with
    ⟨after, ran, handed, usable⟩
  refine Or.inr ⟨_, after, ran, handed, ?_⟩
  rw [isCnt] at cnt
  rcases pageCnt_cases cnt with enough | ⟨wraps, single⟩
  · exact Or.inl (by omega)
  refine Or.inr ⟨wraps, ⟨run.page, isPage, ?_⟩, ?_⟩
  · rw [← single, ← isCnt]
    exact fresh
  rw [single] at usable
  omega

def freshArena (heap : Heap) (desc : ℕ) : Arena where
  magic := arenaMagic
  desc := some desc
  freeCnt := BitVec.ofNat 32 (heap.descs desc).blocksPerArena

def slots (heap : Heap) (desc : ℕ) (run : Run) : List ℕ :=
  (List.range (heap.descs desc).blocksPerArena).map fun index =>
    run.base + arenaSize + index * (heap.descs desc).blockSize

lemma Desc.Sound.nodup_slots (sound : (heap.descs desc).Sound) (run : Run) :
  (slots heap desc run).Nodup := by
  refine List.nodup_range.map ?_
  intro one two same
  have roomy := sound.roomy
  simp only [elemSize] at roomy
  exact Nat.eq_of_mul_eq_mul_right (by omega) (Nat.add_left_cancel same)

lemma Desc.Sound.toNat_blocksPerArena (sound : (heap.descs desc).Sound) :
  (BitVec.ofNat 32 (heap.descs desc).blocksPerArena).toNat =
    (heap.descs desc).blocksPerArena := by
  have fits := sound.fits
  have roomy := sound.roomy
  simp only [elemSize] at roomy
  have atLeast : (heap.descs desc).blocksPerArena ≤
      (heap.descs desc).blocksPerArena * (heap.descs desc).blockSize :=
    Nat.le_mul_of_pos_right _ (by omega)
  rw [BitVec.toNat_ofNat]
  simp only [pgSize] at fits
  omega

lemma newArena_grown (balanced : heap.Balanced live) (known : desc < heap.descCnt)
  (isNil : (heap.descs desc).freeList = []) : newArena proposal desc heap = .ok (false, heap) ∨
    ∃ after blk rest, newArena proposal desc heap = .ok (true, after) ∧
      after.Books live ∧ heap.Alike after ∧ (after.descs desc).freeList = blk :: rest ∧
      (∀ other ∈ after.runs, pgRoundDown blk ≠ other.base → after.Unfilled other) ∧
      ∀ old ∈ live, after.usable old = heap.usable old := by
  have books := balanced.books
  have sound := books.shapes desc known
  have few := lt_of_lt_of_le known books.few
  rcases pallocGetMultiple_cases proposal 1 heap with refused |
    ⟨run, isCnt, cnt, fresh, isPage, granted⟩
  · refine Or.inl ?_
    rw [newArena, pallocGetPage, bind_of_ok refused]
    rfl
  have kept : ∀ old ∈ heap.runs, ((heap.grow run (freshArena heap desc)).putFreeList desc
      (slots heap desc run)).arena old.base = heap.arena old.base := fun old mem =>
    books.grow_arena_of_mem fresh cnt _ mem
  have hdr : ((heap.grow run (freshArena heap desc)).putFreeList desc
      (slots heap desc run)).arena run.base = freshArena heap desc := by
    refine arena_putArena_self ?_
    intro num isNum
    cases isNum
    exact few
  have evaluated : newArena proposal desc heap =
      .ok (true, (heap.grow run (freshArena heap desc)).putFreeList desc
        (slots heap desc run)) := by
    have filled := @fillLoop_eq (heap.grow run (freshArena heap desc)) run desc fresh.1
      (congrArg Arena.magic hdr) (congrArg Arena.desc hdr)
      (List.range (heap.descs desc).blocksPerArena) (fun idx => List.mem_range.mp)
    have isNil' : ((heap.grow run (freshArena heap desc)).descs desc).freeList = [] := isNil
    rw [isNil'] at filled
    rw [newArena, pallocGetPage, bind_of_ok granted]
    simp only [if_neg (Run.base_ne_zero fresh.1)]
    exact (bind_of_ok filled).trans rfl
  generalize isAfter : (heap.grow run (freshArena heap desc)).putFreeList desc
    (slots heap desc run) = after at hdr kept evaluated
  have alike : heap.Alike after := by
    subst isAfter
    exact ⟨rfl, fun _ => putFreeList_blockSize, fun _ => putFreeList_blocksPerArena⟩
  have list : (after.descs desc).freeList = slots heap desc run := by
    subst isAfter
    exact putFreeList_freeList_self
  have lists : ∀ other, other ≠ desc → (after.descs other).freeList =
      (heap.descs other).freeList := by
    intro other ne
    subst isAfter
    rw [putFreeList_of_ne ne]
    rfl
  have runs : after.runs = run :: heap.runs := by
    subst isAfter
    rfl
  have isSlot : ∀ blk ∈ slots heap desc run, heap.Slot run desc blk := by
    intro blk isBlk
    rcases List.mem_map.mp isBlk with ⟨idx, inside, rfl⟩
    exact ⟨idx, List.mem_range.mp inside, rfl⟩
  have isNormal : after.Normal run desc := by
    refine ⟨?_, ?_, ?_, isCnt, ?_⟩
    · rw [hdr]
      rfl
    · rw [hdr]
      rfl
    · rw [alike.descCnt]
      exact known
    have all : (slots heap desc run).countP (fun blk =>
        decide (pgRoundDown blk = run.base)) = (heap.descs desc).blocksPerArena := by
      rw [List.countP_eq_length.mpr, slots, List.length_map, List.length_range]
      intro blk isBlk
      rw [decide_eq_true_eq]
      exact (isSlot blk isBlk).page sound
    rw [hdr, Heap.freeIn, list, all]
    exact sound.toNat_blocksPerArena
  have appended : (after.descs desc).freeList =
      (heap.descs desc).freeList ++ slots heap desc run := by
    rw [list, isNil, List.nil_append]
  have extended : after.Books live := by
    refine books.extended alike fresh cnt runs kept appended lists ?_ (sound.nodup_slots run)
      (Or.inr ⟨desc, isNormal⟩)
    intro blk isBlk
    exact ⟨isNormal, alike.slot.mpr (isSlot blk isBlk)⟩
  have notNil : slots heap desc run ≠ [] := by
    have pos := sound.positive
    rw [slots, ne_eq, List.map_eq_nil_iff, List.range_eq_nil]
    omega
  rcases List.exists_cons_of_ne_nil notNil with ⟨blk, rest, isCons⟩
  refine Or.inr ⟨after, blk, rest, evaluated, extended, alike, list.trans isCons, ?_,
    books.usable_kept alike kept⟩
  intro other memOther ne
  rw [runs, List.mem_cons] at memOther
  rcases memOther with rfl | old
  · refine absurd ((isSlot blk ?_).page sound) ne
    rw [isCons]
    exact List.mem_cons_self
  refine (balanced.unfilled other old).transport alike (kept other old) ?_
  intro owner _
  exact books.freeIn_of_added fresh cnt appended lists
    (fun blk isBlk => (isSlot blk isBlk).page sound) old owner

lemma malloc_handed (balanced : heap.Balanced live) : malloc proposal size heap = .ok (0, heap) ∨
    ∃ blk after, malloc proposal size heap = .ok (blk, after) ∧
      Handed heap live blk after ∧
      (size.toNat ≤ after.usable blk ∨
        2 ^ 32 ≤ size.toNat + 11 ∧ heap.Grants proposal ∧
          after.usable blk = pgSize - arenaSize) := by
  by_cases isZero : size = 0
  · refine Or.inl ?_
    rw [malloc, if_pos isZero]
    rfl
  rw [malloc, if_neg isZero, reads_bind_apply]
  cases isFound : (List.range heap.descCnt).find? fun desc =>
      decide (size.toNat ≤ (heap.descs desc).blockSize) with
  | none => exact mallocBig_handed balanced
  | some desc =>
    have enough : size.toNat ≤ (heap.descs desc).blockSize := by
      simpa using List.find?_some isFound
    have known : desc < heap.descCnt := List.mem_range.mp (List.mem_of_find?_eq_some isFound)
    simp only [reads_bind_apply]
    by_cases isNil : (heap.descs desc).freeList = []
    · rw [if_pos isNil]
      rcases newArena_grown balanced known isNil with refused |
        ⟨mid, blk, rest, grown, books, alike, isCons, unfilled, kept⟩
      · refine Or.inl ?_
        rw [bind_of_ok refused]
        rfl
      have known' : desc < mid.descCnt := by
        rw [alike.descCnt]
        exact known
      rcases takeBlock_handed books known' isCons unfilled with
        ⟨after, taken, handed, usable⟩
      refine Or.inr ⟨blk, after, ?_, ⟨handed.notNull, handed.fresh, handed.balanced, ?_⟩,
        Or.inl ?_⟩
      · rw [bind_of_ok grown]
        exact taken
      · intro old isLive
        exact (handed.kept old isLive).trans (kept old isLive)
      rw [usable, alike.blockSize]
      exact enough
    rw [if_neg isNil]
    rcases List.exists_cons_of_ne_nil isNil with ⟨blk, rest, isCons⟩
    rcases takeBlock_handed balanced.books known isCons
      (fun run mem _ => balanced.unfilled run mem) with
        ⟨after, taken, handed, usable⟩
    refine Or.inr ⟨blk, after, taken, handed, Or.inl ?_⟩
    rw [usable]
    exact enough

end Growing

end Pintos.Malloc
