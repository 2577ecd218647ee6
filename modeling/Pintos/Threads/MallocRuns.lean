import Pintos.Library.Calls
import Pintos.Threads.MallocFree

/-!
# Runs of the block allocator

Any sequence of `malloc`, `calloc`, `realloc` and `free` from `malloc_init` on, with
stores into the blocks that are handed out in between. The books are kept in
every state, except after a call for which the number of pages of a big block
has wrapped around and which then writes more bytes than the block has.
-/

namespace Pintos

open Function

namespace Malloc

open Pintos.Computation

/-- The heap and the blocks that are handed out. -/
structure Allocator where
  heap : Heap
  live : Finset ℕ

inductive Call
  | malloc (proposal : Option ℕ) (size : Word)
  | calloc (proposal : Option ℕ) (a b : Word)
  | realloc (proposal : Option ℕ) (block : ℕ) (size : Word)
  | free (block : ℕ)
  | write (block offset : ℕ) (bytes : List Byte)
deriving DecidableEq

namespace Allocator

def perform (state : Allocator) : Call → Except Stop Allocator
  | .malloc proposal size => do
    let (block, heap) ← Malloc.malloc proposal size state.heap
    pure { heap := heap, live := if block = 0 then state.live else insert block state.live }
  | .calloc proposal a b => do
    let (block, heap) ← Malloc.calloc proposal a b state.heap
    pure { heap := heap, live := if block = 0 then state.live else insert block state.live }
  | .realloc proposal block size => do
    let (moved, heap) ← Malloc.realloc proposal block size state.heap
    pure
      { heap := heap
        live :=
          if size = 0 then state.live.erase block
          else if moved = 0 then state.live
          else insert moved (state.live.erase block) }
  | .free block => do
    let (_, heap) ← Malloc.free block state.heap
    pure { heap := heap, live := state.live.erase block }
  | .write block offset bytes => do
    let (_, heap) ← store (block + offset) bytes.length (fun index => bytes.getD index 0)
      state.heap
    pure { state with heap := heap }

/-- A block that is given to a call is handed out, or null where the call takes a null pointer; a
store stays in its block. -/
def Permits (state : Allocator) : Call → Prop
  | .malloc _ _ | .calloc _ _ _ => True
  | .realloc _ block _ | .free block => block = 0 ∨ block ∈ state.live
  | .write block offset bytes =>
    block ∈ state.live ∧ offset + bytes.length ≤ state.heap.usable block

/-- The call gets a page for a size whose number of pages has wrapped around, and writes more than
that page holds. -/
def Overflows (state : Allocator) : Call → Prop
  | .calloc proposal a b =>
    2 ^ 32 ≤ (a * b).toNat + 11 ∧ a ≤ a * b ∧ b ≤ a * b ∧ state.heap.Grants proposal
  | .realloc proposal block size =>
    block ≠ 0 ∧ 2 ^ 32 ≤ size.toNat + 11 ∧ state.heap.Grants proposal ∧
      pgSize - arenaSize < state.heap.usable block
  | .malloc _ _ | .free _ | .write _ _ _ => False

def Starts (state : Allocator) : Prop :=
  ∃ boot : Heap, boot.descCnt = 0 ∧ boot.runs = [] ∧ mallocInit boot = .ok ((), state.heap) ∧
    state.live = ∅

def Reached : Allocator → Prop := Reachable Starts (Calls.Step perform Permits)

def Fits (state : Allocator) (call : Call) : Prop :=
  state.Permits call ∧ ¬ state.Overflows call

def ReachedFitting : Allocator → Prop := Reachable Starts (Calls.Step perform Fits)

/-- Blocks lie in their arenas and apart, and the free counts are right. -/
structure KeepsBooks (state : Allocator) : Prop where
  /-- A block that is handed out lies in its arena behind the header. -/
  inside : ∀ block ∈ state.live, ∃ run ∈ state.heap.runs, run.base = pgRoundDown block ∧
    run.base + arenaSize ≤ block ∧ block + state.heap.usable block ≤ run.stop
  disjoint : ∀ one ∈ state.live, ∀ two ∈ state.live, one ≠ two →
    one + state.heap.usable one ≤ two ∨ two + state.heap.usable two ≤ one
  counted : ∀ run ∈ state.heap.runs, ∀ desc, (state.heap.arena run.base).desc = some desc →
    (state.heap.arena run.base).freeCnt.toNat = state.heap.freeIn desc run.base ∧
      (state.heap.arena run.base).freeCnt.toNat < (state.heap.descs desc).blocksPerArena
  owned : ∀ desc < state.heap.descCnt, ∀ block ∈ (state.heap.descs desc).freeList,
    ∃ run ∈ state.heap.runs, run.base = pgRoundDown block ∧
      (state.heap.arena run.base).desc = some desc ∧ state.heap.Slot run desc block
  /-- A block that is handed out is not free and does not overlap a free one. -/
  apart : ∀ block ∈ state.live, ∀ desc < state.heap.descCnt,
    block ∉ (state.heap.descs desc).freeList ∧
      ∀ free ∈ (state.heap.descs desc).freeList,
        block + state.heap.usable block ≤ free ∨
          free + (state.heap.descs desc).blockSize ≤ block

variable {state : Allocator}

section Init

structure Ready (heap : Heap) : Prop where
  few : heap.descCnt ≤ 10
  shapes : ∀ desc < heap.descCnt, (heap.descs desc).Sound
  empty : ∀ desc < heap.descCnt, (heap.descs desc).freeList = []
  unused : heap.runs = []

lemma Ready.mallocInitLoop {heap after : Heap} {fuel blockSize : ℕ} (ready : Ready heap)
  (roomy : elemSize ≤ blockSize)
  (ran : Malloc.mallocInitLoop fuel blockSize heap = .ok ((), after)) : Ready after := by
  induction fuel generalizing heap blockSize with
  | zero => simp [Malloc.mallocInitLoop] at ran
  | succ fuel ih =>
    rw [Malloc.mallocInitLoop] at ran
    split at ran
    · next small =>
        rw [reads_bind_apply, updates_bind_apply] at ran
        by_cases few : heap.descCnt + 1 ≤ 10
        · rw [bind_of_ok (ensure_of few)] at ran
          have sound : Desc.Sound
              { blockSize := blockSize
                blocksPerArena := (pgSize - arenaSize) / blockSize
                freeList := [] } := by
            refine ⟨roomy, ?_, ?_⟩
            · simp only [elemSize, pgSize, arenaSize] at roomy small ⊢
              exact Nat.div_pos (by omega) (by omega)
            have atMost := Nat.div_mul_le_self (pgSize - arenaSize) blockSize
            simp only [pgSize, arenaSize] at atMost ⊢
            omega
          refine @ih _ (blockSize * 2) ?_ (by omega) ran
          refine ⟨few, ?_, ?_, ready.unused⟩
          · intro desc known
            by_cases same : desc = heap.descCnt
            · simp only [same, update_self]
              exact sound
            simp only [update_of_ne same]
            exact ready.shapes desc (by simp only at known; omega)
          intro desc known
          by_cases same : desc = heap.descCnt
          · simp [same]
          simp only [update_of_ne same]
          exact ready.empty desc (by simp only at known; omega)
        rw [bind_of_error (by rw [ensure, if_neg few]; rfl)] at ran
        cases ran
    cases ran
    exact ready

lemma Starts.balanced (starts : state.Starts) : state.heap.Balanced state.live := by
  rcases starts with ⟨boot, none, unused, ran, isEmpty⟩
  have ready : Ready state.heap := by
    refine Ready.mallocInitLoop ⟨by omega, ?_, ?_, unused⟩ (by decide) ran
    · intro desc known
      omega
    intro desc known
    omega
  refine ⟨⟨ready.few, ready.shapes, ?_, ?_, ?_, ?_, ?_, ?_⟩, ?_⟩
  · rw [ready.unused]
    exact List.Pairwise.nil
  · simp [ready.unused]
  · simp [ready.unused]
  · intro desc known blk isFree
    rw [ready.empty desc known] at isFree
    cases isFree
  · intro desc known
    rw [ready.empty desc known]
    exact List.nodup_nil
  · simp [isEmpty]
  · simp [ready.unused]

end Init

section Steps

variable {after : Allocator} {call : Call}

lemma free_eq {blk : ℕ} (balanced : state.heap.Balanced state.live)
  (permits : blk = 0 ∨ blk ∈ state.live) :
  ∃ heap, Malloc.free blk state.heap = .ok ((), heap) ∧
    heap.Balanced (state.live.erase blk) := by
  rcases permits with rfl | isLive
  · refine ⟨state.heap, rfl, ?_⟩
    rw [Finset.erase_eq_of_notMem fun isLive => balanced.books.ne_zero isLive rfl]
    exact balanced
  · exact free_balanced balanced isLive

lemma perform_balanced (balanced : state.heap.Balanced state.live) (callFits : state.Fits call) :
  ∃ after, state.perform call = .ok after ∧ after.heap.Balanced after.live := by
  rcases callFits with ⟨permits, fits⟩
  cases call with
  | malloc proposal size =>
    rcases @malloc_handed _ _ proposal size balanced with refused |
      ⟨blk, heap, granted, handed, _⟩
    · exact ⟨state, by rw [perform, refused]; rfl, balanced⟩
    refine ⟨⟨heap, insert blk state.live⟩, ?_, handed.balanced⟩
    rw [perform, granted]
    simp [bind, Except.bind, pure, Except.pure, if_neg handed.notNull]
  | calloc proposal a b =>
    rcases @calloc_balanced _ _ proposal a b balanced fits with refused |
      ⟨blk, heap, granted, handed⟩
    · exact ⟨state, by rw [perform, refused]; rfl, balanced⟩
    refine ⟨⟨heap, insert blk state.live⟩, ?_, handed.balanced⟩
    rw [perform, granted]
    simp [bind, Except.bind, pure, Except.pure, if_neg handed.notNull]
  | realloc proposal blk size =>
    by_cases isZero : size = 0
    · rcases free_eq balanced permits with ⟨heap, freed, balancedAfter⟩
      have ran : Malloc.realloc proposal blk size state.heap = .ok (0, heap) := by
        rw [Malloc.realloc, if_pos isZero, bind_of_ok freed]
        rfl
      refine ⟨⟨heap, state.live.erase blk⟩, ?_, balancedAfter⟩
      rw [perform, ran]
      simp only [bind, Except.bind, pure, Except.pure, if_pos isZero]
    by_cases isNull : blk = 0
    · subst isNull
      have erased := Finset.erase_eq_of_notMem fun isLive => balanced.books.ne_zero isLive rfl
      have isMalloc : Malloc.realloc proposal 0 size state.heap =
          Malloc.malloc proposal size state.heap := by
        rw [Malloc.realloc, if_neg isZero]
        rcases @malloc_handed _ _ proposal size balanced with refused |
          ⟨blk, heap, granted, _, _⟩
        · rw [bind_of_ok refused, refused]
          rfl
        rw [bind_of_ok granted, granted]
        rfl
      rcases @malloc_handed _ _ proposal size balanced with refused |
        ⟨blk, heap, granted, handed, _⟩
      · refine ⟨state, ?_, balanced⟩
        rw [perform, isMalloc, refused]
        simp only [bind, Except.bind, pure, Except.pure, if_neg isZero, if_true]
      refine ⟨⟨heap, insert blk state.live⟩, ?_, handed.balanced⟩
      rw [perform, isMalloc, granted, erased]
      simp only [bind, Except.bind, pure, Except.pure, if_neg isZero, if_neg handed.notNull]
    have isLive := permits.resolve_left isNull
    have fits' : ¬ (2 ^ 32 ≤ size.toNat + 11 ∧ state.heap.Grants proposal ∧
        pgSize - arenaSize < state.heap.usable blk) := fun short => fits ⟨isNull, short⟩
    rcases realloc_balanced balanced isLive isZero fits' with refused |
      ⟨moved, heap, granted, notNull, balancedAfter⟩
    · refine ⟨state, ?_, balanced⟩
      rw [perform, refused]
      simp only [bind, Except.bind, pure, Except.pure, if_neg isZero, if_true]
    refine ⟨⟨heap, insert moved (state.live.erase blk)⟩, ?_, balancedAfter⟩
    rw [perform, granted]
    simp only [bind, Except.bind, pure, Except.pure, if_neg isZero, if_neg notNull]
  | free blk =>
    rcases free_eq balanced permits with ⟨heap, freed, balancedAfter⟩
    exact ⟨⟨heap, state.live.erase blk⟩, by rw [perform, freed]; rfl, balancedAfter⟩
  | write blk ofs bytes =>
    have upper : blk + ofs + bytes.length ≤ blk + state.heap.usable blk := by
      have := permits.2
      omega
    rcases balanced.store_within permits.1 (Nat.le_add_right blk ofs) upper
      (fun idx => bytes.getD idx 0) with ⟨stored, balancedAfter, _⟩
    exact ⟨⟨_, state.live⟩, by rw [perform, stored]; rfl, balancedAfter⟩

lemma keepsBooks_of_balanced (balanced : state.heap.Balanced state.live) : state.KeepsBooks := by
  have books := balanced.books
  refine ⟨?_, ?_, ?_, ?_, ?_⟩
  · intro blk isLive
    rcases books.lives blk isLive with ⟨run, mem, holds⟩
    have bounds := books.holds_bounds mem holds
    exact ⟨run, mem, (books.page_of_holds holds).symm, bounds.1, bounds.2.2⟩
  · intro one isOne two isTwo ne
    exact books.lives_apart isOne isTwo ne
  · intro run mem desc isOwner
    have counted := (books.normal_of_owner mem isOwner).counted
    exact ⟨counted, counted.trans_lt (balanced.unfilled run mem desc isOwner)⟩
  · intro desc known blk isFree
    rcases books.frees desc known blk isFree with ⟨run, mem, isNormal, isSlot⟩
    exact ⟨run, mem, (isSlot.page (books.shapes desc known)).symm, isNormal.owner, isSlot⟩
  intro blk isLive desc known
  exact ⟨books.not_free isLive known, fun free isFree => books.free_apart isLive known isFree⟩

lemma ReachedFitting.balanced (reached : ReachedFitting state) :
  state.heap.Balanced state.live := by
  refine @Calls.invariant _ _ _ Starts perform Fits _
    (fun state => state.heap.Balanced state.live) (fun state starts => starts.balanced) ?_ reached
  intro state call after balanced callFits ran
  rcases perform_balanced balanced callFits with ⟨res, done, kept⟩
  cases ran.symm.trans done
  exact kept

/-- As long as no call overflows, the allocator keeps its books, and no assertion fails. -/
theorem keepsBooks_of_reached (reached : ReachedFitting state) :
    state.KeepsBooks ∧ ∀ call, state.Fits call → ∃ after, state.perform call = .ok after := by
  refine ⟨keepsBooks_of_balanced reached.balanced, ?_⟩
  intro call callFits
  rcases perform_balanced reached.balanced callFits with ⟨after, performed, _⟩
  exact ⟨after, performed⟩

end Steps

section Samples

instance (heap : Heap) (proposal : Option ℕ) : Decidable (heap.Grants proposal) :=
  match proposal with
  | none => isFalse fun ⟨_, isPage, _⟩ => by cases isPage
  | some page => decidable_of_iff (heap.Fresh ⟨page, 1⟩)
      ⟨fun fresh => ⟨page, rfl, fresh⟩, fun ⟨_, isPage, fresh⟩ => by cases isPage; exact fresh⟩

instance (state : Allocator) : DecidablePred state.Permits
  | .malloc _ _ | .calloc _ _ _ => inferInstanceAs (Decidable True)
  | .realloc _ _ _ | .free _ => inferInstanceAs (Decidable (_ ∨ _))
  | .write _ _ _ => inferInstanceAs (Decidable (_ ∧ _))

instance (state : Allocator) : DecidablePred state.Overflows
  | .calloc _ _ _ => inferInstanceAs (Decidable (_ ∧ _ ∧ _ ∧ _))
  | .realloc _ _ _ => inferInstanceAs (Decidable (_ ∧ _ ∧ _ ∧ _))
  | .malloc _ _ | .free _ | .write _ _ _ => inferInstanceAs (Decidable False)

instance (state : Allocator) : DecidablePred state.Fits :=
  fun _ => inferInstanceAs (Decidable (_ ∧ _))

def bootHeap : Heap where
  descs := fun _ => { blockSize := 0, blocksPerArena := 0, freeList := [] }
  descCnt := 0
  memory := fun _ => 0
  runs := []

def booted : Allocator where
  heap := ((mallocInit bootHeap).toOption.elim bootHeap Prod.snd)
  live := ∅

lemma booted_starts : booted.Starts := ⟨bootHeap, rfl, rfl, rfl, rfl⟩

/-- A block of a descriptor and a big block are handed out at once. -/
theorem keepsBooks_mixed : ∃ state : Allocator,
    (147468 ∈ state.live ∧ 40972 ∈ state.live ∧ (state.heap.descs 6).freeList = [41996, 43020]) ∧
      state.KeepsBooks ∧
        ∀ call, state.Fits call → ∃ after, state.perform call = .ok after := by
  have ran : (Calls.run perform Fits [.malloc (some 10) 1000, .malloc (some 36) 5000]
      booted).any (fun state => decide (147468 ∈ state.live ∧ 40972 ∈ state.live ∧
        (state.heap.descs 6).freeList = [41996, 43020])) = true := by
    decide +kernel
  rcases Calls.reaches_of_run _ booted_starts ran with ⟨state, reached, checks⟩
  exact ⟨state, of_decide_eq_true checks, keepsBooks_of_reached reached⟩

def panics : Except Stop Allocator → Bool
  | .error .panic => true
  | _ => false

/-- Two big blocks of two pages each. The first is moved by `realloc` to a size whose number of
pages wraps around to 1; its 8180 bytes are copied to the page before the second block, whose header
they overwrite. The second block cannot be freed. -/
theorem not_keepsBooks_moved : ∃ state : Allocator, state.Reached ∧ 86028 ∈ state.live ∧
    state.perform (.free 86028) = .error .panic := by
  have ran : (Calls.run perform Permits [.malloc (some 10) 5000, .malloc (some 21) 5000,
      .realloc (some 20) 40972 4294967295] booted).any (fun state =>
        decide (86028 ∈ state.live) && panics (state.perform (.free 86028))) = true := by
    decide +kernel
  rcases Calls.reaches_of_run _ booted_starts ran with ⟨state, reached, checks⟩
  rw [Bool.and_eq_true, decide_eq_true_eq] at checks
  refine ⟨state, reached, checks.1, ?_⟩
  revert checks
  cases state.perform (.free 86028) with
  | ok after => simp [panics]
  | error reason =>
    cases reason with
    | panic => exact fun _ => rfl
    | fault => simp [panics]
    | running => simp [panics]

end Samples

end Allocator

end Malloc

end Pintos
