import Pintos.Threads.MallocRuns

/-!
# The size of an allocation

`malloc` and `calloc` return a null pointer or a block that is as big as asked
for, unless a computation in 32 bits wraps around: the number of pages of a big
block in `malloc`, or the product in `calloc`, which the test there does not
always notice.
-/

namespace Pintos.Malloc

open Pintos.Computation

def Heap.GrantsPages (heap : Heap) (proposal : Option ℕ) (count : Word) : Prop :=
  count ≠ 0 ∧ ∃ page, proposal = some page ∧ heap.Fresh ⟨page, count.toNat⟩

def Heap.Holding (heap : Heap) (block bytes : ℕ) : Prop :=
  ∃ room, blockSize block heap = .ok (room, heap) ∧ bytes ≤ room

/-- `malloc` returns null or a block that is large enough. -/
def MallocEnough (heap : Heap) (proposal : Option ℕ) (size : Word) : Prop :=
  ∃ block after, malloc proposal size heap = .ok (block, after) ∧
    (block = 0 ∨ after.Holding block size.toNat)

/-- `calloc` returns null or a zeroed block that is large enough. -/
def CallocEnough (heap : Heap) (proposal : Option ℕ) (a b : Word) : Prop :=
  ∃ block after, calloc proposal a b heap = .ok (block, after) ∧
    (block = 0 ∨ after.Holding block (a.toNat * b.toNat) ∧
      ∀ index < a.toNat * b.toNat, after.memory (block + index) = 0)

def MallocWraps (heap : Heap) (proposal : Option ℕ) (size : Word) : Prop :=
  2 ^ 32 ≤ size.toNat + 11 ∧ heap.GrantsPages proposal (pageCnt size)

/-- The product wraps around, passes the tests and gets its pages. -/
def CallocWraps (heap : Heap) (proposal : Option ℕ) (a b : Word) : Prop :=
  a ≤ a * b ∧ b ≤ a * b ∧ 2 ^ 32 ≤ a.toNat * b.toNat + 11 ∧
    heap.GrantsPages proposal (pageCnt (a * b))

section Sizes

variable {heap : Heap} {live : Finset ℕ} {proposal : Option ℕ} {size : Word}

lemma holding_iff {blk bytes : ℕ} (books : heap.Books live) (isLive : blk ∈ live) :
  heap.Holding blk bytes ↔ bytes ≤ heap.usable blk := by
  constructor
  · rintro ⟨room, ran, enough⟩
    rw [blockSize_eq books isLive] at ran
    cases ran
    exact enough
  intro enough
  exact ⟨heap.usable blk, blockSize_eq books isLive, enough⟩

lemma malloc_eq_mallocBig (books : heap.Books live) (large : pgSize ≤ size.toNat) :
  malloc proposal size heap = mallocBig proposal size heap := by
  have notZero : size ≠ 0 := by
    rintro rfl
    simp at large
  have none : (List.range heap.descCnt).find? (fun desc =>
      decide (size.toNat ≤ (heap.descs desc).blockSize)) = none := by
    rw [List.find?_eq_none]
    intro desc mem
    have sound := books.shapes desc (List.mem_range.mp mem)
    have atMost : (heap.descs desc).blockSize ≤
        (heap.descs desc).blocksPerArena * (heap.descs desc).blockSize :=
      Nat.le_mul_of_pos_left _ sound.positive
    have fits := sound.fits
    simp only [decide_eq_true_eq]
    simp only [arenaSize] at fits large
    omega
  rw [malloc, if_neg notZero, reads_bind_apply, none]

lemma Heap.GrantsPages.granted {cnt : Word} (grants : heap.GrantsPages proposal cnt) :
  ∃ run : Run, run.count = cnt.toNat ∧ 0 < run.count ∧ heap.Fresh run ∧
    pallocGetMultiple proposal cnt heap =
      .ok (run.base, { heap with runs := run :: heap.runs }) := by
  rcases grants with ⟨notZero, page, rfl, fresh⟩
  refine ⟨⟨page, cnt.toNat⟩, rfl, toNat_pos_of_ne_zero notZero, fresh, ?_⟩
  simp only [pallocGetMultiple, if_neg notZero, if_pos fresh]
  rfl

lemma mallocBig_refused (refuses : ¬ heap.GrantsPages proposal (pageCnt size)) :
  mallocBig proposal size heap = .ok (0, heap) := by
  rcases pallocGetMultiple_cases proposal (pageCnt size) heap with refused |
    ⟨run, isCnt, cnt, fresh, isPage, _⟩
  · rw [mallocBig, bind_of_ok refused]
    rfl
  refine absurd ⟨?_, run.page, isPage, ?_⟩ refuses
  · intro isZero
    rw [isZero] at isCnt
    simp at isCnt
    omega
  rw [← isCnt]
  exact fresh

lemma pageCnt_of_wraps (wraps : 2 ^ 32 ≤ size.toNat + 11) : pageCnt size = 1 := by
  refine BitVec.eq_of_toNat_eq ?_
  simp only [pageCnt, BitVec.toNat_udiv, BitVec.toNat_sub, BitVec.toNat_add, BitVec.reduceToNat]
  omega

lemma mallocEnough_iff (balanced : heap.Balanced live) :
  MallocEnough heap proposal size ↔ ¬ MallocWraps heap proposal size := by
  constructor
  · rintro ⟨blk, after, ran, out⟩ ⟨wraps, grants⟩
    have large : pgSize ≤ size.toNat := by
      simp only [pgSize]
      omega
    rcases grants.granted with ⟨run, isCnt, cnt, fresh, granted⟩
    rcases mallocBig_granted balanced isCnt cnt fresh granted with
      ⟨res, isRes, handed, usable⟩
    rw [malloc_eq_mallocBig balanced.books large, isRes] at ran
    cases ran
    rw [pageCnt_of_wraps wraps] at usable
    rcases out with isNull | holding
    · exact handed.notNull isNull
    rw [holding_iff handed.balanced.books (Finset.mem_insert_self _ _)] at holding
    have onePage : (1 : Word).toNat * pgSize = 4096 := rfl
    omega
  intro noWrap
  rcases @malloc_handed heap live proposal size balanced with refused |
    ⟨blk, after, ran, handed, room⟩
  · exact ⟨0, heap, refused, Or.inl rfl⟩
  refine ⟨blk, after, ran, Or.inr ?_⟩
  rw [holding_iff handed.balanced.books (Finset.mem_insert_self _ _)]
  rcases room with enough | ⟨wraps, ⟨page, isPage, fresh⟩, _⟩
  · exact enough
  refine absurd ⟨wraps, ?_, page, isPage, ?_⟩ noWrap
  · rw [pageCnt_of_wraps wraps]
    decide
  rw [pageCnt_of_wraps wraps]
  exact fresh

section Calloc

variable {a b : Word}

lemma le_toNat_mul (aLe : a ≤ a * b) (bLe : b ≤ a * b) (wraps : 2 ^ 32 ≤ a.toNat * b.toNat + 11) :
  pgSize ≤ (a * b).toNat := by
  rw [BitVec.le_def] at aLe bLe
  by_contra small
  simp only [pgSize] at small
  have aSmall : a.toNat ≤ 4096 := by omega
  have bSmall : b.toNat ≤ 4096 := by omega
  have := Nat.mul_le_mul aSmall bSmall
  omega

lemma calloc_of_fits (notRejected : ¬ (a * b < a ∨ a * b < b))
  {blk : ℕ} {mid : Heap} (ran : malloc proposal (a * b) heap = .ok (blk, mid))
  (handed : Handed heap live blk mid) (enough : (a * b).toNat ≤ mid.usable blk) :
  ∃ after, calloc proposal a b heap = .ok (blk, after) ∧
    after.Balanced (insert blk live) ∧ after.usable blk = mid.usable blk ∧
    ∀ idx < (a * b).toNat, after.memory (blk + idx) = 0 := by
  have isLive := Finset.mem_insert_self blk live
  rcases handed.balanced.store_within isLive le_rfl (Nat.add_le_add_left enough blk)
    (fun _ => 0) with ⟨cleared, balancedAfter, kept⟩
  refine ⟨mid.write blk (a * b).toNat fun _ => 0, ?_, balancedAfter, kept blk isLive, ?_⟩
  · rw [calloc]
    simp only [if_neg notRejected]
    rw [bind_of_ok ran, if_pos handed.notNull, memset, bind_of_ok cleared]
    rfl
  intro idx inside
  simp only [Heap.write]
  rw [overlay_inside (Nat.le_add_right blk idx) (Nat.add_lt_add_left inside blk)]

lemma callocEnough_iff (balanced : heap.Balanced live) :
  CallocEnough heap proposal a b ↔ ¬ CallocWraps heap proposal a b := by
  constructor
  · rintro ⟨blk, after, ran, out⟩ ⟨aLe, bLe, wraps, grants⟩
    have notRejected : ¬ (a * b < a ∨ a * b < b) := by
      simp [aLe, bLe]
    have large := le_toNat_mul aLe bLe wraps
    rcases grants.granted with ⟨run, isCnt, cnt, fresh, granted⟩
    rcases mallocBig_granted balanced isCnt cnt fresh granted with
      ⟨mid, isMid, handed, usable⟩
    have alloc := (malloc_eq_mallocBig balanced.books large).trans isMid
    have short : mid.usable (run.base + arenaSize) + 4096 < 2 ^ 32 := by
      have := fresh.2.1
      have := fresh.1
      have hdr : arenaSize = 12 := rfl
      have page : pgSize = 4096 := rfl
      rw [page] at usable
      omega
    by_cases enough : (a * b).toNat ≤ mid.usable (run.base + arenaSize)
    · rcases calloc_of_fits notRejected alloc handed enough with
        ⟨res, isRes, balancedAfter, kept, _⟩
      rw [isRes] at ran
      cases ran
      rcases out with isNull | ⟨holding, _⟩
      · exact handed.notNull isNull
      rw [holding_iff balancedAfter.books (Finset.mem_insert_self _ _)] at holding
      omega
    have tooMany : ¬ (run.base + arenaSize + (a * b).toNat ≤ 2 ^ 32 ∧
        mid.Intact (run.base + arenaSize) (a * b).toNat) := by
      rintro ⟨inside, _⟩
      have pos : 0 < (pageCnt (a * b)).toNat := isCnt ▸ cnt
      have wrapped := (pageCnt_cases pos).resolve_left (by omega)
      have hdr : arenaSize = 12 := rfl
      omega
    rw [calloc] at ran
    simp only [if_neg notRejected] at ran
    rw [bind_of_ok alloc, if_pos handed.notNull,
      bind_of_error (by rw [memset, store, if_neg tooMany])] at ran
    cases ran
  intro noWrap
  by_cases rejected : a * b < a ∨ a * b < b
  · refine ⟨0, heap, ?_, Or.inl rfl⟩
    rw [calloc]
    simp only [if_pos rejected]
    rfl
  by_cases small : a.toNat * b.toNat + 11 < 2 ^ 32
  · have exact : (a * b).toNat = a.toNat * b.toNat := by
      rw [BitVec.toNat_mul, Nat.mod_eq_of_lt (by omega)]
    rcases @malloc_handed heap live proposal (a * b) balanced with refused |
      ⟨blk, mid, ran, handed, room⟩
    · refine ⟨0, heap, ?_, Or.inl rfl⟩
      rw [calloc]
      simp only [if_neg rejected]
      rw [bind_of_ok refused]
      rfl
    rcases room with enough | ⟨wraps, _, _⟩
    · rcases calloc_of_fits rejected ran handed enough with
        ⟨after, isAfter, balancedAfter, kept, zeros⟩
      refine ⟨blk, after, isAfter, Or.inr ⟨?_, ?_⟩⟩
      · rw [holding_iff balancedAfter.books (Finset.mem_insert_self _ _), kept, ← exact]
        exact enough
      rw [← exact]
      exact zeros
    · omega
  simp only [not_or, BitVec.not_lt] at rejected
  have refuses : ¬ heap.GrantsPages proposal (pageCnt (a * b)) := fun grants =>
    noWrap ⟨rejected.1, rejected.2, by omega, grants⟩
  have large := le_toNat_mul rejected.1 rejected.2 (by omega)
  refine ⟨0, heap, ?_, Or.inl rfl⟩
  rw [calloc]
  simp only [BitVec.not_lt.mpr rejected.1, BitVec.not_lt.mpr rejected.2, or_self, if_false]
  rw [bind_of_ok ((malloc_eq_mallocBig balanced.books large).trans
    (mallocBig_refused refuses))]
  rfl

end Calloc

end Sizes

namespace Allocator

/-- As long as no call overflows, `malloc` and `calloc` return a null pointer or a block that is as
big as asked for, and that `calloc` has cleared, exactly if no computation wraps around. -/
theorem enough_iff_of_reached {state : Allocator} (reached : ReachedFitting state) :
    (∀ proposal size,
      MallocEnough state.heap proposal size ↔ ¬ MallocWraps state.heap proposal size) ∧
      ∀ proposal a b,
        CallocEnough state.heap proposal a b ↔ ¬ CallocWraps state.heap proposal a b :=
  ⟨fun _ _ => mallocEnough_iff reached.balanced, fun _ _ _ => callocEnough_iff reached.balanced⟩

/-- A state in which a block is handed out. -/
theorem enough_iff_allocated : ∃ state : Allocator, 40972 ∈ state.live ∧
    ((∀ proposal size,
      MallocEnough state.heap proposal size ↔ ¬ MallocWraps state.heap proposal size) ∧
      ∀ proposal a b,
        CallocEnough state.heap proposal a b ↔ ¬ CallocWraps state.heap proposal a b) := by
  have ran : (Calls.run perform Fits [.malloc (some 10) 5000] booted).any
      (fun state => decide (40972 ∈ state.live)) = true := by
    decide +kernel
  rcases Calls.reaches_of_run _ booted_starts ran with ⟨state, reached, checks⟩
  exact ⟨state, of_decide_eq_true checks, enough_iff_of_reached reached⟩

/-- After `malloc_init`, a block of 4294967295 bytes fits in one page, and 65537 times 65537 bytes
in 33. -/
theorem not_enough_booted : booted.Starts ∧
    ¬ MallocEnough booted.heap (some 10) 4294967295 ∧
      ¬ CallocEnough booted.heap (some 10) 65537 65537 := by
  have balanced := booted_starts.balanced
  refine ⟨booted_starts, ?_, ?_⟩
  · rw [mallocEnough_iff balanced, not_not]
    exact ⟨by decide, by decide, 10, rfl, by decide +kernel⟩
  rw [callocEnough_iff balanced, not_not]
  exact ⟨by decide, by decide, by decide, by decide, 10, rfl, by decide +kernel⟩

end Allocator

end Pintos.Malloc
