import Pintos.Threads.PallocLayout

/-!
# Runs of the page allocator

Any sequence of calls keeps the bitmaps equal to the set of pages that are handed
out. `palloc_get_multiple` finds a run of free pages if there is one, and
`palloc_free_multiple` finds the pool from the address.
-/

namespace Pintos.Palloc

open Extent

structure PageAllocator.Sound (state : PageAllocator) : Prop where
  laid : state.pools.Laid
  positive : ∀ run ∈ state.runs, 0 < run.bytes.count
  partitioned : state.Partitioned

section Get

variable {state : PageAllocator} {flags : PallocFlags} {pageCnt : Word} {pools : Pools} {start : ℕ}

lemma Pools.mark_usedMap (pools : Pools) (user : Bool) :
  pools.mark user (pools.pool user).usedMap = pools := by
  cases user <;> rfl

lemma pages_toNat {user : Bool} (isLaid : pools.Laid)
  (inside : start < (pools.pool user).usedMap.bitCnt) :
  ((pools.pool user).base + pgSize * BitVec.ofNat 32 start).toNat =
    (pools.pool user).base.toNat + 4096 * start := by
  have top := isLaid.stop_lt user
  simp only [Pool.pages, stop] at top
  simp only [pgSize, BitVec.toNat_add, BitVec.toNat_mul, BitVec.toNat_ofNat, BitVec.reduceToNat]
  omega

lemma pallocGetMultiple_of_some (isLaid : pools.Laid) (notZero : pageCnt ≠ 0)
  (found : bitmapScan (pools.pool flags.user).usedMap 0 pageCnt.toNat false = some start) :
  ∃ pages, pages.toNat = (pools.pool flags.user).base.toNat + 4096 * start ∧ pages ≠ 0 ∧
    pallocGetMultiple flags pageCnt pools = .ok (pages, pools.mark flags.user
      (bitmapSetMultiple (pools.pool flags.user).usedMap start pageCnt.toNat true)) := by
  have fits := (bitmapScan_eq_some found).2.1
  have pos := toNat_pos_of_ne_zero notZero
  have isPages := @pages_toNat pools start flags.user isLaid (by omega)
  have notNull : (pools.pool flags.user).base + pgSize * BitVec.ofNat 32 start ≠ 0 := by
    intro isNull
    have bottom := isLaid.start_pos flags.user
    rw [isNull] at isPages
    simp only [Pool.pages] at bottom
    simp at isPages
    omega
  refine ⟨_, isPages, notNull, ?_⟩
  have alike : pools.Alike (pools.mark flags.user
      (bitmapSetMultiple (pools.pool flags.user).usedMap start pageCnt.toNat true)) :=
    Pools.mark_alike (bitmapSetMultiple_bitCnt _ _ _ _)
  have cleared : memset (pools.mark flags.user
      (bitmapSetMultiple (pools.pool flags.user).usedMap start pageCnt.toNat true))
        ((pools.pool flags.user).base + pgSize * BitVec.ofNat 32 start) (pgSize * pageCnt) =
          .ok () := by
    refine @Pools.Laid.memset_eq _ flags.user (alike.laid isLaid) _ _ ?_
    rw [alike.pages_eq]
    simp only [Contains, Pool.pages, pageBytes, stop]
    omega
  simp only [pallocGetMultiple, if_neg notZero, bitmapScanAndFlip, found, Bool.not_false,
    if_pos notNull, cleared]
  cases flags.zero <;> rfl

lemma pallocGetMultiple_of_none (notZero : pageCnt ≠ 0)
  (missing : bitmapScan (pools.pool flags.user).usedMap 0 pageCnt.toNat false = none) :
  pallocGetMultiple flags pageCnt pools =
    if flags.assert then .error .panic else .ok (0, pools) := by
  simp only [pallocGetMultiple, if_neg notZero, bitmapScanAndFlip, missing, Pools.mark_usedMap,
    ne_eq, not_true_eq_false, if_false]
  rfl

namespace PageAllocator

lemma perform_get_of_ok {pages : Word}
  (ran : pallocGetMultiple flags pageCnt state.pools = .ok (pages, pools)) :
  state.perform (.get flags pageCnt) = .ok
    { pools := pools
      runs :=
        if pages = 0 then state.runs
        else { user := flags.user, bytes := pageBytes pages pageCnt } :: state.runs } := by
  rw [perform, ran]
  rfl

lemma Sound.of_found {pages : Word} (sound : state.Sound) (notZero : pageCnt ≠ 0)
  (isPages : pages.toNat = (state.pools.pool flags.user).base.toNat + 4096 * start)
  (found : bitmapScan (state.pools.pool flags.user).usedMap 0 pageCnt.toNat false = some start) :
  Sound
    { pools := state.pools.mark flags.user
        (bitmapSetMultiple (state.pools.pool flags.user).usedMap start pageCnt.toNat true)
      runs := { user := flags.user, bytes := pageBytes pages pageCnt } :: state.runs } := by
  rcases sound with ⟨isLaid, pos, partitioned⟩
  rcases bitmapScan_eq_some found with ⟨-, fits, free⟩
  have some := toNat_pos_of_ne_zero notZero
  have alike : state.pools.Alike (state.pools.mark flags.user
      (bitmapSetMultiple (state.pools.pool flags.user).usedMap start pageCnt.toNat true)) :=
    Pools.mark_alike (bitmapSetMultiple_bitCnt _ _ _ _)
  have newInside : (state.pools.pool flags.user).pages.Contains (pageBytes pages pageCnt) := by
    simp only [Contains, Pool.pages, pageBytes, stop]
    omega
  have newAligned : (pageBytes pages pageCnt).start % 4096 = 0 ∧
      (pageBytes pages pageCnt).count % 4096 = 0 := by
    have aligned := isLaid.aligned flags.user
    simp only [pageBytes]
    omega
  have newApart : ∀ run ∈ state.runs, run.bytes.Apart (pageBytes pages pageCnt) := by
    intro run member
    refine apart_of_no_page (partitioned.aligned run member) newAligned (pos run member)
      (by simp only [pageBytes]; omega) ?_
    intro idx inside contains
    simp only [pageBytes, isPages] at inside contains
    have addr : (state.pools.pool flags.user).base.toNat + 4096 * start + 4096 * idx =
        (state.pools.pool flags.user).base.toNat + 4096 * (start + idx) := by
      omega
    rw [addr] at contains
    have isSet := (partitioned.marked flags.user (start + idx) (by omega)).mpr
      ⟨run, member, contains⟩
    rw [free idx (by omega)] at isSet
    cases isSet
  refine ⟨alike.laid isLaid, ?_, ?_, ?_, ?_, ?_, ?_, ?_⟩
  · intro run member
    rcases List.mem_cons.mp member with rfl | old
    · simp only [pageBytes]
      omega
    · exact pos run old
  · exact (alike.laid isLaid).apart
  · refine List.Pairwise.cons ?_ partitioned.disjoint
    intro run member
    exact (newApart run member).symm
  · intro run member
    rcases List.mem_cons.mp member with rfl | old
    · exact newAligned
    · exact partitioned.aligned run old
  · intro run member
    rw [alike.pages_eq]
    rcases List.mem_cons.mp member with rfl | old
    · exact newInside
    · exact partitioned.inside run old
  · intro run member user
    rw [alike.storage_eq]
    rcases List.mem_cons.mp member with rfl | old
    · exact (isLaid.apart_storage flags.user user).of_contains newInside
    · exact partitioned.outside run old user
  intro user idx inside
  rw [(alike user).2.2] at inside
  have old := partitioned.marked user idx inside
  have page := Pools.page_contains inside
  simp only [HandedOut, List.mem_cons, exists_eq_or_imp] at old ⊢
  by_cases same : user = flags.user
  · subst same
    rw [Pools.mark_self, bitmapTest_bitmapSetMultiple, ← old]
    simp only [Contains, pageBytes, stop]
    split
    · next among =>
        simp only [true_iff]
        exact Or.inl (by omega)
    next outside =>
      constructor
      · exact Or.inr
      rintro (among | isSet)
      · omega
      · exact isSet
  rw [Pools.mark_of_ne _ _ same, old]
  constructor
  · exact Or.inr
  rintro (among | isOut)
  · have inNew : (state.pools.pool flags.user).pages.Contains
        ⟨(state.pools.pool user).base.toNat + 4096 * idx, 4096⟩ :=
      ⟨newInside.1.trans among.1, among.2.trans newInside.2⟩
    exact absurd (isLaid.eq_of_contains page inNew) same
  · exact isOut

end PageAllocator

end Get

section Free

variable {state : PageAllocator} {pages pageCnt : Word} {user : Bool} {start : ℕ}

namespace PageAllocator

lemma Sound.exists_pool (sound : state.Sound) (notZero : pageCnt ≠ 0)
  (isAligned : pages.toNat % 4096 = 0)
  (handedOut : ∀ idx < pageCnt.toNat, state.HandedOut (pages.toNat + 4096 * idx)) :
  ∃ user start, pages.toNat = (state.pools.pool user).base.toNat + 4096 * start ∧
    start + pageCnt.toNat ≤ (state.pools.pool user).usedMap.bitCnt := by
  have chain := sound.laid.chain
  rcases handedOut 0 (toNat_pos_of_ne_zero notZero) with ⟨run, member, contains⟩
  have inside := sound.partitioned.inside run member
  have baseAligned := sound.laid.aligned run.user
  have first : (state.pools.pool run.user).pages.Contains ⟨pages.toNat, 4096⟩ :=
    ⟨inside.1.trans contains.1, contains.2.trans inside.2⟩
  refine ⟨run.user, (pages.toNat - (state.pools.pool run.user).base.toNat) / 4096, ?_, ?_⟩
  · simp only [Contains, Pool.pages] at first
    omega
  have bounds := first
  simp only [Contains, Pool.pages, stop] at bounds
  by_contra beyond
  rcases handedOut ((state.pools.pool run.user).usedMap.bitCnt -
    (pages.toNat - (state.pools.pool run.user).base.toNat) / 4096) (by omega) with
      ⟨last, lastMem, lastContains⟩
  have lastInside := sound.partitioned.inside last lastMem
  have lower := lastInside.1.trans lastContains.1
  have upper := lastContains.2.trans lastInside.2
  revert bounds lower upper baseAligned beyond
  simp only [Pool.pages, stop] at chain ⊢
  cases run.user <;> cases last.user <;> simp only [Pools.pool_false, Pools.pool_true] <;> omega

lemma Sound.free_eq (sound : state.Sound) (notZero : pageCnt ≠ 0)
  (isPages : pages.toNat = (state.pools.pool user).base.toNat + 4096 * start)
  (fits : start + pageCnt.toNat ≤ (state.pools.pool user).usedMap.bitCnt)
  (isSet : ∀ idx < pageCnt.toNat,
    bitmapTest (state.pools.pool user).usedMap (start + idx) = true) :
  pages ≠ 0 ∧ pallocFreeMultiple pages pageCnt state.pools = .ok (state.pools.mark user
    (bitmapSetMultiple (state.pools.pool user).usedMap start pageCnt.toNat false)) := by
  have isLaid := sound.laid
  have baseAligned := isLaid.aligned user
  have some := toNat_pos_of_ne_zero notZero
  have isAligned : pages.toNat % 4096 = 0 := by omega
  have notNull : pages ≠ 0 := by
    rintro rfl
    have bottom := isLaid.start_pos user
    simp only [Pool.pages] at bottom
    simp at isPages
    omega
  have first : (state.pools.pool user).pages.Contains ⟨pages.toNat, 4096⟩ := by
    simp only [Contains, Pool.pages, stop]
    omega
  have idx : (pgNo pages - pgNo (state.pools.pool user).base).toNat = start := by
    rw [BitVec.toNat_sub_of_le (by rw [BitVec.le_def, pgNo_toNat, pgNo_toNat]; omega), pgNo_toNat,
      pgNo_toNat]
    omega
  have inPool : freeInPool state.pools user pages pageCnt = .ok (state.pools.mark user
      (bitmapSetMultiple (state.pools.pool user).usedMap start pageCnt.toNat false)) := by
    have cleared : memset state.pools pages (pgSize * pageCnt) = .ok () := by
      refine @Pools.Laid.memset_eq _ user isLaid _ _ ?_
      simp only [Contains, Pool.pages, pageBytes, stop]
      omega
    simp only [freeInPool, cleared, idx]
    rw [if_pos ⟨fits, bitmapAll_eq_true_iff.mpr isSet⟩]
    rfl
  have fromPool : ∀ other, pageFromPool (state.pools.pool other) pages = decide (other = user) := by
    intro other
    rw [Bool.eq_iff_iff, isLaid.pageFromPool_iff isAligned, decide_eq_true_eq]
    constructor
    · exact fun inOther => isLaid.eq_of_contains inOther first
    rintro rfl
    exact first
  refine ⟨notNull, ?_⟩
  have fromKernel := fromPool false
  have fromUser := fromPool true
  simp only [Pools.pool_false, Pools.pool_true] at fromKernel fromUser
  simp only [pallocFreeMultiple, pgOfs_eq_zero isAligned, ne_eq, not_true_eq_false, if_false,
    notNull,
    notZero, or_self, fromKernel, fromUser]
  cases user with
  | false => exact inPool
  | true => exact inPool

lemma handedOut_without {pools : Pools} {freed : Extent} {addr : ℕ} :
  HandedOut { pools := pools, runs := state.runs.flatMap (PageRun.without freed) } addr ↔
    state.HandedOut addr ∧ (⟨addr, 4096⟩ : Extent).Apart freed := by
  simp only [HandedOut, PageRun.without, List.mem_flatMap, List.mem_map]
  constructor
  · rintro ⟨_, ⟨run, member, piece, isPiece, rfl⟩, contains⟩
    have part := contains_of_mem_cut isPiece
    exact ⟨⟨run, member, part.1.trans contains.1, contains.2.trans part.2⟩,
      (apart_of_mem_cut isPiece).of_contains contains⟩
  rintro ⟨⟨run, member, contains⟩, apart⟩
  rcases exists_mem_cut (by simp) contains apart with ⟨piece, isPiece, inPiece⟩
  exact ⟨_, ⟨run, member, piece, isPiece, rfl⟩, inPiece⟩

lemma page_apart_iff {base start idx : ℕ} (isPages : pages.toNat = base + 4096 * start) :
  (⟨base + 4096 * idx, 4096⟩ : Extent).Apart (pageBytes pages pageCnt) ↔
    ¬ (start ≤ idx ∧ idx < start + pageCnt.toNat) := by
  simp only [Apart, pageBytes, stop]
  omega

lemma Sound.cleared_iff {other : Bool} {idx : ℕ} (sound : state.Sound)
  (isPages : pages.toNat = (state.pools.pool user).base.toNat + 4096 * start)
  (fits : start + pageCnt.toNat ≤ (state.pools.pool user).usedMap.bitCnt)
  (inside : idx < (state.pools.pool other).usedMap.bitCnt) :
  bitmapTest ((state.pools.mark user (bitmapSetMultiple (state.pools.pool user).usedMap start
    pageCnt.toNat false)).pool other).usedMap idx = true ↔
      bitmapTest (state.pools.pool other).usedMap idx = true ∧
        (⟨(state.pools.pool other).base.toNat + 4096 * idx, 4096⟩ : Extent).Apart
          (pageBytes pages pageCnt) := by
  by_cases same : other = user
  · subst same
    rw [Pools.mark_self, bitmapTest_bitmapSetMultiple, page_apart_iff isPages]
    split
    · next among => simp [among]
    · next outside => simp [outside]
  rw [Pools.mark_of_ne _ _ same]
  have chain := sound.laid.chain
  refine (and_iff_left ?_).symm
  revert isPages fits inside
  simp only [Apart, pageBytes, Pool.pages, stop] at chain ⊢
  cases user <;> cases other <;> simp only [Pools.pool_false, Pools.pool_true] <;>
    first | exact absurd rfl same | omega

lemma Sound.of_freed (sound : state.Sound) (notZero : pageCnt ≠ 0)
  (isPages : pages.toNat = (state.pools.pool user).base.toNat + 4096 * start)
  (fits : start + pageCnt.toNat ≤ (state.pools.pool user).usedMap.bitCnt) : Sound
    { pools := state.pools.mark user
        (bitmapSetMultiple (state.pools.pool user).usedMap start pageCnt.toNat false)
      runs := state.runs.flatMap (PageRun.without (pageBytes pages pageCnt)) } := by
  have some := toNat_pos_of_ne_zero notZero
  have holeAligned := sound.laid.aligned user
  have alike : state.pools.Alike (state.pools.mark user
      (bitmapSetMultiple (state.pools.pool user).usedMap start pageCnt.toNat false)) :=
    Pools.mark_alike (bitmapSetMultiple_bitCnt _ _ _ _)
  have pieces : ∀ run ∈ state.runs.flatMap (PageRun.without (pageBytes pages pageCnt)),
      ∃ old ∈ state.runs, run.user = old.user ∧
        run.bytes ∈ cut (pageBytes pages pageCnt) old.bytes := by
    intro run member
    rcases List.mem_flatMap.mp member with ⟨old, isOld, isPiece⟩
    rcases List.mem_map.mp isPiece with ⟨piece, inCut, rfl⟩
    exact ⟨old, isOld, rfl, inCut⟩
  refine ⟨alike.laid sound.laid, ?_, (alike.laid sound.laid).apart, ?_, ?_, ?_, ?_, ?_⟩
  · intro run member
    rcases pieces run member with ⟨old, isOld, _, inCut⟩
    exact (mem_cut.mp inCut).1
  · refine List.pairwise_flatMap.mpr ⟨?_, sound.partitioned.disjoint.imp ?_⟩
    · intro run member
      refine List.pairwise_map.mpr (cut_pairwise ?_)
      simp only [pageBytes]
      omega
    intro one two apart onePiece isOne twoPiece isTwo
    rcases List.mem_map.mp isOne with ⟨_, inOne, rfl⟩
    rcases List.mem_map.mp isTwo with ⟨_, inTwo, rfl⟩
    exact ((apart.of_contains (contains_of_mem_cut inOne)).symm.of_contains
      (contains_of_mem_cut inTwo)).symm
  · intro run member
    rcases pieces run member with ⟨old, isOld, _, inCut⟩
    have oldAligned := sound.partitioned.aligned old isOld
    rcases mem_cut.mp inCut with ⟨_, bounds⟩
    simp only [pageBytes, stop] at bounds
    omega
  · intro run member
    rcases pieces run member with ⟨old, isOld, sameUser, inCut⟩
    have part := contains_of_mem_cut inCut
    have inside := sound.partitioned.inside old isOld
    rw [alike.pages_eq, sameUser]
    exact ⟨inside.1.trans part.1, part.2.trans inside.2⟩
  · intro run member other
    rcases pieces run member with ⟨old, isOld, _, inCut⟩
    rw [alike.storage_eq]
    exact (sound.partitioned.outside old isOld other).of_contains (contains_of_mem_cut inCut)
  intro other idx inside
  rw [(alike other).2.2] at inside
  rw [(alike other).1, handedOut_without, ← sound.partitioned.marked other idx inside]
  exact sound.cleared_iff isPages fits inside

lemma Sound.exists_freed (sound : state.Sound) (notNull : pages ≠ 0) (notZero : pageCnt ≠ 0)
  (permits : state.Permits (.free pages pageCnt)) :
  ∃ user start, pages.toNat = (state.pools.pool user).base.toNat + 4096 * start ∧
    start + pageCnt.toNat ≤ (state.pools.pool user).usedMap.bitCnt ∧
    pallocFreeMultiple pages pageCnt state.pools = .ok (state.pools.mark user
      (bitmapSetMultiple (state.pools.pool user).usedMap start pageCnt.toNat false)) := by
  rcases permits.resolve_left notNull with ⟨isAligned, handedOut⟩
  rcases sound.exists_pool notZero isAligned handedOut with ⟨user, start, isPages, fits⟩
  refine ⟨user, start, isPages, fits, (sound.free_eq notZero isPages fits ?_).2⟩
  intro idx inside
  rw [sound.partitioned.marked user (start + idx) (by omega)]
  have addr : pages.toNat + 4096 * idx =
      (state.pools.pool user).base.toNat + 4096 * (start + idx) := by
    omega
  rw [← addr]
  exact handedOut idx inside

lemma free_of_nothing (nothing : pages = 0 ∨ pageCnt = 0)
  (permits : state.Permits (.free pages pageCnt)) :
  pallocFreeMultiple pages pageCnt state.pools = .ok state.pools := by
  have isAligned : pages.toNat % 4096 = 0 := by
    rcases permits with rfl | ⟨isAligned, -⟩
    · rfl
    · exact isAligned
  simp only [pallocFreeMultiple, pgOfs_eq_zero isAligned, ne_eq, not_true_eq_false, if_false,
    if_pos nothing]

end PageAllocator

end Free

namespace PageAllocator

section Runs

variable {state after : PageAllocator}

lemma Starts.sound (starts : state.Starts) : state.Sound := by
  rcases starts with ⟨none, mem, initRamPages, userPageLimit, ran⟩
  rcases pallocInit_laid ran with ⟨isLaid, clear⟩
  refine ⟨isLaid, ?_, isLaid.apart, ?_, ?_, ?_, ?_, ?_⟩
  · simp [none]
  · rw [none]
    exact List.Pairwise.nil
  · simp [none]
  · simp [none]
  · simp [none]
  intro user idx inside
  simp [clear user idx inside, HandedOut, none]

lemma Sound.perform {call : Call} (sound : state.Sound) (permits : state.Permits call)
  (ran : state.perform call = .ok after) : after.Sound := by
  cases call with
  | get flags pageCnt =>
    by_cases isZero : pageCnt = 0
    · have nothing : pallocGetMultiple flags pageCnt state.pools = .ok (0, state.pools) := by
        simp only [pallocGetMultiple, if_pos isZero]
        rfl
      rw [perform_get_of_ok nothing] at ran
      cases ran
      exact sound
    cases found : bitmapScan (state.pools.pool flags.user).usedMap 0 pageCnt.toNat false with
    | none =>
      have out := pallocGetMultiple_of_none isZero found
      by_cases asserts : flags.assert = true
      · rw [if_pos asserts] at out
        rw [PageAllocator.perform, out] at ran
        cases ran
      rw [if_neg asserts] at out
      rw [perform_get_of_ok out] at ran
      cases ran
      exact sound
    | some start =>
      rcases pallocGetMultiple_of_some sound.laid isZero found with
        ⟨pages, isPages, notNull, out⟩
      rw [perform_get_of_ok out, if_neg notNull] at ran
      cases ran
      exact sound.of_found isZero isPages found
  | free pages pageCnt =>
    by_cases nothing : pages = 0 ∨ pageCnt = 0
    · rw [PageAllocator.perform, free_of_nothing nothing permits, if_pos nothing] at ran
      cases ran
      exact sound
    rcases not_or.mp nothing with ⟨notNull, notZero⟩
    rcases sound.exists_freed notNull notZero permits with
      ⟨user, start, isPages, fits, out⟩
    rw [PageAllocator.perform, out, if_neg nothing] at ran
    cases ran
    exact sound.of_freed notZero isPages fits

lemma Reached.sound (reached : Reached state) : state.Sound := by
  refine @Calls.invariant _ _ _ Starts perform Permits _ Sound
    (fun state starts => starts.sound) ?_ reached
  intro state call after sound permits ran
  exact sound.perform permits ran

lemma Sound.getsRight (sound : state.Sound) (flags : PallocFlags) (pageCnt : Word) :
  state.GetsRight flags pageCnt := by
  by_cases isZero : pageCnt = 0
  · subst isZero
    refine ⟨fun free => absurd free.1 (by simp), fun _ => rfl⟩
  cases found : bitmapScan (state.pools.pool flags.user).usedMap 0 pageCnt.toNat false with
  | none =>
    refine ⟨?_, ?_⟩
    · rintro ⟨-, start, fits, free⟩
      rcases bitmapScan_eq_none found start (Nat.zero_le start) fits with ⟨idx, among, isSet⟩
      have handedOut := (sound.partitioned.marked flags.user (start + idx) (by omega)).mp isSet
      exact absurd handedOut (free idx among)
    intro _
    rw [pallocGetMultiple_of_none isZero found]
    simp only [ne_eq, isZero, not_false_eq_true, true_and]
  | some start =>
    rcases bitmapScan_eq_some found with ⟨-, fits, free⟩
    rcases pallocGetMultiple_of_some sound.laid isZero found with ⟨pages, _, notNull, out⟩
    refine ⟨fun _ => ⟨pages, _, out, notNull⟩, fun noRun => absurd ?_ noRun⟩
    refine ⟨toNat_pos_of_ne_zero isZero, start, fits, ?_⟩
    intro idx among handedOut
    have isSet := (sound.partitioned.marked flags.user (start + idx) (by omega)).mpr handedOut
    rw [free idx among] at isSet
    cases isSet

lemma Sound.freesRight {pages pageCnt : Word} (sound : state.Sound)
  (permits : state.Permits (.free pages pageCnt)) : state.FreesRight pages pageCnt := by
  by_cases nothing : pages = 0 ∨ pageCnt = 0
  · refine ⟨state.pools, free_of_nothing nothing permits, fun user => ⟨rfl, ?_⟩⟩
    intro idx inside
    refine (and_iff_left ?_).symm
    rcases permits with isNull | ⟨isAligned, -⟩
    · exact Or.inl isNull
    rcases nothing with isNull | isZero
    · exact Or.inl isNull
    have baseAligned := sound.laid.aligned user
    right
    simp only [Extent.Apart, Extent.stop, pageBytes, isZero, BitVec.reduceToNat]
    omega
  rcases not_or.mp nothing with ⟨notNull, notZero⟩
  rcases sound.exists_freed notNull notZero permits with ⟨user, start, isPages, fits, out⟩
  refine ⟨_, out, fun other => ⟨?_, ?_⟩⟩
  · exact (Pools.mark_alike (bitmapSetMultiple_bitCnt _ _ _ _) other).2.2
  intro idx inside
  rw [sound.cleared_iff isPages fits inside]
  simp only [notNull, false_or]

/-- In every state that is reached the bitmaps are right, and so is what the next call does. -/
theorem partitioned_of_reached (reached : Reached state) :
    state.Partitioned ∧ (∀ flags pageCnt, state.GetsRight flags pageCnt) ∧
      ∀ pages pageCnt, state.Permits (.free pages pageCnt) → state.FreesRight pages pageCnt :=
  ⟨reached.sound.partitioned, reached.sound.getsRight, fun _ _ => reached.sound.freesRight⟩

end Runs

section Samples

instance (state : PageAllocator) : DecidablePred state.Permits
  | .get _ _ => inferInstanceAs (Decidable True)
  | .free _ _ => inferInstanceAs (Decidable (_ ∨ _ ∧ _))

def booted : PageAllocator where
  pools := (pallocInit (fun _ => 0) 266 0xffffffff).toOption.elim
    { kernelPool := ⟨⟨0, fun _ => 0⟩, 0, 0⟩, userPool := ⟨⟨0, fun _ => 0⟩, 0, 0⟩ } id
  runs := []

lemma booted_starts : booted.Starts := ⟨rfl, fun _ => 0, 266, 0xffffffff, rfl⟩

/-- Two kernel pages of three are freed again, and a user page is handed out. -/
theorem partitioned_freed : ∃ state : PageAllocator,
    state.runs = [⟨true, ⟨3222298624, 4096⟩⟩, ⟨false, ⟨3222278144, 4096⟩⟩] ∧
      state.Partitioned ∧ (∀ flags pageCnt, state.GetsRight flags pageCnt) ∧
        ∀ pages pageCnt, state.Permits (.free pages pageCnt) → state.FreesRight pages pageCnt := by
  have ran : (Calls.run perform Permits [.get ⟨false, true, false⟩ 3, .get ⟨true, false, true⟩ 1,
      .free 3222282240 2] booted).any (fun state => decide (state.runs =
        [⟨true, ⟨3222298624, 4096⟩⟩, ⟨false, ⟨3222278144, 4096⟩⟩])) = true := by
    decide +kernel
  rcases Calls.reaches_of_run _ booted_starts ran with ⟨state, reached, checks⟩
  exact ⟨state, of_decide_eq_true checks, partitioned_of_reached reached⟩

end Samples

end PageAllocator

end Pintos.Palloc
