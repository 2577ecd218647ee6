import Pintos.Threads.Palloc

/-!
# Where the pools lie

What `palloc_init` accepts is laid out without wrapping around: the bitmap and the
pages of the kernel pool, then those of the user pool.
-/

namespace Pintos.Palloc

open Extent

variable {other : Bool}

section Layout

variable {pools after : Pools} {user : Bool} {usedMap : Bitmap}

/-- The four parts follow each other, from the bitmap of the kernel pool to the pages of the user
pool. -/
structure Pools.Laid (pools : Pools) : Prop where
  aligned : ∀ user, (pools.pool user).base.toNat % 4096 = 0
  maps : ∀ user, (pools.pool user).storage.stop ≤ (pools.pool user).pages.start
  between : pools.kernelPool.pages.stop ≤ pools.userPool.storage.start
  top : pools.userPool.pages.stop < 2 ^ 32

def Pools.Alike (pools after : Pools) : Prop :=
  ∀ user, (after.pool user).base = (pools.pool user).base ∧
    (after.pool user).mapAt = (pools.pool user).mapAt ∧
    (after.pool user).usedMap.bitCnt = (pools.pool user).usedMap.bitCnt

@[simp]
lemma Pools.pool_false (pools : Pools) : pools.pool false = pools.kernelPool := rfl

@[simp]
lemma Pools.pool_true (pools : Pools) : pools.pool true = pools.userPool := rfl

lemma Pools.mark_self (pools : Pools) (user : Bool) (usedMap : Bitmap) :
  (pools.mark user usedMap).pool user = { pools.pool user with usedMap := usedMap } := by
  cases user <;> rfl

lemma Pools.mark_of_ne (pools : Pools) (usedMap : Bitmap) (ne : other ≠ user) :
  (pools.mark user usedMap).pool other = pools.pool other := by
  cases user <;> cases other <;> first | rfl | exact absurd rfl ne

lemma Pools.mark_alike (sameCnt : usedMap.bitCnt = (pools.pool user).usedMap.bitCnt) :
  pools.Alike (pools.mark user usedMap) := by
  intro other
  by_cases same : other = user
  · subst same
    rw [Pools.mark_self]
    exact ⟨rfl, rfl, sameCnt⟩
  rw [Pools.mark_of_ne _ _ same]
  exact ⟨rfl, rfl, rfl⟩

namespace Pools.Alike

lemma pages_eq (alike : pools.Alike after) (user : Bool) :
  (after.pool user).pages = (pools.pool user).pages := by
  rcases alike user with ⟨sameBase, -, sameCnt⟩
  simp [Pool.pages, sameBase, sameCnt]

lemma storage_eq (alike : pools.Alike after) (user : Bool) :
  (after.pool user).storage = (pools.pool user).storage := by
  rcases alike user with ⟨-, sameMap, sameCnt⟩
  simp [Pool.storage, sameMap, sameCnt]

lemma laid (alike : pools.Alike after) (isLaid : pools.Laid) : after.Laid := by
  have kernelPages := alike.pages_eq false
  have userPages := alike.pages_eq true
  have userStorage := alike.storage_eq true
  simp only [Pools.pool_false, Pools.pool_true] at kernelPages userPages userStorage
  refine ⟨?_, ?_, ?_, ?_⟩
  · intro user
    rw [(alike user).1]
    exact isLaid.aligned user
  · intro user
    rw [alike.storage_eq, alike.pages_eq]
    exact isLaid.maps user
  · rw [kernelPages, userStorage]
    exact isLaid.between
  rw [userPages]
  exact isLaid.top

end Pools.Alike

namespace Pools.Laid

section

variable (isLaid : pools.Laid)
include isLaid

lemma chain :
  0 < pools.kernelPool.pages.start ∧ pools.kernelPool.pages.start ≤ pools.kernelPool.pages.stop ∧
    pools.kernelPool.pages.stop ≤ pools.userPool.storage.start ∧
    pools.userPool.storage.start + 8 ≤ pools.userPool.storage.stop ∧
    pools.userPool.storage.stop ≤ pools.userPool.pages.start ∧
    pools.userPool.pages.start ≤ pools.userPool.pages.stop ∧
    pools.userPool.pages.stop < 2 ^ 32 ∧
    pools.kernelPool.storage.stop ≤ pools.kernelPool.pages.start := by
  have kernelMaps := isLaid.maps false
  have userMaps := isLaid.maps true
  have between := isLaid.between
  have top := isLaid.top
  simp only [Pools.pool_false, Pools.pool_true, Pool.storage, stop, bitmapBytes]
    at kernelMaps userMaps between top ⊢
  omega

lemma start_pos (user : Bool) : 0 < (pools.pool user).pages.start := by
  have chain := isLaid.chain
  cases user <;> simp only [Pools.pool_false, Pools.pool_true] <;> omega

lemma stop_lt (user : Bool) : (pools.pool user).pages.stop < 2 ^ 32 := by
  have chain := isLaid.chain
  cases user <;> simp only [Pools.pool_false, Pools.pool_true] <;> omega

lemma apart : pools.kernelPool.pages.Apart pools.userPool.pages := by
  have chain := isLaid.chain
  exact Or.inl (by omega)

lemma apart_storage (user other : Bool) :
  (pools.pool user).pages.Apart (pools.pool other).storage := by
  have chain := isLaid.chain
  cases user <;> cases other <;> simp only [Pools.pool_false, Pools.pool_true, Apart] <;> omega

end

end Pools.Laid

end Layout

section Init

variable {mem : Word → Word} {base pageCnt : Word} {pool : Pool} {pools : Pools}

lemma initPool_eq_ok (ran : initPool mem base pageCnt = .ok pool) :
  ∃ bmPages, bmPages = divRoundUp (bitmapBufSize pageCnt) pgSize ∧ bmPages ≤ pageCnt ∧
    bitmapBufSize (pageCnt - bmPages) ≤ bmPages * pgSize ∧
    Mapped ⟨base.toNat, bitmapBytes (pageCnt - bmPages).toNat⟩ ∧
    pool =
      { usedMap := bitmapSetAll
          { bitCnt := (pageCnt - bmPages).toNat
            bits := fun idx => mem (base + 8 + 4 * BitVec.ofNat 32 idx) } false
        mapAt := base
        base := base + bmPages * pgSize } := by
  refine ⟨_, rfl, ?_⟩
  simp only [initPool] at ran
  split at ran
  · cases ran
  next roomy =>
    simp only [bitmapCreateInBuf] at ran
    split at ran
    · cases ran
    next enough =>
      split at ran
      · next mapped =>
          cases ran
          exact ⟨BitVec.not_lt.mp roomy, BitVec.not_lt.mp enough, mapped, rfl⟩
      · cases ran

lemma bmPages_toNat (pageCnt : Word) : (divRoundUp (bitmapBufSize pageCnt) pgSize).toNat =
    (8 + 4 * ((pageCnt.toNat + 31) % 2 ^ 32 / 32) + 4095) / 4096 := by
  simp only [divRoundUp, bitmapBufSize, pgSize, BitVec.toNat_udiv, BitVec.toNat_sub,
    BitVec.toNat_add, BitVec.toNat_mul, BitVec.reduceToNat]
  omega

lemma initPool_laid (small : base.toNat + 4096 * pageCnt.toNat < 2 ^ 32)
  (isAligned : base.toNat % 4096 = 0) (ran : initPool mem base pageCnt = .ok pool) :
  pool.mapAt = base ∧ pool.base.toNat % 4096 = 0 ∧ pool.storage.stop ≤ pool.pages.start ∧
    pool.pages.stop = base.toNat + 4096 * pageCnt.toNat ∧
    ∀ idx < pool.usedMap.bitCnt, bitmapTest pool.usedMap idx = false := by
  rcases initPool_eq_ok ran with ⟨bmPages, isPages, atMost, enough, -, rfl⟩
  have num := bmPages_toNat pageCnt
  rw [← isPages] at num
  rw [BitVec.le_def] at atMost enough
  have left : (pageCnt - bmPages).toNat = pageCnt.toNat - bmPages.toNat :=
    BitVec.toNat_sub_of_le (BitVec.le_def.mpr atMost)
  have places : (base + bmPages * pgSize).toNat = base.toNat + 4096 * bmPages.toNat := by
    simp only [pgSize, BitVec.toNat_add, BitVec.toNat_mul, BitVec.reduceToNat]
    omega
  refine ⟨rfl, ?_, ?_, ?_, ?_⟩
  · simp only [places]
    omega
  · simp only [bitmapBufSize, divRoundUp, pgSize, BitVec.toNat_add, BitVec.toNat_mul,
      BitVec.toNat_udiv, BitVec.toNat_sub, BitVec.reduceToNat] at enough
    simp only [Pool.storage, Pool.pages, stop, bitmapBytes, byteCnt, elemCnt, elemBits, places,
      bitmapSetAll, bitmapSetMultiple_bitCnt]
    omega
  · simp only [Pool.pages, stop, bitmapSetAll, bitmapSetMultiple_bitCnt]
    omega
  intro idx inside
  simp only [bitmapSetAll, bitmapSetMultiple_bitCnt] at inside ⊢
  rw [bitmapTest_bitmapSetMultiple, if_pos (by omega)]

lemma sdiv_pgSize_cases (bytes : Word) :
  (bytes.sdiv pgSize).toNat ≤ 2 ^ 19 ∨ 2 ^ 32 - 2 ^ 19 ≤ (bytes.sdiv pgSize).toNat := by
  have isInt := BitVec.toInt_sdiv bytes pgSize
  have lower := BitVec.le_toInt bytes
  have upper := @BitVec.toInt_lt _ bytes
  have page : pgSize.toInt = 4096 := rfl
  rw [page] at isInt
  have quotient : -2 ^ 19 ≤ bytes.toInt.tdiv 4096 ∧ bytes.toInt.tdiv 4096 ≤ 2 ^ 19 := by
    by_cases sign : 0 ≤ bytes.toInt
    · rw [Int.tdiv_eq_ediv_of_nonneg sign]
      omega
    have negated : (-bytes.toInt).tdiv 4096 = -bytes.toInt / 4096 :=
      Int.tdiv_eq_ediv_of_nonneg (by omega)
    rw [Int.neg_tdiv] at negated
    omega
  rw [Int.bmod_eq_of_le (by omega) (by omega)] at isInt
  have isNat := BitVec.toInt_eq_toNat_cond (bytes.sdiv pgSize)
  split at isNat <;> omega

lemma pallocInit_eq_ok {initRamPages userPageLimit : Word}
  (ran : pallocInit mem initRamPages userPageLimit = .ok pools) :
  ∃ bytes freePages userPages kernelPages : Word, freePages = bytes.sdiv pgSize ∧
    userPages.toNat ≤ freePages.toNat / 2 ∧ kernelPages = freePages - userPages ∧
    initPool mem 0xc0100000 kernelPages = .ok pools.kernelPool ∧
    initPool mem (0xc0100000 + kernelPages * pgSize) userPages = .ok pools.userPool := by
  have start : ptov (1024 * 1024) = .ok 0xc0100000 := by decide
  rw [pallocInit, start] at ran
  cases ends : ptov (initRamPages * pgSize) with
  | error reason =>
    rw [ends] at ran
    cases ran
  | ok freeEnd =>
    rw [ends] at ran
    simp only [bind, Except.bind, pure] at ran
    split at ran
    · cases ran
    next kernelPool isKernel =>
      split at ran
      · cases ran
      next userPool isUser =>
        cases ran
        refine ⟨_, _, _, _, rfl, ?_, rfl, isKernel, isUser⟩
        generalize (freeEnd - 0xc0100000).sdiv pgSize = freePages
        split
        · next limited =>
            exact limited.le
        rfl

lemma few_of_initPool {bytes userPages : Word}
  (atMost : userPages.toNat ≤ (bytes.sdiv pgSize).toNat / 2)
  (ran : initPool mem 0xc0100000 (bytes.sdiv pgSize - userPages) = .ok pool) :
  (bytes.sdiv pgSize).toNat ≤ 2 ^ 19 := by
  rcases initPool_eq_ok ran with ⟨bmPages, isPages, fits, -, mapped, -⟩
  rcases sdiv_pgSize_cases bytes with few | many
  · exact few
  have kernelPages : (bytes.sdiv pgSize - userPages).toNat =
      (bytes.sdiv pgSize).toNat - userPages.toNat :=
    BitVec.toNat_sub_of_le (BitVec.le_def.mpr (by omega))
  have num := bmPages_toNat (bytes.sdiv pgSize - userPages)
  rw [← isPages] at num
  have left := BitVec.toNat_sub_of_le fits
  have upper := mapped.2
  simp only [stop, bitmapBytes, byteCnt, elemCnt, elemBits, physBase, BitVec.reduceToNat] at upper
  omega

lemma pallocInit_laid {initRamPages userPageLimit : Word}
  (ran : pallocInit mem initRamPages userPageLimit = .ok pools) :
  pools.Laid ∧ ∀ user, ∀ idx < (pools.pool user).usedMap.bitCnt,
    bitmapTest (pools.pool user).usedMap idx = false := by
  rcases pallocInit_eq_ok ran with
    ⟨bytes, freePages, userPages, kernelPages, rfl, atMost, rfl, isKernel, isUser⟩
  have few := few_of_initPool atMost isKernel
  have kernelPages : (bytes.sdiv pgSize - userPages).toNat =
      (bytes.sdiv pgSize).toNat - userPages.toNat :=
    BitVec.toNat_sub_of_le (BitVec.le_def.mpr (by omega))
  generalize bytes.sdiv pgSize - userPages = kernelCnt at isKernel isUser kernelPages
  have userBase : (0xc0100000 + kernelCnt * pgSize).toNat =
      (0xc0100000 + 4096 * kernelCnt.toNat) % 2 ^ 32 := by
    simp only [pgSize, BitVec.toNat_add, BitVec.toNat_mul, BitVec.reduceToNat]
    omega
  rcases initPool_eq_ok isUser with ⟨_, -, -, -, mapped, -⟩
  have lower := mapped.1
  have upper := mapped.2
  simp only [stop, physBase, BitVec.reduceToNat] at lower upper
  rcases initPool_laid (by simp only [BitVec.reduceToNat]; omega) (by decide) isKernel with
    ⟨kernelMap, kernelAligned, kernelMaps, kernelStop, kernelClear⟩
  rcases initPool_laid (by omega) (by omega) isUser with
    ⟨userMap, userAligned, userMaps, userStop, userClear⟩
  refine ⟨⟨?_, ?_, ?_, ?_⟩, ?_⟩
  · intro user
    cases user
    · exact kernelAligned
    · exact userAligned
  · intro user
    cases user
    · exact kernelMaps
    · exact userMaps
  · rw [kernelStop]
    simp only [Pool.storage, userMap, BitVec.reduceToNat]
    omega
  · rw [userStop]
    omega
  intro user
  cases user
  · exact kernelClear
  · exact userClear

end Init

section Pages

variable {pools : Pools} {user : Bool}

lemma apart_of_no_page {one two : Extent} (onePages : one.start % 4096 = 0 ∧ one.count % 4096 = 0)
  (twoPages : two.start % 4096 = 0 ∧ two.count % 4096 = 0) (onePositive : 0 < one.count)
  (twoPositive : 0 < two.count) (none : ∀ idx, 4096 * idx < two.count →
    ¬ one.Contains ⟨two.start + 4096 * idx, 4096⟩) : one.Apart two := by
  by_contra meet
  simp only [Apart, stop] at meet
  simp only [Contains, stop] at none
  rcases Nat.le_total one.start two.start with pre | behind
  · have := none 0 (by omega)
    omega
  have := none ((one.start - two.start) / 4096) (by omega)
  omega

lemma Pools.page_contains {idx : ℕ} (inside : idx < (pools.pool user).usedMap.bitCnt) :
  (pools.pool user).pages.Contains ⟨(pools.pool user).base.toNat + 4096 * idx, 4096⟩ := by
  simp only [Contains, Pool.pages, stop]
  omega

lemma Pools.Laid.eq_of_contains (isLaid : pools.Laid) {addr : ℕ}
  (inOne : (pools.pool user).pages.Contains ⟨addr, 4096⟩)
  (inOther : (pools.pool other).pages.Contains ⟨addr, 4096⟩) : user = other := by
  have chain := isLaid.chain
  simp only [Contains, stop] at inOne inOther chain
  cases user <;> cases other <;> simp only [Pools.pool_false, Pools.pool_true] at inOne inOther <;>
    first | rfl | omega

lemma Pools.Laid.memset_eq (isLaid : pools.Laid) {start pageCnt : Word}
  (inside : (pools.pool user).pages.Contains (pageBytes start pageCnt)) :
  memset pools start (pgSize * pageCnt) = .ok () := by
  have top := isLaid.stop_lt user
  have bounds := inside.2
  have size : (pgSize * pageCnt).toNat = 4096 * pageCnt.toNat := by
    simp only [pgSize, BitVec.toNat_mul, BitVec.reduceToNat, pageBytes, stop] at bounds ⊢
    simp only [stop] at top
    omega
  simp only [memset, size]
  rw [if_pos]
  refine ⟨?_, ?_, ?_⟩
  · exact (bounds.trans_lt top).le
  · exact (isLaid.apart_storage user false).of_contains inside
  · exact (isLaid.apart_storage user true).of_contains inside

lemma pgOfs_eq_zero {addr : Word} (isAligned : addr.toNat % 4096 = 0) : pgOfs addr = 0 := by
  refine BitVec.eq_of_toNat_eq ?_
  have mask : (0xfff : Word).toNat = 2 ^ 12 - 1 := rfl
  simp only [pgOfs, BitVec.toNat_and]
  rw [mask, Nat.and_two_pow_sub_one_eq_mod]
  exact isAligned

lemma Pools.Laid.pageFromPool_iff (isLaid : pools.Laid) {page : Word}
  (isAligned : page.toNat % 4096 = 0) : pageFromPool (pools.pool user) page = true ↔
    (pools.pool user).pages.Contains ⟨page.toNat, 4096⟩ := by
  have baseAligned := isLaid.aligned user
  have top := isLaid.stop_lt user
  simp only [Pool.pages, stop] at top
  simp only [pageFromPool, Bool.and_eq_true, decide_eq_true_eq, BitVec.le_def, BitVec.lt_def,
    BitVec.toNat_add, BitVec.toNat_ofNat, pgNo_toNat, Contains, Pool.pages, stop]
  omega

end Pages

end Pintos.Palloc
