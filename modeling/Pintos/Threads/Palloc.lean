import Pintos.Kernel.Bitmap
import Pintos.Kernel.Stop
import Pintos.Library.Calls
import Pintos.Library.Extents

/-!
# The page allocator

`threads/palloc.c`. Memory from 1 MB on is divided into two pools, and each keeps a
bitmap of its pages in its first pages. The functions compute in 32 bits, as the
source does. The bitmaps are values with the place they are stored at; a store that
would hit such a place, or memory that is not mapped, is a fault.
-/

namespace Pintos.Palloc

def physBase : Word := 0xc0000000

def pgSize : Word := 4096

def divRoundUp (value step : Word) : Word := (value + step - 1) / step

def ptov (paddr : Word) : Except Stop Word :=
  if paddr < physBase then .ok (paddr + physBase) else .error .panic

def pgNo (address : Word) : Word := address >>> 12

lemma pgNo_toNat (addr : Word) : (pgNo addr).toNat = addr.toNat / 4096 := by
  rw [pgNo, BitVec.toNat_ushiftRight, Nat.shiftRight_eq_div_pow]

def pgOfs (address : Word) : Word := address &&& 0xfff

def bitmapBufSize (bitCnt : Word) : Word := 8 + 4 * divRoundUp bitCnt 32

def bitmapBytes (bitCnt : ℕ) : ℕ := 8 + byteCnt bitCnt

def Mapped (bytes : Extent) : Prop :=
  (⟨physBase.toNat, 64 * 1024 * 1024⟩ : Extent).Contains bytes
deriving Decidable

def bitmapCreateInBuf (memory : Word → Word) (bitCnt block blockSize : Word) :
    Except Stop Bitmap :=
  if blockSize < bitmapBufSize bitCnt then .error .panic
  else if Mapped ⟨block.toNat, bitmapBytes bitCnt.toNat⟩ then
    .ok (bitmapSetAll
      { bitCnt := bitCnt.toNat
        bits := fun index => memory (block + 8 + 4 * BitVec.ofNat 32 index) } false)
  else .error .fault

structure Pool where
  usedMap : Bitmap
  mapAt : Word
  base : Word

def initPool (memory : Word → Word) (base pageCnt : Word) : Except Stop Pool := do
  let bmPages := divRoundUp (bitmapBufSize pageCnt) pgSize
  if pageCnt < bmPages then .error .panic
  else
    let usedMap ← bitmapCreateInBuf memory (pageCnt - bmPages) base (bmPages * pgSize)
    pure { usedMap := usedMap, mapAt := base, base := base + bmPages * pgSize }

structure Pools where
  kernelPool : Pool
  userPool : Pool

def pallocInit (memory : Word → Word) (initRamPages userPageLimit : Word) :
    Except Stop Pools := do
  let freeStart ← ptov (1024 * 1024)
  let freeEnd ← ptov (initRamPages * pgSize)
  let freePages := (freeEnd - freeStart).sdiv pgSize
  let userPages := if userPageLimit < freePages / 2 then userPageLimit else freePages / 2
  let kernelPages := freePages - userPages
  let kernelPool ← initPool memory freeStart kernelPages
  let userPool ← initPool memory (freeStart + kernelPages * pgSize) userPages
  pure { kernelPool := kernelPool, userPool := userPool }

namespace Pools

def pool (pools : Pools) (user : Bool) : Pool :=
  if user then pools.userPool else pools.kernelPool

def mark (pools : Pools) (user : Bool) (usedMap : Bitmap) : Pools :=
  if user then { pools with userPool := { pools.userPool with usedMap := usedMap } }
  else { pools with kernelPool := { pools.kernelPool with usedMap := usedMap } }

end Pools

def Pool.storage (pool : Pool) : Extent := ⟨pool.mapAt.toNat, bitmapBytes pool.usedMap.bitCnt⟩

def Pool.pages (pool : Pool) : Extent := ⟨pool.base.toNat, 4096 * pool.usedMap.bitCnt⟩

def memset (pools : Pools) (start size : Word) : Except Stop Unit :=
  let bytes : Extent := ⟨start.toNat, size.toNat⟩
  if bytes.stop ≤ 2 ^ 32 ∧ bytes.Apart pools.kernelPool.storage ∧
      bytes.Apart pools.userPool.storage then .ok ()
  else .error .fault

structure PallocFlags where
  assert : Bool
  zero : Bool
  user : Bool
deriving DecidableEq

def pallocGetMultiple (flags : PallocFlags) (pageCnt : Word) (pools : Pools) :
    Except Stop (Word × Pools) := do
  if pageCnt = 0 then pure (0, pools)
  else
    let pool := pools.pool flags.user
    let (pageIdx, usedMap) := bitmapScanAndFlip pool.usedMap 0 pageCnt.toNat false
    let pools := pools.mark flags.user usedMap
    let pages := match pageIdx with
      | some pageIdx => pool.base + pgSize * BitVec.ofNat 32 pageIdx
      | none => 0
    if pages ≠ 0 then
      if flags.zero then
        memset pools pages (pgSize * pageCnt)
      pure (pages, pools)
    else if flags.assert then .error .panic
    else pure (pages, pools)

def pageFromPool (pool : Pool) (page : Word) : Bool :=
  let startPage := pgNo pool.base
  let endPage := startPage + BitVec.ofNat 32 pool.usedMap.bitCnt
  startPage ≤ pgNo page && pgNo page < endPage

/-- `palloc_free_multiple` once the pool is known. A range that does not fit in the bitmap fails an
assertion of `bitmap_all`. -/
def freeInPool (pools : Pools) (user : Bool) (pages pageCnt : Word) : Except Stop Pools := do
  let pool := pools.pool user
  let pageIdx := pgNo pages - pgNo pool.base
  memset pools pages (pgSize * pageCnt)
  if pageIdx.toNat + pageCnt.toNat ≤ pool.usedMap.bitCnt ∧
      bitmapAll pool.usedMap pageIdx.toNat pageCnt.toNat = true then
    pure (pools.mark user
      (bitmapSetMultiple pool.usedMap pageIdx.toNat pageCnt.toNat false))
  else .error .panic

def pallocFreeMultiple (pages pageCnt : Word) (pools : Pools) : Except Stop Pools :=
  if pgOfs pages ≠ 0 then .error .panic
  else if pages = 0 ∨ pageCnt = 0 then .ok pools
  else if pageFromPool pools.kernelPool pages then freeInPool pools false pages pageCnt
  else if pageFromPool pools.userPool pages then freeInPool pools true pages pageCnt
  else .error .panic

structure PageRun where
  user : Bool
  bytes : Extent
deriving DecidableEq

structure PageAllocator where
  pools : Pools
  runs : List PageRun

inductive Call
  | get (flags : PallocFlags) (pageCnt : Word)
  | free (pages pageCnt : Word)
deriving DecidableEq

def pageBytes (pages pageCnt : Word) : Extent := ⟨pages.toNat, 4096 * pageCnt.toNat⟩

def PageRun.without (freed : Extent) (run : PageRun) : List PageRun :=
  (Extent.cut freed run.bytes).map fun bytes => { run with bytes := bytes }

namespace PageAllocator

def perform (state : PageAllocator) : Call → Except Stop PageAllocator
  | .get flags pageCnt => do
    let (pages, pools) ← pallocGetMultiple flags pageCnt state.pools
    pure
      { pools := pools
        runs :=
          if pages = 0 then state.runs
          else { user := flags.user, bytes := pageBytes pages pageCnt } :: state.runs }
  | .free pages pageCnt => do
    let pools ← pallocFreeMultiple pages pageCnt state.pools
    pure
      { pools := pools
        runs :=
          if pages = 0 ∨ pageCnt = 0 then state.runs
          else state.runs.flatMap (PageRun.without (pageBytes pages pageCnt)) }

def HandedOut (state : PageAllocator) (address : ℕ) : Prop :=
  ∃ run ∈ state.runs, run.bytes.Contains ⟨address, 4096⟩

instance (state : PageAllocator) : DecidablePred state.HandedOut :=
  fun _ => inferInstanceAs (Decidable (∃ _ ∈ state.runs, _))

def Permits (state : PageAllocator) : Call → Prop
  | .get _ _ => True
  | .free pages pageCnt => pages = 0 ∨ pages.toNat % 4096 = 0 ∧
      ∀ index < pageCnt.toNat, state.HandedOut (pages.toNat + 4096 * index)

def Starts (state : PageAllocator) : Prop :=
  state.runs = [] ∧ ∃ memory initRamPages userPageLimit,
    pallocInit memory initRamPages userPageLimit = .ok state.pools

def Reached : PageAllocator → Prop := Reachable Starts (Calls.Step perform Permits)

/-- The pools do not overlap, and every page that is handed out is in the right pool and marked
there. -/
structure Partitioned (state : PageAllocator) : Prop where
  pools : state.pools.kernelPool.pages.Apart state.pools.userPool.pages
  disjoint : state.runs.Pairwise fun one two => one.bytes.Apart two.bytes
  aligned : ∀ run ∈ state.runs, run.bytes.start % 4096 = 0 ∧ run.bytes.count % 4096 = 0
  inside : ∀ run ∈ state.runs, (state.pools.pool run.user).pages.Contains run.bytes
  outside : ∀ run ∈ state.runs, ∀ user, run.bytes.Apart (state.pools.pool user).storage
  marked : ∀ user, ∀ index < (state.pools.pool user).usedMap.bitCnt,
    bitmapTest (state.pools.pool user).usedMap index = true ↔
      state.HandedOut ((state.pools.pool user).base.toNat + 4096 * index)

def FreeRun (state : PageAllocator) (user : Bool) (pageCnt : ℕ) : Prop :=
  0 < pageCnt ∧ ∃ start, start + pageCnt ≤ (state.pools.pool user).usedMap.bitCnt ∧
    ∀ index < pageCnt,
      ¬ state.HandedOut ((state.pools.pool user).base.toNat + 4096 * (start + index))

/-- `palloc_get_multiple` fails exactly when there is no run of so many free pages: it returns a
null pointer and changes nothing, or panics if it was told to. -/
def GetsRight (state : PageAllocator) (flags : PallocFlags) (pageCnt : Word) : Prop :=
  (state.FreeRun flags.user pageCnt.toNat → ∃ pages pools,
    pallocGetMultiple flags pageCnt state.pools = .ok (pages, pools) ∧ pages ≠ 0) ∧
  (¬ state.FreeRun flags.user pageCnt.toNat →
    pallocGetMultiple flags pageCnt state.pools =
      if pageCnt ≠ 0 ∧ flags.assert then .error .panic else .ok (0, state.pools))

/-- The bits of these pages are cleared, and no others. -/
def FreesRight (state : PageAllocator) (pages pageCnt : Word) : Prop :=
  ∃ pools, pallocFreeMultiple pages pageCnt state.pools = .ok pools ∧
    ∀ user, (pools.pool user).usedMap.bitCnt = (state.pools.pool user).usedMap.bitCnt ∧
      ∀ index < (state.pools.pool user).usedMap.bitCnt,
        bitmapTest (pools.pool user).usedMap index = true ↔
          bitmapTest (state.pools.pool user).usedMap index = true ∧
            (pages = 0 ∨ (⟨(state.pools.pool user).base.toNat + 4096 * index, 4096⟩ :
              Extent).Apart (pageBytes pages pageCnt))

end PageAllocator

end Pintos.Palloc
