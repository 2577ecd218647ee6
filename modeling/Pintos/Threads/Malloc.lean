import Pintos.Kernel.Stop
import Pintos.Library.Overlay
import Pintos.Library.Words

/-!
# The block allocator

`threads/malloc.c`, with the byte contents of the pages it manages. The header
of an arena, `struct arena`, is the first twelve bytes of its first page; a
pointer to `descs[d]` is stored there as the word `d + 1`. A free list is the
list of the addresses of its blocks. Its links lie in the first eight bytes of
each free block, and a store into them is a fault. Pointers are numbers, and 0
is the null pointer.

The page allocator is asked at most once in a call. What it proposes is a
parameter; it hands the proposed pages out if none of them is in use, and a null
pointer otherwise. The locks of the descriptors are left out, since the calls
follow one another.
-/

namespace Pintos.Malloc

abbrev pgSize : ℕ := 4096

abbrev arenaSize : ℕ := 12

abbrev elemSize : ℕ := 8

def arenaMagic : Word := 0x9a548eed

def pgOfs (address : ℕ) : ℕ := address % pgSize

def pgRoundDown (address : ℕ) : ℕ := address / pgSize * pgSize

/-- `struct desc`. -/
structure Desc where
  blockSize : ℕ
  blocksPerArena : ℕ
  freeList : List ℕ
deriving DecidableEq

/-- `struct arena`, with the number of the owning descriptor. -/
structure Arena where
  magic : Word
  desc : Option ℕ
  freeCnt : Word
deriving DecidableEq

/-- Pages that were handed out together. -/
structure Run where
  page : ℕ
  count : ℕ
deriving DecidableEq

def Run.base (run : Run) : ℕ := run.page * pgSize

def Run.stop (run : Run) : ℕ := (run.page + run.count) * pgSize

/-- The two have no page in common. -/
def Run.Apart (one two : Run) : Prop :=
  one.page + one.count ≤ two.page ∨ two.page + two.count ≤ one.page
deriving Decidable

/-- `descs` and `desc_cnt`, the bytes of memory, and the pages in use. -/
structure Heap where
  descs : ℕ → Desc
  descCnt : ℕ
  memory : ℕ → Byte
  runs : List Run

abbrev Allocates := Computation Stop Heap

open Pintos.Computation

/-- `ASSERT`. -/
def ensure (condition : Prop) [Decidable condition] : Allocates Unit :=
  if condition then pure () else stop .panic

section Memory

def wordAt (memory : ℕ → Byte) (address : ℕ) : Word :=
  wordOfBytes fun index => memory (address + index)

/-- The pointer to a descriptor that a word of an arena stands for. -/
def descOfWord (word : Word) : Option ℕ :=
  if word = 0 then none else some (word.toNat - 1)

def wordOfDesc : Option ℕ → Word
  | none => 0
  | some desc => BitVec.ofNat 32 (desc + 1)

/-- The header in the first bytes of a page. -/
def Heap.arena (heap : Heap) (address : ℕ) : Arena where
  magic := wordAt heap.memory address
  desc := descOfWord (wordAt heap.memory (address + 4))
  freeCnt := wordAt heap.memory (address + 8)

def Heap.write (heap : Heap) (start count : ℕ) (source : ℕ → Byte) : Heap :=
  { heap with memory := overlay heap.memory start count source }

def Arena.words (arena : Arena) : ℕ → Word
  | 0 => arena.magic
  | 1 => wordOfDesc arena.desc
  | _ => arena.freeCnt

def Heap.putArena (heap : Heap) (address : ℕ) (arena : Arena) : Heap :=
  heap.write address arenaSize (bytesOfWords arena.words)

def Heap.putFreeList (heap : Heap) (desc : ℕ) (freeList : List ℕ) : Heap :=
  { heap with
    descs := Function.update heap.descs desc { heap.descs desc with freeList := freeList } }

/-- A store there leaves the links of the free lists alone. -/
def Heap.Intact (heap : Heap) (start count : ℕ) : Prop :=
  ∀ desc < heap.descCnt, ∀ block ∈ (heap.descs desc).freeList,
    block + elemSize ≤ start ∨ start + count ≤ block

instance (heap : Heap) (start count : ℕ) : Decidable (heap.Intact start count) :=
  inferInstanceAs (Decidable (∀ desc < heap.descCnt, ∀ _ ∈ _, _))

/-- A store into memory; one into the links of a free block is a fault. -/
def store (start count : ℕ) (source : ℕ → Byte) : Allocates Unit := fun heap =>
  if start + count ≤ 2 ^ 32 ∧ heap.Intact start count then
    .ok ((), heap.write start count source)
  else .error .fault

def memset (start : ℕ) (value : Byte) (count : ℕ) : Allocates Unit :=
  store start count fun _ => value

def memcpy (target source count : ℕ) : Allocates Unit := fun heap =>
  store target count (fun index => heap.memory (source + index)) heap

end Memory

section Pages

/-- Pages that exist and that are not in use. -/
def Heap.Fresh (heap : Heap) (run : Run) : Prop :=
  0 < run.page ∧ run.page + run.count ≤ 2 ^ 20 ∧ ∀ other ∈ heap.runs, run.Apart other
deriving Decidable

/-- `palloc_get_multiple (0, page_cnt)`, where the page allocator proposes pages. -/
def pallocGetMultiple (proposal : Option ℕ) (pageCnt : Word) : Allocates ℕ := fun heap =>
  if pageCnt = 0 then .ok (0, heap)
  else
    match proposal with
    | none => .ok (0, heap)
    | some page =>
      if heap.Fresh ⟨page, pageCnt.toNat⟩ then
        .ok (page * pgSize, { heap with runs := ⟨page, pageCnt.toNat⟩ :: heap.runs })
      else .ok (0, heap)

def pallocGetPage (proposal : Option ℕ) : Allocates ℕ := pallocGetMultiple proposal 1

/-- `palloc_free_multiple`. The last assertion is that the pages are in use. -/
def pallocFreeMultiple (pages : ℕ) (pageCnt : Word) : Allocates Unit := do
  ensure (pgOfs pages = 0)
  if pages = 0 ∨ pageCnt = 0 then pure ()
  else
    memset pages 0xcc (4096 * pageCnt).toNat
    let runs ← reads (·.runs)
    ensure (⟨pages / pgSize, pageCnt.toNat⟩ ∈ runs)
    updates fun heap => { heap with runs := heap.runs.erase ⟨pages / pgSize, pageCnt.toNat⟩ }

def pallocFreePage (page : ℕ) : Allocates Unit := pallocFreeMultiple page 1

end Pages

section Blocks

def listPushBack (desc block : ℕ) : Allocates Unit :=
  updates fun heap => heap.putFreeList desc ((heap.descs desc).freeList ++ [block])

def listPushFront (desc block : ℕ) : Allocates Unit :=
  updates fun heap => heap.putFreeList desc (block :: (heap.descs desc).freeList)

def listPopFront (desc : ℕ) : Allocates ℕ := fun heap =>
  match (heap.descs desc).freeList with
  | [] => .error .panic
  | block :: rest => .ok (block, heap.putFreeList desc rest)

/-- `list_remove`, of a block that should be on the given free list. -/
def listRemove (desc block : ℕ) : Allocates Unit := fun heap =>
  if block ∈ (heap.descs desc).freeList then
    .ok ((), heap.putFreeList desc ((heap.descs desc).freeList.erase block))
  else .error .fault

/-- `pg_ofs (b) - sizeof *a`, in unsigned arithmetic. -/
def blockOfs (block : ℕ) : ℕ := (pgOfs block + (2 ^ 32 - arenaSize)) % 2 ^ 32

/-- The assertions of `block_to_arena` on where the block lies. -/
def checkAligned (block : ℕ) : Option ℕ → Allocates Unit
  | none => ensure (pgOfs block = arenaSize)
  | some desc => fun heap => ensure (blockOfs block % (heap.descs desc).blockSize = 0) heap

def blockToArena (block : ℕ) : Allocates ℕ := do
  let address := pgRoundDown block
  ensure (address ≠ 0)
  let arena ← reads (·.arena address)
  ensure (arena.magic = arenaMagic)
  checkAligned block arena.desc
  pure address

def arenaToBlock (address index : ℕ) : Allocates ℕ := do
  ensure (address ≠ 0)
  let arena ← reads (·.arena address)
  ensure (arena.magic = arenaMagic)
  match arena.desc with
  | none => stop .fault
  | some desc => do
    let owner ← reads fun heap => heap.descs desc
    ensure (index < owner.blocksPerArena)
    pure (address + arenaSize + index * owner.blockSize)

end Blocks

/-- The loop of `malloc_init` over the block sizes. -/
def mallocInitLoop : ℕ → ℕ → Allocates Unit
  | 0, _ => stop .running
  | fuel + 1, blockSize =>
    if blockSize < pgSize / 2 then do
      let desc ← reads (·.descCnt)
      updates fun heap => { heap with descCnt := heap.descCnt + 1 }
      ensure (desc + 1 ≤ 10)
      updates fun heap =>
        { heap with
          descs := Function.update heap.descs desc
            { blockSize := blockSize
              blocksPerArena := (pgSize - arenaSize) / blockSize
              freeList := [] } }
      mallocInitLoop fuel (blockSize * 2)
    else pure ()

def mallocInit : Allocates Unit := mallocInitLoop 8 16

/-- `DIV_ROUND_UP (size + sizeof *a, PGSIZE)`. -/
def pageCnt (size : Word) : Word := (size + 12 + 4096 - 1) / 4096

/-- The branch of `malloc` for blocks too big for any descriptor. -/
def mallocBig (proposal : Option ℕ) (size : Word) : Allocates ℕ := do
  let address ← pallocGetMultiple proposal (pageCnt size)
  if address = 0 then pure 0
  else
    updates (·.putArena address { magic := arenaMagic, desc := none, freeCnt := pageCnt size })
    pure (address + arenaSize)

/-- The loop of `malloc` that puts the blocks of a new arena on the free list. -/
def fillLoop (desc address : ℕ) : List ℕ → Allocates Unit
  | [] => pure ()
  | index :: rest => do
    let block ← arenaToBlock address index
    listPushBack desc block
    fillLoop desc address rest

/-- The branch of `malloc` for an empty free list. -/
def newArena (proposal : Option ℕ) (desc : ℕ) : Allocates Bool := do
  let address ← pallocGetPage proposal
  if address = 0 then pure false
  else
    let owner ← reads fun heap => heap.descs desc
    updates (·.putArena address
      { magic := arenaMagic
        desc := some desc
        freeCnt := BitVec.ofNat 32 owner.blocksPerArena })
    fillLoop desc address (List.range owner.blocksPerArena)
    pure true

/-- The end of `malloc`: a block comes off the free list. -/
def takeBlock (desc : ℕ) : Allocates ℕ := do
  let block ← listPopFront desc
  let address ← blockToArena block
  updates fun heap => heap.putArena address
    { heap.arena address with freeCnt := (heap.arena address).freeCnt - 1 }
  pure block

def malloc (proposal : Option ℕ) (size : Word) : Allocates ℕ := do
  if size = 0 then pure 0
  else
    let found ← reads fun heap =>
      (List.range heap.descCnt).find? fun desc => decide (size.toNat ≤ (heap.descs desc).blockSize)
    match found with
    | none => mallocBig proposal size
    | some desc => do
      let owner ← reads fun heap => heap.descs desc
      if owner.freeList = [] then
        let created ← newArena proposal desc
        if created then takeBlock desc else pure 0
      else takeBlock desc

def calloc (proposal : Option ℕ) (a b : Word) : Allocates ℕ := do
  let size := a * b
  if size < a ∨ size < b then pure 0
  else
    let block ← malloc proposal size
    if block ≠ 0 then
      memset block 0 size.toNat
      pure block
    else pure block

/-- The result of `block_size`. -/
def Heap.usable (heap : Heap) (block : ℕ) : ℕ :=
  let arena := heap.arena (pgRoundDown block)
  match arena.desc with
  | some desc => (heap.descs desc).blockSize
  | none => (4096 * arena.freeCnt - BitVec.ofNat 32 (pgOfs block)).toNat

def blockSize (block : ℕ) : Allocates ℕ := do
  let _ ← blockToArena block
  reads (·.usable block)

/-- The loop of `free` that takes the blocks of an unused arena off the free list. -/
def unlinkLoop (desc address : ℕ) : List ℕ → Allocates Unit
  | [] => pure ()
  | index :: rest => do
    let block ← arenaToBlock address index
    listRemove desc block
    unlinkLoop desc address rest

/-- The end of `free`: an arena without a block in use is given back. -/
def dropUnused (address desc : ℕ) : Allocates Unit := do
  let owner ← reads fun heap => heap.descs desc
  let arena ← reads (·.arena address)
  if owner.blocksPerArena ≤ arena.freeCnt.toNat then
    ensure (arena.freeCnt.toNat = owner.blocksPerArena)
    unlinkLoop desc address (List.range owner.blocksPerArena)
    pallocFreePage address
  else pure ()

/-- The branch of `free` for a block of a descriptor. -/
def freeNormal (block address desc : ℕ) : Allocates Unit := do
  let owner ← reads fun heap => heap.descs desc
  memset block 0xcc owner.blockSize
  listPushFront desc block
  updates fun heap => heap.putArena address
    { heap.arena address with freeCnt := (heap.arena address).freeCnt + 1 }
  dropUnused address desc

def free (block : ℕ) : Allocates Unit := do
  if block ≠ 0 then
    let address ← blockToArena block
    let arena ← reads (·.arena address)
    match arena.desc with
    | some desc => freeNormal block address desc
    | none => pallocFreeMultiple address arena.freeCnt
  else pure ()

def realloc (proposal : Option ℕ) (oldBlock : ℕ) (newSize : Word) : Allocates ℕ := do
  if newSize = 0 then
    free oldBlock
    pure 0
  else
    let newBlock ← malloc proposal newSize
    if oldBlock ≠ 0 ∧ newBlock ≠ 0 then
      let oldSize ← blockSize oldBlock
      memcpy newBlock oldBlock (if newSize.toNat < oldSize then newSize.toNat else oldSize)
      free oldBlock
      pure newBlock
    else pure newBlock

end Pintos.Malloc
