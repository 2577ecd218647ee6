import Pintos.Library.Masks
import Pintos.Library.TwoLevel
import Pintos.Threads.Palloc

/-!
# Page directories

`userprog/pagedir.c` with `threads/pte.h`. Page directories and page tables are pages of
1024 words each, found by their kernel addresses.

`palloc_get_page` hands out pages that are not in use, and which one it hands out is given
from outside: an answer that is not a free page of the machine stands for a null pointer.
`palloc_free_page` panics for a page that is not in use, and overwrites the page.
Reloading the processor's directory register in `invalidate_pagedir` changes no memory
and is left out.
-/

namespace Pintos.Paging

open Pintos.Computation Palloc Function

def pteAddr : Word := 0xfffff000

def pteP : Word := 0x1

def pteW : Word := 0x2

def pteU : Word := 0x4

def pteA : Word := 0x20

def pteD : Word := 0x40

def ptNo (va : Word) : ℕ := ((va &&& 0x3ff000) >>> 12).toNat

def pdNo (va : Word) : ℕ := (va >>> 22).toNat

/-- The physical memory of the machine: the words of the pages that hold tables, the bytes of the
pages that hold data, the pages in use, the pages freed so far, and the answers of the page
allocator to come. -/
structure Memory where
  tables : Word → ℕ → Word
  bytes : Word → ℕ → Byte
  inUse : Word → Bool
  freed : List Word
  answers : ℕ → Option Word
  initRamPages : ℕ
  initPageDir : Word

/-- The kernel address of a page of physical memory. -/
def Memory.IsPage (memory : Memory) (page : Word) : Prop :=
  pgOfs page = 0 ∧ physBase ≤ page ∧ ((page - physBase) >>> 12).toNat < memory.initRamPages
deriving Decidable

abbrev Pager (Value : Type) := Computation Stop Memory Value

/-- `ASSERT`. -/
def assert (condition : Prop) [Decidable condition] : Pager Unit :=
  if condition then pure () else stop .panic

/-- The word of a table at an index. -/
def load (page : Word) (index : ℕ) : Pager Word := reads fun memory => memory.tables page index

def store (page : Word) (index : ℕ) (word : Word) : Pager Unit :=
  updates fun memory => { memory with tables := TwoLevel.store memory.tables page index word }

/-- `palloc_get_page`, with the next answer of the page allocator if that page is free. -/
def pallocGetPage (zero : Bool) : Pager (Option Word) := fun memory =>
  let later := { memory with answers := fun request => memory.answers (request + 1) }
  match memory.answers 0 with
  | none => .ok (none, later)
  | some page =>
    if memory.IsPage page ∧ memory.inUse page = false then
      .ok (some page,
        { later with
          inUse := update memory.inUse page true
          tables := if zero then update memory.tables page fun _ => 0
            else memory.tables
          bytes := if zero then update memory.bytes page fun _ => 0
            else memory.bytes })
    else .ok (none, later)

/-- `palloc_free_page`, which fills the page with `0xcc`. -/
def pallocFreePage (page : Word) : Pager Unit := fun memory =>
  if pgOfs page ≠ 0 then .error .panic
  else if page = 0 then .ok ((), memory)
  else if memory.IsPage page ∧ memory.inUse page = true then
    .ok ((),
      { memory with
        inUse := update memory.inUse page false
        tables := update memory.tables page fun _ => 0xcccccccc
        bytes := update memory.bytes page fun _ => 0xcc
        freed := memory.freed ++ [page] })
  else .error .panic

def vtop (vaddr : Word) : Pager Word := do
  assert (physBase ≤ vaddr)
  pure (vaddr - physBase)

def ptov (paddr : Word) : Pager Word := do
  assert (paddr < physBase)
  pure (paddr + physBase)

def pdeCreate (pt : Word) : Pager Word := do
  assert (pgOfs pt = 0)
  let paddr ← vtop pt
  pure (paddr ||| pteU ||| pteP ||| pteW)

def pdeGetPt (pde : Word) : Pager Word := do
  assert (pde &&& pteP ≠ 0)
  ptov (pde &&& pteAddr)

def pteCreateKernel (page : Word) (writable : Bool) : Pager Word := do
  assert (pgOfs page = 0)
  let paddr ← vtop page
  pure (paddr ||| pteP ||| if writable then pteW else 0)

def pteCreateUser (page : Word) (writable : Bool) : Pager Word := do
  let pte ← pteCreateKernel page writable
  pure (pte ||| pteU)

def pteGetPage (pte : Word) : Pager Word := ptov (pte &&& pteAddr)

/-- `pagedir_create`: the new directory maps the kernel. -/
def pagedirCreate : Pager (Option Word) := do
  let pd ← pallocGetPage false
  match pd with
  | none => pure none
  | some pd => do
    updates fun memory =>
      { memory with
        tables := update memory.tables pd (memory.tables memory.initPageDir) }
    pure (some pd)

/-- The end of `lookup_page`: the entry in the table that the directory leads to. -/
def entryOf (pd vaddr : Word) : Pager (Option (Word × ℕ)) := do
  let pde ← load pd (pdNo vaddr)
  let pt ← pdeGetPt pde
  pure (some (pt, ptNo vaddr))

/-- `lookup_page`. A pointer to an entry is the table and the index. -/
def lookupPage (pd vaddr : Word) (create : Bool) : Pager (Option (Word × ℕ)) := do
  assert (pd ≠ 0)
  assert (create = false ∨ vaddr < physBase)
  let pde ← load pd (pdNo vaddr)
  if pde = 0 then
    if create then do
      let pt ← pallocGetPage true
      match pt with
      | none => pure none
      | some pt => do
        let entry ← pdeCreate pt
        store pd (pdNo vaddr) entry
        entryOf pd vaddr
    else pure none
  else entryOf pd vaddr

/-- `pagedir_set_page`; it fails if there is no page for a table. -/
def pagedirSetPage (pd upage kpage : Word) (writable : Bool) : Pager Bool := do
  assert (pgOfs upage = 0)
  assert (pgOfs kpage = 0)
  assert (upage < physBase)
  let paddr ← vtop kpage
  let memory ← reads id
  assert ((paddr >>> 12).toNat < memory.initRamPages)
  assert (pd ≠ memory.initPageDir)
  let pte ← lookupPage pd upage true
  match pte with
  | none => pure false
  | some (pt, index) => do
    let old ← load pt index
    assert (old &&& pteP = 0)
    let entry ← pteCreateUser kpage writable
    store pt index entry
    pure true

def pagedirGetPage (pd uaddr : Word) : Pager (Option Word) := do
  assert (uaddr < physBase)
  let pte ← lookupPage pd uaddr false
  match pte with
  | none => pure none
  | some (pt, index) => do
    let entry ← load pt index
    if entry &&& pteP ≠ 0 then do
      let page ← pteGetPage entry
      pure (some (page + pgOfs uaddr))
    else pure none

def pagedirClearPage (pd upage : Word) : Pager Unit := do
  assert (pgOfs upage = 0)
  assert (upage < physBase)
  let pte ← lookupPage pd upage false
  match pte with
  | none => pure ()
  | some (pt, index) => do
    let entry ← load pt index
    if entry &&& pteP ≠ 0 then store pt index (entry &&& ~~~pteP) else pure ()

/-- Set or clear a flag of the entry for a page, as `pagedir_set_dirty` and
`pagedir_set_accessed` do. -/
def pagedirSetFlag (flag pd vpage : Word) (value : Bool) : Pager Unit := do
  let pte ← lookupPage pd vpage false
  match pte with
  | none => pure ()
  | some (pt, index) => do
    let entry ← load pt index
    store pt index (if value then entry ||| flag else entry &&& ~~~flag)

def pagedirSetDirty (pd vpage : Word) (dirty : Bool) : Pager Unit :=
  pagedirSetFlag pteD pd vpage dirty

def pagedirSetAccessed (pd vpage : Word) (accessed : Bool) : Pager Unit :=
  pagedirSetFlag pteA pd vpage accessed

def freeEntry (pt : Word) (index : ℕ) : Pager Unit := do
  let pte ← load pt index
  if pte &&& pteP ≠ 0 then do
    let page ← pteGetPage pte
    pallocFreePage page
  else pure ()

def freeTable (pd : Word) (index : ℕ) : Pager Unit := do
  let pde ← load pd index
  if pde &&& pteP ≠ 0 then do
    let pt ← pdeGetPt pde
    (List.range 1024).forM (freeEntry pt)
    pallocFreePage pt
  else pure ()

def pagedirDestroy (pd : Option Word) : Pager Unit :=
  match pd with
  | none => pure ()
  | some pd => do
    let memory ← reads id
    assert (pd ≠ memory.initPageDir)
    (List.range (pdNo physBase)).forM (freeTable pd)
    pallocFreePage pd

end Pintos.Paging
