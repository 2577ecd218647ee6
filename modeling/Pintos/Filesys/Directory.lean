import Pintos.Filesys.File

/-!
# Directories

The functions of `filesys/directory.c`. A directory is a file of entries of
twenty bytes each. A `struct dir` is represented by the inode it holds; its
field `empty` is never set after `calloc` and so always false.

`dir_add` looks up the new entry once more and stores the inode it opens through
an uninitialized pointer. The model takes the store to hit memory outside the
file system's state and the pointer to be non-null; the inode stays open.
-/

namespace Pintos

open Pintos.Computation

def nameMax : ℕ := 14

def dirEntrySize : ℕ := 20

structure Dir where
  inode : ℕ
  empty : Bool
  pos : ℤ
deriving DecidableEq

/-- A `struct dir_entry` in memory: the sector in bytes 0 to 3, the name in bytes 4 to 18, and
the flag `in_use` in byte 19. -/
abbrev DirEntry := ℕ → Byte

namespace DirEntry

def inodeSector (entry : DirEntry) : Word := wordOfBytes entry

def inUse (entry : DirEntry) : Bool := entry 19 != 0

def hasName (entry : DirEntry) (name : List Byte) : Bool :=
  (name ++ [0]) = (List.range (name.length + 1)).map fun index => entry (4 + index)

def storedName (entry : DirEntry) : List Byte :=
  ((List.range nameMax).map fun index => entry (4 + index)).takeWhile fun byte => byte != 0

/-- The entry as `dir_add` fills it in: `strlcpy` leaves the bytes behind the name as they were. -/
def filled (entry : DirEntry) (name : List Byte) (sector : Word) : DirEntry :=
  fun index =>
    if index < 4 then wordByte sector index
    else if index = 19 then 1
    else if index < 4 + min name.length nameMax then name.getD (index - 4) 0
    else if index = 4 + min name.length nameMax then 0
    else entry index

end DirEntry

def dirOpen (fuel : ℕ) : Option ℕ → Kernel (Option Dir)
  | some address => do
    let allocated ← malloc
    if allocated then
      pure (some { inode := address, empty := false, pos := 0 })
    else do
      inodeClose fuel address
      pure none
  | none => do
    let _allocated ← malloc
    pure none

def dirOpenRoot (fuel : ℕ) : Kernel (Option Dir) := do
  let inode ← inodeOpen rootDirSector
  dirOpen fuel inode

def dirClose (fuel : ℕ) : Option Dir → Kernel Unit
  | some dir => inodeClose fuel dir.inode
  | none => pure ()

/-- The loop of `lookup`: the entry with the given name and its offset. -/
def lookupLoop (address : ℕ) (name : List Byte) : ℕ → ℤ → Kernel (Option (DirEntry × ℤ))
  | 0, _ => stop .running
  | fuel + 1, ofs => do
    let (bytesRead, entry) ← inodeReadAt address (fun _ => 0) dirEntrySize ofs
    if bytesRead = dirEntrySize then
      if DirEntry.inUse entry ∧ DirEntry.hasName entry name then pure (some (entry, ofs))
      else lookupLoop address name fuel (ofs + dirEntrySize)
    else
      pure none

def lookup (fuel : ℕ) (dir : Dir) (name : List Byte) : Kernel (Option (DirEntry × ℤ)) :=
  lookupLoop dir.inode name fuel 0

/-- `dir_lookup`: the inode for the name, opened for the caller. -/
def dirLookup (fuel : ℕ) (dir : Dir) (name : List Byte) : Kernel (Option ℕ) := do
  let found ← lookup fuel dir name
  match found with
  | some (entry, _) => inodeOpen (DirEntry.inodeSector entry)
  | none => pure none

/-- The loop of `dir_add` that looks for a slot not in use: its old contents and its offset. -/
def freeSlotLoop (address : ℕ) : ℕ → ℤ → Kernel (DirEntry × ℤ)
  | 0, _ => stop .running
  | fuel + 1, ofs => do
    let (bytesRead, entry) ← inodeReadAt address (fun _ => 0) dirEntrySize ofs
    if bytesRead = dirEntrySize ∧ DirEntry.inUse entry then
      freeSlotLoop address fuel (ofs + dirEntrySize)
    else
      pure (entry, ofs)

/-- `dir_add`. The inode that its last lookup opens is stored where the variable `in`, which has no
value, points to, and no object refers to it. What else that store hits is left open. -/
def dirAdd (fuel : ℕ) (dir : Dir) (name : List Byte) (inodeSector : Word) : Kernel Bool :=
  if name = [] ∨ name.length > nameMax then pure false
  else do
    let found ← lookup fuel dir name
    match found with
    | some _ => pure false
    | none => do
      let (entry, ofs) ← freeSlotLoop dir.inode fuel 0
      let written ← inodeWriteAt fuel dir.inode (DirEntry.filled entry name inodeSector)
        dirEntrySize ofs
      let _opened ← dirLookup fuel dir name
      let dirAdded ← malloc
      if dirAdded then pure (written = dirEntrySize) else stop .fault

def dirRemove (fuel : ℕ) (dir : Dir) (name : List Byte) : Kernel Bool := do
  let found ← lookup fuel dir name
  match found with
  | none => pure false
  | some (entry, ofs) => do
    let opened ← inodeOpen (DirEntry.inodeSector entry)
    match opened with
    | none => pure false
    | some address => do
      let written ← inodeWriteAt fuel dir.inode (Function.update entry 19 0) dirEntrySize ofs
      if written = dirEntrySize then do
        inodeRemove address
        inodeClose fuel address
        pure true
      else do
        inodeClose fuel address
        pure false

/-- The loop of `dir_readdir`: the next entry in use, and the position behind the last one read. -/
def dirReaddirLoop (address : ℕ) : ℕ → ℤ → Kernel (Option DirEntry × ℤ)
  | 0, _ => stop .running
  | fuel + 1, pos => do
    let (bytesRead, entry) ← inodeReadAt address (fun _ => 0) dirEntrySize pos
    if bytesRead = dirEntrySize then
      if DirEntry.inUse entry then pure (some entry, pos + dirEntrySize)
      else dirReaddirLoop address fuel (pos + dirEntrySize)
    else
      pure (none, pos)

/-- `dir_readdir`: the entry whose name is stored, and the directory afterwards. -/
def dirReaddir (fuel : ℕ) (dir : Dir) : Kernel (Option DirEntry × Dir) := do
  let (entry, pos) ← dirReaddirLoop dir.inode fuel dir.pos
  pure (entry, { dir with pos := pos })

def dotName : List Byte := [46]

def dotDotName : List Byte := [46, 46]

/-- The part of `dir_create` that makes the directory `first_dir`, which nobody closes. -/
def dirCreateFirst (fuel : ℕ) (sector : Word) (entryCnt : ℕ) : Kernel (Bool × Option Dir) := do
  let success ← inodeCreate fuel sector (entryCnt * dirEntrySize : ℕ)
  let inode ← inodeOpen sector
  let firstDir ← dirOpen fuel inode
  pure (success, firstDir)

def dirCreate (fuel : ℕ) (sector : Word) (entryCnt : ℕ) : Kernel Bool := do
  let (success, firstDir) ← dirCreateFirst fuel sector entryCnt
  match firstDir with
  | none => stop .fault
  | some firstDir => do
    let _added ← dirAdd fuel firstDir dotName sector
    let _added ← dirAdd fuel firstDir dotDotName sector
    pure success

end Pintos
