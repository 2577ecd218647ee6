import Pintos.Library.Traced
import Pintos.Library.Words

/-!
# The system call handler

`syscall_handler` of `userprog/syscall.c` reads the number of the system call and
its arguments from the user stack. The model records every word it dereferences
and every pointer that `bad_pointer` lets pass, in the order of the source.

`bad_pointer` looks up the page of its argument, and `PHYS_BASE` is the start of a
page. A byte has therefore been found to be user memory once a pointer to its page
has been checked.
-/

namespace Pintos

def physBase : ℕ := 0xc0000000

def pageNo (address : Word) : ℕ := address.toNat / 4096

structure UserMemory where
  mapped : ℕ → Bool
  bytes : Word → Byte

namespace UserMemory

def word (memory : UserMemory) (address : Word) : Word :=
  wordOfBytes fun index => memory.bytes (address + BitVec.ofNat 32 index)

def Valid (memory : UserMemory) (pointer : Word) : Prop :=
  pointer ≠ 0 ∧ pointer.toNat < physBase ∧ memory.mapped (pageNo pointer) = true
deriving Decidable

def Readable (memory : UserMemory) (address : Word) : Prop :=
  ∀ index : Fin 4, memory.mapped (pageNo (address + BitVec.ofNat 32 index)) = true
deriving Decidable

end UserMemory

inductive SysNo
  | halt | exit | exec | wait | create | remove | opens | filesize | read | write | seek | tell
  | close | mmap | munmap | chdir | mkdir | readdir | isdir | inumber
deriving DecidableEq

def SysNo.ofWord (number : Word) : Option SysNo :=
  [halt, exit, exec, wait, create, remove, opens, filesize, read, write, seek, tell, close, mmap,
    munmap, chdir, mkdir, readdir, isdir, inumber][number.toNat]?

inductive Syscall
  | halt
  | exit (status : Word)
  | exec (cmdLine : Word)
  | wait (pid : Word)
  | create (file initialSize : Word)
  | remove (file : Word)
  | opens (file : Word)
  | filesize (fd : Word)
  | read (fd buffer size : Word)
  | write (fd buffer size : Word)
  | seek (fd position : Word)
  | tell (fd : Word)
  | close (fd : Word)
  | chdir (dir : Word)
  | mkdir (dir : Word)
  | readdir (fd name : Word)
  | isdir (fd : Word)
  | inumber (fd : Word)
  | threadExit
deriving DecidableEq

/-- The user pointers handed to `chdir`, `mkdir`, `readdir`, `create`, `open`, `remove`, `exec`,
`read` and `write`. For `readdir` the source also passes the address of the descriptor's word. -/
def Syscall.pointers : Syscall → List Word
  | .exec pointer | .create pointer _ | .remove pointer | .opens pointer | .read _ pointer _
  | .write _ pointer _ | .chdir pointer | .mkdir pointer => [pointer]
  | .readdir fd name => [fd, name]
  | _ => []

inductive Access
  /-- `bad_pointer` has let the pointer pass. -/
  | checked (pointer : Word)
  /-- The word at the address is dereferenced. -/
  | loaded (address : Word)
deriving DecidableEq

inductive HandlerStop
  /-- `bad_pointer` ends the process. -/
  | threadExit
  /-- The processor finds an address unmapped. -/
  | pageFault
deriving DecidableEq

abbrev Handler (Value : Type) := Traced Access HandlerStop Value

open Traced

section Handler

variable (memory : UserMemory)

def badPointer (pointer : Word) : Handler Unit :=
  if memory.Valid pointer then emit (.checked pointer) else stop .threadExit

def deref (address : Word) : Handler Word := do
  emit (.loaded address)
  if memory.Readable address then pure (memory.word address) else stop .pageFault

def oneValue (call : Word → Syscall) (esp : Word) : Handler Syscall := do
  badPointer memory (esp + 4#32)
  let value ← deref memory (esp + 4#32)
  pure (call value)

def onePointer (call : Word → Syscall) (esp : Word) : Handler Syscall := do
  badPointer memory (← deref memory (esp + 4#32))
  let pointer ← deref memory (esp + 4#32)
  pure (call pointer)

def bufferCall (call : Word → Word → Word → Syscall) (esp : Word) : Handler Syscall := do
  badPointer memory (esp + 4#32)
  badPointer memory (← deref memory (esp + 8#32))
  badPointer memory (esp + 12#32)
  let fd ← deref memory (esp + 4#32)
  let buffer ← deref memory (esp + 8#32)
  let size ← deref memory (esp + 12#32)
  pure (call fd buffer size)

def uncheckedPointer (call : Word → Syscall) (esp : Word) : Handler Syscall := do
  let pointer ← deref memory (esp + 4#32)
  pure (call pointer)

def createCase (esp : Word) : Handler Syscall := do
  badPointer memory (← deref memory (esp + 4#32))
  badPointer memory (esp + 8#32)
  let file ← deref memory (esp + 4#32)
  let initialSize ← deref memory (esp + 8#32)
  pure (.create file initialSize)

def seekCase (esp : Word) : Handler Syscall := do
  badPointer memory (esp + 4#32)
  badPointer memory (esp + 8#32)
  let fd ← deref memory (esp + 4#32)
  let position ← deref memory (esp + 8#32)
  pure (.seek fd position)

def readdirCase (esp : Word) : Handler Syscall := do
  let name ← deref memory (esp + 8#32)
  pure (.readdir (esp + 4#32) name)

def syscallHandler (esp : Word) : Handler Syscall := do
  badPointer memory esp
  let number ← deref memory esp
  match SysNo.ofWord number with
  | some .halt => pure .halt
  | some .exit => oneValue memory .exit esp
  | some .exec => onePointer memory .exec esp
  | some .wait => oneValue memory .wait esp
  | some .create => createCase memory esp
  | some .remove => onePointer memory .remove esp
  | some .opens => onePointer memory .opens esp
  | some .filesize => oneValue memory .filesize esp
  | some .read => bufferCall memory .read esp
  | some .write => bufferCall memory .write esp
  | some .seek => seekCase memory esp
  | some .tell => oneValue memory .tell esp
  | some .close => oneValue memory .close esp
  | some .chdir => uncheckedPointer memory .chdir esp
  | some .mkdir => uncheckedPointer memory .mkdir esp
  | some .readdir => readdirCase memory esp
  | some .isdir => pure (.isdir (esp + 4#32))
  | some .inumber => pure (.inumber (esp + 4#32))
  | some .mmap | some .munmap | none => pure .threadExit

end Handler

end Pintos
