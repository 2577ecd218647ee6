import Pintos.Filesys.FreeMap

/-!
# Open files

The functions of `filesys/file.c`. A `struct file` has one owner, so it is
passed and returned by value; a null pointer is `none`.
-/

namespace Pintos

open Pintos.Computation

def fileOpen (fuel : ℕ) : Option ℕ → Kernel (Option File)
  | some address => do
    let allocated ← malloc
    if allocated then
      pure (some { inode := address, pos := 0, denyWrite := false })
    else do
      inodeClose fuel address
      pure none
  | none => do
    let _allocated ← malloc
    pure none

def fileDenyWrite (file : File) : Kernel File :=
  if file.denyWrite then pure file
  else do
    inodeDenyWrite file.inode
    pure { file with denyWrite := true }

def fileAllowWrite (file : File) : Kernel File :=
  if file.denyWrite then do
    inodeAllowWrite file.inode
    pure { file with denyWrite := false }
  else pure file

def fileClose (fuel : ℕ) : Option File → Kernel Unit
  | some file => do
    let file ← fileAllowWrite file
    inodeClose fuel file.inode
  | none => pure ()

/-- `file_read`: the new file, the number of bytes read and the buffer. -/
def fileRead (file : File) (buffer : ℕ → Byte) (size : ℤ) : Kernel (File × ℤ × (ℕ → Byte)) := do
  let (bytesRead, filled) ← inodeReadAt file.inode buffer size file.pos
  pure ({ file with pos := file.pos + bytesRead }, bytesRead, filled)

def fileWrite (fuel : ℕ) (file : File) (buffer : ℕ → Byte) (size : ℤ) : Kernel (File × ℤ) := do
  let bytesWritten ← inodeWriteAt fuel file.inode buffer size file.pos
  pure ({ file with pos := file.pos + bytesWritten }, bytesWritten)

def fileLength : Option File → Kernel ℤ
  | some file => do
    let inode ← derefInode file.inode
    pure (inodeLength inode)
  | none => stop .panic

def fileSeek : Option File → ℤ → Kernel File
  | some file, newPos =>
    if newPos ≥ 0 then pure { file with pos := newPos } else stop .panic
  | none, _ => stop .panic

def fileTell : Option File → Kernel ℤ
  | some file => pure file.pos
  | none => stop .panic

end Pintos
