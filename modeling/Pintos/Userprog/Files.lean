import Pintos.Filesys.Names

/-!
# The files of a process

The file system calls of `userprog/syscall.c`, the opening of the executable in
`load` of `userprog/process.c`, and `exit`. They work on the file system and on
the fields of `struct thread` that refer to files.

User memory is left out: the text of a name and the bytes to write are arguments
of a call, and the bytes read are dropped. `inode_open` does not initialize the
field `is_dir`, so what `write` and `isdir` find there is an argument too.

Three ways to bring the kernel down are told apart from those of the file system
itself: a use of an element outside `file_pointers` (the element behind its end
is the field `fd_index`), a null pointer where a file is expected, and a failed
assertion of the functions on open files.
-/

namespace Pintos.Files

open Pintos.Computation

structure ThreadFiles where
  filePointers : Fin 130 → Option File
  fdIndex : ℕ
  save : Option File
  currentDir : Option Dir

def newThread : ThreadFiles where
  filePointers _ := none
  fdIndex := 2
  save := none
  currentDir := none

structure Machine where
  fs : Fs
  thread : ThreadFiles

inductive Halt
  /-- An element outside `file_pointers` is used. -/
  | badIndex
  /-- A null pointer is used as a file. -/
  | nullFile
  /-- An assertion about an open file fails. -/
  | assertion
  /-- The file system stops. -/
  | kernel (reason : Stop)
deriving DecidableEq

abbrev System (Value : Type) := Computation Halt Machine Value

def onFs {Value : Type} (action : Kernel Value) : System Value := fun machine =>
  match action machine.fs with
  | .ok (value, fs) => .ok (value, { machine with fs := fs })
  | .error reason => .error (.kernel reason)

def asserting {Value : Type} (action : Kernel Value) : System Value := fun machine =>
  match action machine.fs with
  | .ok (value, fs) => .ok (value, { machine with fs := fs })
  | .error .panic => .error .assertion
  | .error reason => .error (.kernel reason)

def setThread (change : ThreadFiles → ThreadFiles) : System Unit :=
  updates fun machine => { machine with thread := change machine.thread }

def slotOf (fd : ℤ) : System (Fin 130) :=
  if inside : 0 ≤ fd ∧ fd < 130 then pure ⟨fd.toNat, by omega⟩ else stop .badIndex

def getFile (fd : ℤ) : System (Option File) := do
  let slot ← slotOf fd
  reads fun machine => machine.thread.filePointers slot

def setFile (fd : ℤ) (file : Option File) : System Unit := do
  let slot ← slotOf fd
  setThread fun thread =>
    { thread with filePointers := Function.update thread.filePointers slot file }

def derefFile (fd : ℤ) : System File := do
  let file ← getFile fd
  match file with
  | none => stop .nullFile
  | some file => pure file

def closeFile (fuel : ℕ) (file : File) : System Unit := do
  let file ← asserting (fileAllowWrite file)
  onFs (inodeClose fuel file.inode)

def ThreadFiles.Checked (thread : ThreadFiles) (fd : ℤ) : Prop := 2 ≤ fd ∧ fd ≤ thread.fdIndex
deriving Decidable

def create (fuel : ℕ) (file : List Byte) (initialSize : ℤ) : System Bool := do
  let currentDir ← reads fun machine => machine.thread.currentDir
  onFs (filesysCreate fuel currentDir file initialSize)

def remove (fuel : ℕ) (file : List Byte) : System Bool := do
  let currentDir ← reads fun machine => machine.thread.currentDir
  onFs (filesysRemove fuel currentDir file)

def openFile (fuel : ℕ) (name : List Byte) : System ℤ := do
  let file ← onFs (filesysOpen fuel name)
  let fdIndex ← reads fun machine => (machine.thread.fdIndex : ℤ)
  setFile fdIndex file
  match file with
  | none => pure (-1)
  | some _ => do
    setThread fun thread => { thread with fdIndex := thread.fdIndex + 1 }
    pure fdIndex

def filesize (fd : ℤ) : System ℤ := do
  let thread ← reads Machine.thread
  if thread.Checked fd then do
    let file ← derefFile fd
    asserting (fileLength (some file))
  else
    pure 0

/-- `read`; `buffer` says whether the buffer is not a null pointer. Descriptor 0 is the keyboard. -/
def read (fd : ℤ) (buffer : Bool) (size : ℤ) : System ℤ := do
  let thread ← reads Machine.thread
  if fd = 0 then pure size
  else if fd > 1 ∧ fd ≤ thread.fdIndex ∧ buffer then do
    let file ← derefFile fd
    let (file, bytesRead, _) ← onFs (fileRead file (fun _ => 0) size)
    setFile fd (some file)
    pure bytesRead
  else
    pure (-1)

/-- `write`; a null buffer is `none`. Descriptor 1 is the console. -/
def write (fuel : ℕ) (fd : ℤ) (buffer : Option (ℕ → Byte)) (size : ℤ) (isDir : Bool) :
    System ℤ := do
  let thread ← reads Machine.thread
  match buffer with
  | none => pure 0
  | some bytes =>
    if fd > 0 ∧ fd ≤ thread.fdIndex then
      if fd = 1 then pure size
      else do
        let tempFile ← derefFile fd
        let _inode ← onFs (derefInode tempFile.inode)
        if isDir then pure (-1)
        else do
          let (file, bytesWritten) ← onFs (fileWrite fuel tempFile bytes size)
          setFile fd (some file)
          pure bytesWritten
    else
      pure 0

def seek (fd position : ℤ) : System (Option Unit) := do
  let thread ← reads Machine.thread
  if thread.Checked fd then do
    let file ← derefFile fd
    let file ← asserting (fileSeek (some file) position)
    setFile fd (some file)
    pure (some ())
  else
    pure none

def tell (fd : ℤ) : System (Option ℤ) := do
  let thread ← reads Machine.thread
  if thread.Checked fd then do
    let file ← derefFile fd
    let pos ← asserting (fileTell (some file))
    pure (some pos)
  else
    pure none

def close (fuel : ℕ) (fd : ℤ) : System Unit := do
  let thread ← reads Machine.thread
  if thread.Checked fd then do
    let file ← getFile fd
    match file with
    | none => pure ()
    | some file => do
      closeFile fuel file
      setFile fd none
  else
    pure ()

/-- `chdir`. It copies the directory it found into the current one. -/
def chdir (fuel : ℕ) (dir : List Byte) : System Bool := do
  let _curInode ← onFs malloc
  let currentDir ← reads fun machine => machine.thread.currentDir
  let currDir ← onFs (getDir fuel currentDir dir)
  match currDir with
  | .bad => pure false
  | .found none => stop (.kernel .fault)
  | .found (some currDir) =>
    if currDir.pos = -1 then pure false
    else
      match currentDir with
      | none => stop (.kernel .fault)
      | some _ => do
        setThread fun thread => { thread with currentDir := some currDir }
        pure true

/-- The loop of `mkdir`. The pointer `stop` is never set; `last` is the text it points to, if any.
The directory below the first component is opened through a pointer that is never set either. -/
def mkdirLoop (fuel : ℕ) (last : Option (List Byte)) : List (List Byte) → Option Dir → Kernel Bool
  | [], _ => pure false
  | _ :: _, none => stop .panic
  | token :: _, some currDir =>
    match last with
    | none => stop .fault
    | some text =>
      if token = text then do
        let found ← dirLookup fuel currDir token
        match found with
        | some _ => pure false
        | none => do
          let sector ← freeMapAllocate fuel 1
          let _created ← dirCreate fuel (sector.getD 0) 128
          let _added ← dirAdd fuel currDir text (sector.getD 0)
          pure true
      else do
        let found ← dirLookup fuel currDir token
        match found with
        | none => pure false
        | some _ => stop .fault

def mkdir (fuel : ℕ) (dir : List Byte) (last : Option (List Byte)) : System Bool :=
  if dir = [] then pure false
  else do
    let currDir ← onFs (dirOpenRoot fuel)
    if pathTokens dir = [] then stop (.kernel .fault)
    else onFs (mkdirLoop fuel last (pathTokens dir) currDir)

/-- What `readdir` stores in the caller's buffer, if anything. It does not move the position of the
open file. -/
def readdirName (fuel : ℕ) (fd : ℤ) : System (Option (List Byte)) := do
  let file ← getFile fd
  let newDir ← onFs malloc
  match file with
  | none => stop .nullFile
  | some file =>
    if newDir then do
      let (entry, _) ← onFs
        (dirReaddir fuel { inode := file.inode, empty := false, pos := file.pos })
      pure (entry.map DirEntry.storedName)
    else
      stop (.kernel .fault)

/-- `readdir`, without the buffer. -/
def readdir (fuel : ℕ) (fd : ℤ) : System Bool := do
  let name ← readdirName fuel fd
  pure name.isSome

def isdir (fd : ℤ) (isDir : Bool) : System Bool := do
  let file ← derefFile fd
  let _inode ← onFs (derefInode file.inode)
  pure isDir

/-- `inumber`. It takes the position of the file for the address of an inode; `word` is what lies
there, if anything. -/
def inumber (fd : ℤ) (word : Option ℤ) : System ℤ := do
  let _file ← derefFile fd
  match word with
  | none => stop (.kernel .fault)
  | some number => pure number

inductive Call
  | create (file : List Byte) (initialSize : ℤ)
  | remove (file : List Byte)
  | openFile (name : List Byte)
  | filesize (fd : ℤ)
  | read (fd : ℤ) (buffer : Bool) (size : ℤ)
  | write (fd : ℤ) (buffer : Option (ℕ → Byte)) (size : ℤ) (isDir : Bool)
  | seek (fd position : ℤ)
  | tell (fd : ℤ)
  | close (fd : ℤ)
  | chdir (dir : List Byte)
  | mkdir (dir : List Byte) (last : Option (List Byte))
  | readdir (fd : ℤ)
  | isdir (fd : ℤ) (isDir : Bool)
  | inumber (fd : ℤ) (word : Option ℤ)

def ofBool (value : Bool) : ℤ := if value then 1 else 0

def returning {Value : Type} (register : Value → ℤ) (call : System Value) : System (Option ℤ) := do
  let value ← call
  pure (some (register value))

def Call.perform (fuel : ℕ) : Call → System (Option ℤ)
  | .create file initialSize => returning ofBool (Files.create fuel file initialSize)
  | .remove file => returning ofBool (Files.remove fuel file)
  | .openFile name => returning id (Files.openFile fuel name)
  | .filesize fd => returning id (Files.filesize fd)
  | .read fd buffer size => returning id (Files.read fd buffer size)
  | .write fd buffer size isDir => returning id (Files.write fuel fd buffer size isDir)
  | .seek fd position => do
    let returned ← Files.seek fd position
    pure (returned.map fun _ => 0)
  | .tell fd => Files.tell fd
  | .close fd => returning (fun _ => 0) (Files.close fuel fd)
  | .chdir dir => returning ofBool (Files.chdir fuel dir)
  | .mkdir dir last => returning ofBool (Files.mkdir fuel dir last)
  | .readdir fd => returning ofBool (Files.readdir fuel fd)
  | .isdir fd isDir => returning ofBool (Files.isdir fd isDir)
  | .inumber fd word => returning id (Files.inumber fd word)

def closeFiles (fuel : ℕ) : System Unit :=
  (List.range' 2 128).forM fun counter => close fuel counter

def exit (fuel : ℕ) : System Unit := do
  let save ← reads fun machine => machine.thread.save
  match save with
  | none => pure ()
  | some file => closeFile fuel file
  closeFiles fuel

def ehdrSize : ℕ := 52

def halfwordAt (header : ℕ → Byte) (offset : ℕ) : ℕ :=
  (header offset).toNat + 256 * (header (offset + 1)).toNat

def validEhdr (header : ℕ → Byte) : Bool :=
  (List.range 7).map header = [127, 69, 76, 70, 1, 1, 1] ∧
    halfwordAt header 16 = 2 ∧
    halfwordAt header 18 = 3 ∧
    wordOfBytes (fun index => header (20 + index)) = 1 ∧
    halfwordAt header 42 = 32 ∧
    halfwordAt header 44 ≤ 1024

/-- `load`. `pagedir` says whether a page directory could be allocated. `segments` stands for all
that follows the header, the segments and the stack: the position the file is left at, or `none`
on failure. -/
def load (fuel : ℕ) (pagedir : Bool) (name : List Byte) (segments : Option ℤ) : System Bool :=
  if pagedir then do
    let file ← onFs (filesysOpen fuel name)
    setThread fun thread => { thread with save := file }
    match file with
    | none => pure false
    | some file => do
      let file ← onFs (fileDenyWrite file)
      let (file, bytesRead, ehdr) ← onFs (fileRead file (fun _ => 0) ehdrSize)
      setThread fun thread => { thread with save := some file }
      if bytesRead = ehdrSize ∧ validEhdr ehdr then
        match segments with
        | none => pure false
        | some pos => do
          setThread fun thread => { thread with save := some { file with pos := pos } }
          pure true
      else
        pure false
  else
    pure false

/-- The assignment of the current directory in `process_execute`, which runs in the creator with
the current directory `creatorDir`. -/
def assignCurrentDir (fuel : ℕ) (creatorDir : Option Dir) : System Unit := do
  let dir ← match creatorDir with
    | none => onFs (dirOpenRoot fuel)
    | some dir => pure (some dir)
  setThread fun thread => { thread with currentDir := dir }

end Pintos.Files
