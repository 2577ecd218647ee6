import Pintos.Library.Observed
import Pintos.Userprog.Files
import Pintos.Userprog.PageTables

/-!
# Loading executables

`load` of `userprog/process.c` and what it calls: `validate_segment`, `load_segment`,
`install_page` and `setup_stack`. The calls and computations that have to be safe are
events of the computation. So is what `load_segment` has returned, with the state behind the
call.

The command line is copied twice, into an array of a hundred bytes in `load` and into one of
its own length in `setup_stack`, for which the stack of the thread must have room. A copy that
has no room ends the run. The messages that are printed and the semaphore of the parent are
left out.
-/

namespace Pintos.Loader

open Palloc Paging

/-- What a loading process works on: the file system, the memory, and the executable. -/
structure Loading where
  fs : Fs
  memory : Memory
  file : File

/-- What is observed of a run of `load`. -/
inductive Event
  /-- `file_seek (file, ofs)`. -/
  | seek (ofs : ℤ)
  /-- An addition of 32-bit words. -/
  | add (left right : Word)
  /-- A subtraction of 32-bit words. -/
  | sub (left right : Word)
  /-- `load_segment (file, ofs, upage, read_bytes, zero_bytes, writable)`. -/
  | segment (ofs : ℤ) (upage readBytes zeroBytes : Word)
  /-- This call of `load_segment` has returned, and left this state. -/
  | returned (success : Bool) (pd : Word) (state : Loading) (ofs : ℤ)
      (upage readBytes zeroBytes : Word)
  /-- `pagedir_set_page (pd, upage, kpage, writable)`. -/
  | setPage (upage kpage : Word)
  /-- The loop of `load_segment` goes on when all pages should be loaded. -/
  | endless
  /-- A use of `args` or `whereArgs`. -/
  | index (index : ℕ)
  /-- `strlcpy` of so many bytes and a terminator to an array with that much room. -/
  | copy (length room : ℕ)
  /-- A store through `myEsp`. -/
  | store (address : Word)

abbrev Load := Observed Event Stop Loading

open Observed

def onFs {Value : Type} (action : Kernel Value) : Load Value :=
  onPart Loading.fs (fun state fs => { state with fs := fs }) action

def onMemory {Value : Type} (action : Pager Value) : Load Value :=
  onPart Loading.memory (fun state memory => { state with memory := memory }) action

def assert (condition : Prop) [Decidable condition] : Load Unit :=
  if condition then pure () else stop .panic

def addWord (left right : Word) : Load Word := do
  emit (.add left right)
  pure (left + right)

def subWord (left right : Word) : Load Word := do
  emit (.sub left right)
  pure (left - right)

def roundUp (value : Word) : Load Word := do
  let above ← addWord value pgSize
  let last ← subWord above 1
  pure (last / pgSize * pgSize)

def seek (ofs : ℤ) : Load Unit := do
  emit (.seek ofs)
  let file ← reads Loading.file
  let file ← onFs (fileSeek (some file) ofs)
  updates fun state => { state with file := file }

def length : Load ℤ := do
  let file ← reads Loading.file
  onFs (fileLength (some file))

def read (buffer : ℕ → Byte) (size : ℤ) : Load (ℤ × (ℕ → Byte)) := do
  let file ← reads Loading.file
  let (file, bytesRead, filled) ← onFs (fileRead file buffer size)
  updates fun state => { state with file := file }
  pure (bytesRead, filled)

def installPage (pd upage kpage : Word) (writable : Bool) : Load Bool := do
  let present ← onMemory (pagedirGetPage pd upage)
  match present with
  | some _ => pure false
  | none => do
    emit (.setPage upage kpage)
    onMemory (pagedirSetPage pd upage kpage writable)

def setBytes (page : Word) (bytes : ℕ → Byte) : Load Unit :=
  updates fun state =>
    { state with
      memory := { state.memory with bytes := Function.update state.memory.bytes page bytes } }

def loadPage (pd upage pageReadBytes pageZeroBytes : Word) (writable : Bool) : Load Bool := do
  let kpage ← onMemory (pallocGetPage false)
  match kpage with
  | none => pure false
  | some kpage => do
    let memory ← reads Loading.memory
    let (bytesRead, filled) ← read (memory.bytes kpage) pageReadBytes.toInt
    setBytes kpage filled
    if bytesRead ≠ pageReadBytes.toInt then do
      onMemory (pallocFreePage kpage)
      pure false
    else do
      setBytes kpage (overlay filled pageReadBytes.toNat pageZeroBytes.toNat fun _ => 0)
      let installed ← installPage pd upage kpage writable
      if installed then pure true
      else do
        onMemory (pallocFreePage kpage)
        pure false

def pageRead (readBytes : Word) : Word := if readBytes < pgSize then readBytes else pgSize

def pageZero (readBytes : Word) : Word := pgSize - pageRead readBytes

def loadPages (pd : Word) : ℕ → Word → Word → Word → Bool → Load Bool
  | 0, _, readBytes, zeroBytes, _ =>
    if readBytes > 0 ∨ zeroBytes > 0 then do
      emit .endless
      stop .running
    else pure true
  | pages + 1, upage, readBytes, zeroBytes, writable =>
    if readBytes > 0 ∨ zeroBytes > 0 then do
      let loaded ← loadPage pd upage (pageRead readBytes) (pageZero readBytes) writable
      if loaded then do
        let restRead ← subWord readBytes (pageRead readBytes)
        let restZero ← subWord zeroBytes (pageZero readBytes)
        loadPages pd pages (upage + pgSize) restRead restZero writable
      else pure false
    else pure true

def loadSegment (pd : Word) (ofs : ℤ) (upage readBytes zeroBytes : Word) (writable : Bool) :
    Load Bool := do
  let total ← addWord readBytes zeroBytes
  assert (total % pgSize = 0)
  assert (pgOfs upage = 0)
  assert (ofs.tmod 4096 = 0)
  seek ofs
  loadPages pd (total.toNat / 4096) upage readBytes zeroBytes writable

/-- A call of `load_segment`, observed with its arguments and with what it returns. -/
def callLoadSegment (pd : Word) (ofs : ℤ) (upage readBytes zeroBytes : Word) (writable : Bool) :
    Load Bool := do
  emit (.segment ofs upage readBytes zeroBytes)
  let success ← loadSegment pd ofs upage readBytes zeroBytes writable
  let state ← reads id
  emit (.returned success pd state ofs upage readBytes zeroBytes)
  pure success

/-- `struct Elf32_Phdr`, without the fields that nothing reads. -/
structure Phdr where
  type : Word
  offset : Word
  vaddr : Word
  filesz : Word
  memsz : Word
  flags : Word

def Phdr.decode (buffer : ℕ → Byte) : Phdr where
  type := wordsOfBytes buffer 0
  offset := wordsOfBytes buffer 1
  vaddr := wordsOfBytes buffer 2
  filesz := wordsOfBytes buffer 4
  memsz := wordsOfBytes buffer 5
  flags := wordsOfBytes buffer 6

def phdrSize : ℕ := 32

def validSegment (phdr : Phdr) (length : ℤ) : Bool :=
  phdr.offset &&& 0xfff = phdr.vaddr &&& 0xfff ∧
    phdr.offset ≤ BitVec.ofInt 32 length ∧
    phdr.filesz ≤ phdr.memsz ∧
    phdr.memsz ≠ 0 ∧
    phdr.vaddr < physBase ∧
    phdr.vaddr + phdr.memsz < physBase ∧
    phdr.vaddr ≤ phdr.vaddr + phdr.memsz ∧
    pgSize ≤ phdr.vaddr

def validateSegment (phdr : Phdr) : Load Bool := do
  let length ← length
  pure (validSegment phdr length)

def loadHeader (pd : Word) (phdr : Phdr) : Load Bool := do
  let valid ← validateSegment phdr
  if valid then do
    let writable := phdr.flags &&& 2 != 0
    let filePage := phdr.offset &&& ~~~0xfff
    let memPage := phdr.vaddr &&& ~~~0xfff
    let pageOffset := phdr.vaddr &&& 0xfff
    if phdr.filesz > 0 then do
      let readBytes ← addWord pageOffset phdr.filesz
      let memBytes ← addWord pageOffset phdr.memsz
      let allBytes ← roundUp memBytes
      let zeroBytes ← subWord allBytes readBytes
      callLoadSegment pd filePage.toInt memPage readBytes zeroBytes writable
    else do
      let memBytes ← addWord pageOffset phdr.memsz
      let zeroBytes ← roundUp memBytes
      callLoadSegment pd filePage.toInt memPage 0 zeroBytes writable
  else pure false

def loadByType (pd : Word) (phdr : Phdr) : Load Bool :=
  if phdr.type = 2 ∨ phdr.type = 3 ∨ phdr.type = 5 then pure false
  else if phdr.type = 1 then loadHeader pd phdr
  else pure true

def loadHeaders (pd : Word) : ℕ → ℤ → Load Bool
  | 0, _ => pure true
  | headers + 1, fileOfs => do
    let length ← length
    if fileOfs < 0 ∨ fileOfs > length then pure false
    else do
      seek fileOfs
      let (bytesRead, phdr) ← read (fun _ => 0) phdrSize
      if bytesRead ≠ phdrSize then pure false
      else do
        let goesOn ← loadByType pd (Phdr.decode phdr)
        if goesOn then loadHeaders pd headers (fileOfs + phdrSize) else pure false

/-- `strlcpy` of the line to an array on the stack of the thread. -/
def copyLine (room : ℕ) (line : List Byte) : Load Unit := do
  emit (.copy line.length room)
  if line.length < room then pure () else stop .fault

/-- A store of one byte through `myEsp`, a page fault where the processor finds no writable page. -/
def storeByte (pd address : Word) (byte : Byte) : Load Unit := do
  emit (.store address)
  let memory ← reads Loading.memory
  match frameOf (memory.pte pd address) with
  | none => stop .fault
  | some page =>
    if memory.pte pd address &&& pteW = 0 then stop .fault
    else setBytes page (Function.update (memory.bytes page) (pgOfs address).toNat byte)

def pushBytes (pd : Word) : Word → List Byte → Load Word
  | myEsp, [] => pure myEsp
  | myEsp, byte :: rest => do
    storeByte pd (myEsp - 1) byte
    pushBytes pd (myEsp - 1) rest

def pushCharacter (pd myEsp : Word) (byte : Byte) : Load Word := do
  storeByte pd (myEsp - 4) byte
  pure (myEsp - 4)

def pushPointer (pd myEsp pointer : Word) : Load Word := do
  storeByte pd (myEsp - 4) (wordByte pointer 0)
  storeByte pd (myEsp - 4 + 1) (wordByte pointer 1)
  storeByte pd (myEsp - 4 + 2) (wordByte pointer 2)
  storeByte pd (myEsp - 4 + 3) (wordByte pointer 3)
  pure (myEsp - 4)

/-- A use of `args[count]` or `whereArgs[count]`, arrays of 130 pointers. -/
def useIndex (count : ℕ) : Load Unit := do
  emit (.index count)
  if count < 130 then pure () else stop .fault

def lineTokens (line : List Byte) : List (List Byte) := (line.splitOn 32).filter (· ≠ [])

def collectArgs : ℕ → List (List Byte) → Load Unit
  | _, [] => pure ()
  | count, _ :: rest => do
    useIndex count
    assert (count ≤ 130)
    collectArgs (count + 1) rest

def pushArgs (pd : Word) : Word → List (List Byte) → Load (Word × List Word)
  | myEsp, [] => pure (myEsp, [])
  | myEsp, token :: rest => do
    useIndex rest.length
    let myEsp ← pushBytes pd myEsp (0 :: token.reverse)
    useIndex rest.length
    let (last, addresses) ← pushArgs pd myEsp rest
    pure (last, myEsp :: addresses)

def pushPointers (pd : Word) : Word → List Word → Load Word
  | myEsp, [] => pure myEsp
  | myEsp, address :: rest => do
    useIndex rest.length
    let myEsp ← pushPointer pd myEsp address
    pushPointers pd myEsp rest

/-- What `setup_stack` pushes. `ret` is a variable that has no value yet. -/
def pushLine (pd : Word) (tokens : List (List Byte)) (ret myEsp : Word) : Load Word := do
  let (myEsp, whereArgs) ← pushArgs pd myEsp tokens.reverse
  let align := myEsp.toInt.tmod 4 + 4
  let myEsp ← pushBytes pd myEsp (List.replicate align.toNat 0)
  let myEsp ← pushCharacter pd myEsp 0
  let start ← pushPointers pd myEsp whereArgs
  let myEsp ← pushPointer pd start start
  let myEsp ← pushCharacter pd myEsp (BitVec.ofNat 8 tokens.length)
  pushCharacter pd myEsp (wordByte ret 0)

def stackPage (pd esp : Word) : Load (Bool × Word) := do
  let kpage ← onMemory (pallocGetPage true)
  match kpage with
  | none => pure (false, esp)
  | some kpage => do
    let success ← installPage pd (physBase - pgSize) kpage true
    if success then pure (true, physBase)
    else do
      onMemory (pallocFreePage kpage)
      pure (false, esp)

/-- `setup_stack`. `room` is the number of bytes that the page of the thread has between
`struct thread` and the frame of the function, where `char s[strlen (file_cpy)]` is. -/
def setupStack (room : ℕ) (pd esp : Word) (line : List Byte) (ret : Word) :
    Load (Bool × Word) := do
  let (success, myEsp) ← stackPage pd esp
  copyLine room line
  collectArgs 0 (lineTokens line)
  let myEsp ← pushLine pd (lineTokens line) ret myEsp
  pure (success, myEsp)

/-- The part of `load` behind the opening of the executable. -/
def loadFile (room : ℕ) (pd esp : Word) (line : List Byte) (ret : Word) : Load Bool := do
  let (bytesRead, ehdr) ← read (fun _ => 0) Files.ehdrSize
  if bytesRead ≠ Files.ehdrSize ∨ Files.validEhdr ehdr = false then pure false
  else do
    let phoff := wordOfBytes fun index => ehdr (28 + index)
    let loaded ← loadHeaders pd (Files.halfwordAt ehdr 44) phoff.toInt
    if loaded then do
      let (success, _) ← setupStack room pd esp line ret
      pure success
    else pure false

/-- `load`. A line without a word is a null pointer for `filesys_open`. -/
def load (room fuel : ℕ) (line : List Byte) (esp ret : Word) : Load Bool := do
  let pd ← onMemory pagedirCreate
  match pd with
  | none => pure false
  | some pd => do
    copyLine 100 line
    match lineTokens line with
    | [] => stop .panic
    | name :: _ => do
      let file ← onFs (filesysOpen fuel name)
      match file with
      | none => pure false
      | some file => do
        let file ← onFs (fileDenyWrite file)
        updates fun state => { state with file := file }
        loadFile room pd esp line ret

end Pintos.Loader
