import Pintos.Lib.Ustar

/-!
# Moving files in and out

`fsutil_extract` and `fsutil_append` of `filesys/fsutil.c` copy files between the file
system and an archive on the scratch device. Both keep the sector they have come to in
a static variable of their own. That variable is a number here: no function goes past
the end of the device, whose size is a `block_sector_t`.

The buffers come from `malloc`, and so their first contents are arbitrary.
-/

namespace Pintos.Fsutil

open Pintos.Computation Ustar

structure Machine where
  fs : Fs
  scratch : Option Block
  /-- `sector` of `fsutil_extract`. -/
  extractSector : ℕ
  /-- `sector` of `fsutil_append`. -/
  appendSector : ℕ

abbrev Tool (Value : Type) := Computation Stop Machine Value

def onFs {Value : Type} (action : Kernel Value) : Tool Value := fun machine =>
  match action machine.fs with
  | .ok (value, fs) => .ok (value, { machine with fs := fs })
  | .error reason => .error reason

def getScratch : Tool Block := fun machine =>
  match machine.scratch with
  | some device => .ok (device, machine)
  | none => .error .panic

def scratchRead (sector : ℕ) : Tool Sector := do
  let device ← getScratch
  if sector < device.size then pure (device.sectors sector) else stop .panic

def scratchWrite (sector : ℕ) (data : Sector) : Tool Unit := do
  let device ← getScratch
  if sector < device.size then
    updates fun machine => { machine with scratch := some (device.write sector data) }
  else stop .panic

def readNext : Tool Sector := do
  let sector ← reads Machine.extractSector
  let data ← scratchRead sector
  updates fun machine => { machine with extractSector := machine.extractSector + 1 }
  pure data

def writeNext (data : Sector) : Tool Unit := do
  let sector ← reads Machine.appendSector
  scratchWrite sector data
  updates fun machine => { machine with appendSector := machine.appendSector + 1 }

def pieceSize (size : ℤ) : ℤ := if size > blockSectorSize then blockSectorSize else size

/-- The loop of `fsutil_extract` that copies a file, with the bytes that are left. Every round
copies at least one. -/
def extractFile (fuel : ℕ) : ℕ → ℤ → File → Tool File
  | 0, size, dst => if size > 0 then stop .running else pure dst
  | rounds + 1, size, dst =>
    if size > 0 then do
      let data ← readNext
      let (dst, written) ← onFs (fileWrite fuel dst data.bytes (pieceSize size))
      if written = pieceSize size then extractFile fuel rounds (size - pieceSize size) dst
      else stop .panic
    else pure dst

/-- What `fsutil_extract` does with an entry of the archive, given what its header is parsed as, and
with the rest of the archive; the end of the archive ends the loop. -/
def extractEntry (fuel : ℕ) (currentDir : Option Dir) (rest : Tool Unit) :
    Except String Entry → Tool Unit
  | .error _ => stop .panic
  | .ok ⟨_, .eof, _⟩ => pure ()
  | .ok ⟨_, .directory, _⟩ => rest
  | .ok ⟨none, .regular, _⟩ => stop .fault
  | .ok ⟨some fileName, .regular, size⟩ => do
    let created ← onFs (filesysCreate fuel currentDir fileName size)
    if created then do
      let opened ← onFs (filesysOpen fuel fileName)
      match opened with
      | none => stop .panic
      | some dst => do
        let dst ← extractFile fuel size.toNat size dst
        onFs (fileClose fuel (some dst))
        rest
    else stop .panic

/-- The loop of `fsutil_extract` over the entries of the archive. Every round reads a sector
further on, so that there are no more rounds than sectors. -/
def extractEntries (fuel : ℕ) (currentDir : Option Dir) : ℕ → Tool Unit
  | 0 => stop .running
  | rounds + 1 => do
    let header ← readNext
    extractEntry fuel currentDir (extractEntries fuel currentDir rounds)
      (ustarParseHeader header.bytes)

def fsutilExtract (fuel : ℕ) (currentDir : Option Dir) : Tool Unit := do
  let header ← onFs malloc
  let data ← onFs malloc
  if header ∧ data then do
    let device ← getScratch
    extractEntries fuel currentDir (device.size + 1)
    scratchWrite 0 .zeros
    scratchWrite 1 .zeros
  else stop .panic

def appendFile : ℕ → ℤ → File → (ℕ → Byte) → Tool File
  | 0, size, src, _ => if size > 0 then stop .running else pure src
  | rounds + 1, size, src, buffer =>
    if size > 0 then do
      let device ← getScratch
      let sector ← reads Machine.appendSector
      if sector ≥ device.size then stop .panic
      else do
        let (src, bytesRead, buffer) ← onFs (fileRead src buffer (pieceSize size))
        if bytesRead = pieceSize size then do
          let buffer := overlay buffer (pieceSize size).toNat
            (blockSectorSize - (pieceSize size).toNat) fun _ => 0
          writeNext (.ofBytes buffer)
          appendFile rounds (size - pieceSize size) src buffer
        else stop .panic
    else pure src

/-- The sector that `fsutil_append` writes last: from the second byte of a buffer of zeros on, and
so with the byte that stands behind the buffer at its end. -/
def lastSector (behind : Byte) : Sector := fun index => if index.val = 511 then behind else 0

def fsutilAppend (fuel : ℕ) (fileName : List Byte) (buffer : ℕ → Byte) (behind : Byte) :
    Tool Unit := do
  let allocated ← onFs malloc
  if allocated then do
    let opened ← onFs (filesysOpen fuel fileName)
    match opened with
    | none => stop .panic
    | some src => do
      let size ← onFs (fileLength (some src))
      let _dst ← getScratch
      match ustarMakeHeader fileName .regular size buffer with
      | .error reason => stop reason
      | .ok (false, _) => stop .panic
      | .ok (true, buffer) => do
        writeNext (.ofBytes buffer)
        let src ← appendFile size.toNat size src buffer
        let sector ← reads Machine.appendSector
        scratchWrite sector .zeros
        scratchWrite sector (lastSector behind)
        onFs (fileClose fuel (some src))
  else stop .panic

end Pintos.Fsutil
