import Pintos.Filesys.Directory

/-!
# The file system module

`filesys_init` and the functions it runs: those of `filesys/free-map.c` that
create, open and close the free map file, and the formatting of
`filesys/filesys.c`.
-/

namespace Pintos

open Pintos.Computation

/-- `free_map_init`, on freshly allocated memory holding `memory`. -/
def freeMapInit (memory : ℕ → Word) : Kernel Unit := do
  let bitmap ← malloc
  let bits ← malloc
  if bitmap ∧ bits then
    updates fun fs =>
      { fs with
        freeMap := bitmapMark (bitmapMark (bitmapCreate memory fs.device.size)
          freeMapSector.toNat) rootDirSector.toNat }
  else
    stop .panic

def freeMapCreate (fuel : ℕ) : Kernel Unit := do
  let freeMap ← reads Fs.freeMap
  let created ← inodeCreate fuel freeMapSector (bitmapFileSize freeMap : ℕ)
  if created then do
    let opened ← inodeOpen freeMapSector
    let freeMapFile ← fileOpen fuel opened
    updates fun fs => { fs with freeMapFile := freeMapFile }
    match freeMapFile with
    | none => stop .panic
    | some file => do
      let freeMap ← reads Fs.freeMap
      let written ← bitmapWrite (inodeWriteAt fuel) freeMap file
      if written then pure () else stop .panic
  else
    stop .panic

/-- `free_map_close`. The pointer to the closed file is kept. -/
def freeMapClose (fuel : ℕ) : Kernel Unit := do
  let freeMapFile ← reads Fs.freeMapFile
  fileClose fuel freeMapFile

/-- `bitmap_read`: the bitmap after the elements have been read from the file and the unused bits
of the last one cleared, and whether all of them could be read. -/
def bitmapRead (bitmap : Bitmap) (file : File) : Kernel (Bool × Bitmap) :=
  if bitmap.bitCnt > 0 then do
    let size : ℤ := byteCnt bitmap.bitCnt
    let (bytesRead, bytes) ← inodeReadAt file.inode (bytesOfWords bitmap.bits) size 0
    let bits := wordsOfBytes bytes
    let last := elemCnt bitmap.bitCnt - 1
    pure (bytesRead = size,
      { bitmap with bits := Function.update bits last (bits last &&& lastMask bitmap) })
  else
    pure (true, bitmap)

def freeMapOpen (fuel : ℕ) : Kernel Unit := do
  let opened ← inodeOpen freeMapSector
  let freeMapFile ← fileOpen fuel opened
  updates fun fs => { fs with freeMapFile := freeMapFile }
  match freeMapFile with
  | none => stop .panic
  | some file => do
    let freeMap ← reads Fs.freeMap
    let (success, freeMap) ← bitmapRead freeMap file
    updates fun fs => { fs with freeMap := freeMap }
    if success then pure () else stop .panic

def doFormat (fuel : ℕ) : Kernel Unit := do
  freeMapCreate fuel
  let created ← dirCreate fuel rootDirSector 16
  if created then freeMapClose fuel else stop .panic

def inodeInit : Kernel Unit :=
  updates fun fs => { fs with openInodes := [] }

/-- `filesys_init`, on memory that holds `memory` where the free map is allocated. -/
def filesysInit (fuel : ℕ) (memory : ℕ → Word) (format : Bool) : Kernel Unit := do
  inodeInit
  freeMapInit memory
  if format then doFormat fuel else pure ()
  freeMapOpen fuel
  updates fun fs => { fs with i := 0 }

end Pintos
