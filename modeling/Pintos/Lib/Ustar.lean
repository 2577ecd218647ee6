import Pintos.Filesys.Names
import Pintos.Lib.Stdio

/-!
# Archive headers

`lib/ustar.c`: headers of archives in the ustar format are composed and parsed. A header
is the first 512 bytes of an array. Strings are lists of bytes without their null byte.
-/

namespace Pintos.Ustar

def ustarHeaderSize : ℕ := 512

def intMax : ℤ := 2147483647

def ulongMax : ℕ := 4294967295

inductive UstarType where
  | regular
  | directory
  | eof
deriving DecidableEq

def UstarType.flag : UstarType → Byte
  | .regular => byteOf '0'
  | .directory => byteOf '5'
  | .eof => 255

/-- A field of `struct ustar_header`: where it begins and how long it is. -/
structure Field where
  start : ℕ
  size : ℕ

namespace UstarHeader

def name : Field := ⟨0, 100⟩

def mode : Field := ⟨100, 8⟩

def uid : Field := ⟨108, 8⟩

def gid : Field := ⟨116, 8⟩

def size : Field := ⟨124, 12⟩

def mtime : Field := ⟨136, 12⟩

def chksum : Field := ⟨148, 8⟩

def typeflag : Field := ⟨156, 1⟩

def magic : Field := ⟨257, 6⟩

def version : Field := ⟨263, 2⟩

def uname : Field := ⟨265, 32⟩

def gname : Field := ⟨297, 32⟩

def namePrefix : Field := ⟨345, 155⟩

end UstarHeader

/-- `calculate_chksum`. The sum of 512 bytes does not overflow. -/
def calculateChksum (header : ℕ → Byte) : ℕ :=
  ((List.range ustarHeaderSize).map fun i =>
    if UstarHeader.chksum.start ≤ i ∧ i < UstarHeader.chksum.start + UstarHeader.chksum.size then 32
    else (header i).toNat).sum

def IsAntisocial (fileName : List Byte) : Prop :=
  [slash] <+: fileName ∨ dotName ++ [slash] <+: fileName ∨ dotDotName ++ [slash] <+: fileName
deriving Decidable

def afterSlash (fileName : List Byte) : List Byte :=
  (fileName.dropWhile (· ≠ slash)).tail

variable {fileName : List Byte}

lemma afterSlash_length (notNil : fileName ≠ []) :
  (afterSlash fileName).length < fileName.length := by
  have shorter := (List.dropWhile_sublist (l := fileName) (· ≠ slash)).length_le
  have pos := List.length_pos_iff.mpr notNil
  rw [afterSlash, List.length_tail]
  omega

lemma IsAntisocial.ne_nil (antisocial : IsAntisocial fileName) : fileName ≠ [] := by
  rintro rfl
  revert antisocial
  decide

def stripLoop (fileName : List Byte) : List Byte :=
  if _ : IsAntisocial fileName then stripLoop (afterSlash fileName) else fileName
termination_by fileName.length
decreasing_by exact afterSlash_length (IsAntisocial.ne_nil ‹_›)

def stripAntisocialPrefixes (fileName : List Byte) : List Byte :=
  let fileName := stripLoop fileName
  if fileName = [] ∨ fileName = dotDotName then dotName else fileName

def strlcpy (memory : ℕ → Byte) (dst : ℕ) (src : List Byte) (size : ℕ) : ℕ → Byte :=
  if 0 < size then storeAt memory dst (src.take (size - 1) ++ [0]) else memory

def ustarMakeHeader (fileName : List Byte) (type : UstarType) (size : ℤ) (header : ℕ → Byte) :
    Except Stop (Bool × (ℕ → Byte)) :=
  if type = .eof then .error .panic
  else
    let fileName := stripAntisocialPrefixes fileName
    if fileName.length > 99 then .ok (false, header)
    else do
      let h := overlay header 0 ustarHeaderSize fun _ => 0
      let h := strlcpy h UstarHeader.name.start fileName UstarHeader.name.size
      let h ← Stdio.snprintf h UstarHeader.mode.start UstarHeader.mode.size ['%', '0', '7', 'o']
        [.word (if type = .regular then 420 else 493)]
      let h := strlcpy h UstarHeader.uid.start (List.replicate 7 (byteOf '0')) UstarHeader.uid.size
      let h := strlcpy h UstarHeader.gid.start (List.replicate 7 (byteOf '0')) UstarHeader.gid.size
      let h ← Stdio.snprintf h UstarHeader.size.start UstarHeader.size.size
        ['%', '0', '1', '1', 'o'] [.word (BitVec.ofInt 32 size)]
      let h ← Stdio.snprintf h UstarHeader.mtime.start UstarHeader.size.size
        ['%', '0', '1', '1', 'o'] [.word 1136102400]
      let h := storeAt h UstarHeader.typeflag.start [type.flag]
      let h := strlcpy h UstarHeader.magic.start (['u', 's', 't', 'a', 'r'].map byteOf)
        UstarHeader.magic.size
      let h := storeAt h UstarHeader.version.start [byteOf '0', byteOf '0']
      let h := strlcpy h UstarHeader.gname.start (['r', 'o', 'o', 't'].map byteOf)
        UstarHeader.gname.size
      let h := strlcpy h UstarHeader.uname.start (['r', 'o', 'o', 't'].map byteOf)
        UstarHeader.uname.size
      let h ← Stdio.snprintf h UstarHeader.chksum.start UstarHeader.chksum.size
        ['%', '0', '7', 'o'] [.word (BitVec.ofNat 32 (calculateChksum h))]
      pure (true, h)

def parseOctalLoop : List Byte → ℕ → ℕ → Option ℕ
  | [], _, _ => none
  | c :: rest, ofs, value =>
    if 48 ≤ c.toNat ∧ c.toNat ≤ 55 then
      if value > ulongMax / 8 then none
      else parseOctalLoop rest (ofs + 1) (c.toNat - 48 + value * 8)
    else if c = byteOf ' ' ∨ c = 0 then
      if 0 < ofs then some value else none
    else none

def parseOctalField (header : ℕ → Byte) (field : Field) : Option ℕ :=
  parseOctalLoop (rangeOf header field.start field.size) 0 0

def isAllZeros (block : ℕ → Byte) (cnt : ℕ) : Bool :=
  (rangeOf block 0 cnt).all (· = 0)

def stringIn (header : ℕ → Byte) (field : Field) : List Byte :=
  (rangeOf header field.start field.size).takeWhile (· ≠ 0)

structure Entry where
  fileName : Option (List Byte)
  type : UstarType
  size : ℤ
deriving DecidableEq

def ustarParseHeader (header : ℕ → Byte) : Except String Entry :=
  if isAllZeros header ustarHeaderSize then .ok ⟨none, .eof, 0⟩
  else if rangeOf header UstarHeader.magic.start 6 ≠
      ['u', 's', 't', 'a', 'r'].map byteOf ++ [0] then
    .error "not a ustar archive"
  else if header UstarHeader.version.start ≠ byteOf '0' ∨
      header (UstarHeader.version.start + 1) ≠ byteOf '0' then
    .error "invalid ustar version"
  else
    match parseOctalField header UstarHeader.chksum with
    | none => .error "corrupt chksum field"
    | some chksum =>
      if chksum ≠ calculateChksum header then .error "checksum mismatch"
      else if header (UstarHeader.name.start + UstarHeader.name.size - 1) ≠ 0 ∨
          header UstarHeader.namePrefix.start ≠ 0 then
        .error "file name too long"
      else
        let fileName := stripAntisocialPrefixes (stringIn header UstarHeader.name)
        if header UstarHeader.typeflag.start = UstarType.regular.flag then
          match parseOctalField header UstarHeader.size with
          | none => .error "corrupt file size field"
          | some size =>
            if (size : ℤ) > intMax then .error "file too large"
            else .ok ⟨some fileName, .regular, size⟩
        else if header UstarHeader.typeflag.start = UstarType.directory.flag then
          .ok ⟨some fileName, .directory, 0⟩
        else .error "unimplemented file type"

end Pintos.Ustar
