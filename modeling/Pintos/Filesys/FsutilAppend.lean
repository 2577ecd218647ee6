import Pintos.Filesys.Counts
import Pintos.Filesys.FormatReturns
import Pintos.Filesys.Fsutil
import Pintos.Lib.UstarHeaders

/-!
# Appending to an archive

A call of `fsutil_append` writes a header, the bytes of the file sector by sector, and one
sector for the end of the archive, over which the next call writes. The end of an
archive is to be two sectors of zeros. The second `block_write` for it goes to the same
sector as the first one, though, and takes its data from the second byte of the buffer
on. The sector behind keeps what it held, and the last byte of the one that is written
is a byte that does not belong to the buffer.
-/

namespace Pintos

open Pintos.Computation Ustar

namespace Fs

variable {fs : Fs} {ino : Inode} {bytes : List Byte} {addr : ℕ}

structure HasBytes (fs : Fs) (inode : Inode) (bytes : List Byte) : Prop where
  size_eq : inode.data.size = bytes.length
  stored : ∀ (index : ℕ) (byte : Byte), bytes[index]? = some byte → ∃ sector : Word,
    byteToSector inode index fs = .ok (some sector, fs) ∧ sector.toNat < fs.device.size ∧
      (fs.device.sectors sector.toNat).bytes (index % 512) = byte

lemma HasBytes.piece (has : fs.HasBytes ino bytes) {blk : ℕ}
  (inside : 512 * blk < bytes.length) :
  ∃ sec : Word, byteToSector ino (512 * blk : ℕ) fs = .ok (some sec, fs) ∧
    sec.toNat < fs.device.size ∧
    ∀ idx, idx < 512 → 512 * blk + idx < bytes.length →
      bytes.getD (512 * blk + idx) 0 = (fs.device.sectors sec.toNat).bytes idx := by
  rcases has.stored _ _ (List.getElem?_eq_getElem inside) with ⟨sec, found, secLt, _⟩
  refine ⟨sec, found, secLt, ?_⟩
  intro idx small inFile
  rcases has.stored _ _ (List.getElem?_eq_getElem inFile) with ⟨other, foundOther, _, isByte⟩
  have same : byteToSector ino (512 * blk + idx : ℕ) = byteToSector ino (512 * blk : ℕ) :=
    byteToSector_congr ino (by omega)
  rw [same, found] at foundOther
  cases foundOther
  rw [List.getD_eq_getElem?_getD, List.getElem?_eq_getElem inFile, Option.getD_some, ← isByte]
  congr 1
  omega

lemma HasBytes.inodeReadAt_piece (has : fs.HasBytes ino bytes) (heap : fs.HeapOk)
  (isOpen : fs.inodes addr = some ino) {blk size : ℕ} (positive : 0 < size)
  (small : size ≤ 512) (inside : 512 * blk + size ≤ bytes.length) (buf : ℕ → Byte) :
  ∃ filled, inodeReadAt addr buf size (512 * blk : ℕ) fs = .ok ((size, filled), fs) ∧
    ∀ idx, idx < size → filled idx = bytes.getD (512 * blk + idx) 0 := by
  rcases has.piece (show 512 * blk < bytes.length by omega) with
    ⟨sec, found, secLt, isByte⟩
  rcases Nat.exists_eq_succ_of_ne_zero positive.ne' with ⟨rounds, rfl⟩
  have isSize := has.size_eq
  have noOfs : ((512 * blk : ℕ) : ℤ).tmod blockSectorSize = 0 := by
    rw [tmod_blockSectorSize]
    omega
  have chunk : chunkSize ino (rounds + 1 : ℕ) (512 * blk : ℕ) = (rounds + 1 : ℕ) := by
    simp only [chunkSize, inodeLength, noOfs]
    rw [blockSectorSize]
    omega
  have notPast : ¬ ((512 * blk : ℕ) : ℤ) ≥ ino.data.size := by omega
  have done : ∀ filled bounce, inodeReadLoop addr rounds filled
      ((rounds + 1 : ℕ) - (rounds + 1 : ℕ) : ℤ) ((512 * blk : ℕ) + (rounds + 1 : ℕ) : ℤ)
      (0 + (rounds + 1 : ℕ) : ℤ) bounce fs = .ok (((rounds + 1 : ℕ), filled), fs) := by
    intro filled bounce
    cases rounds <;> simp [inodeReadLoop]
  rw [inodeReadAt, Int.toNat_natCast, inodeReadLoop, if_pos (by omega),
    bind_of_ok (derefInode_of_some isOpen), bind_of_ok found, if_neg notPast]
  simp only [chunk, noOfs, true_and]
  rw [if_neg (by omega)]
  by_cases full : ((rounds + 1 : ℕ) : ℤ) = (blockSectorSize : ℕ)
  · rw [if_pos full, bind_of_ok (blockRead_of_lt secLt), done]
    refine ⟨_, rfl, ?_⟩
    intro idx inPiece
    rw [isByte idx (by omega) (by omega), Int.toNat_zero,
      overlay_inside (Nat.zero_le _) (by rw [blockSectorSize]; omega), Nat.sub_zero]
  rw [if_neg full, bind_of_ok (getBounce_of_heapOk heap false), if_pos rfl,
    bind_of_ok (blockRead_of_lt secLt), done]
  refine ⟨_, rfl, ?_⟩
  intro idx inPiece
  rw [isByte idx (by omega) (by omega), Int.toNat_zero, Int.toNat_natCast,
    overlay_inside (Nat.zero_le _) (by omega), Nat.sub_zero, Nat.zero_add]

end Fs

namespace Fsutil

section Parts

variable {mach : Machine} {dev : Block} {sec : ℕ} {data : Sector}

lemma onFs_of_ok {Value : Type} {action : Kernel Value} {val : Value} {after : Fs}
  (returned : action mach.fs = .ok (val, after)) :
  onFs action mach = .ok (val, { mach with fs := after }) := by
  rw [onFs, returned]

section

variable (isScratch : mach.scratch = some dev)
include isScratch

lemma getScratch_of_some : getScratch mach = .ok (dev, mach) := by
  rw [getScratch, isScratch]

lemma scratchWrite_of_lt (inRange : sec < dev.size) : scratchWrite sec data mach =
    .ok ((), { mach with scratch := some (dev.write sec data) }) := by
  rw [scratchWrite, bind_of_ok (getScratch_of_some isScratch), if_pos inRange, updates_apply]

lemma writeNext_of_lt (inRange : mach.appendSector < dev.size) : writeNext data mach =
    .ok ((), { mach with
      scratch := some (dev.write mach.appendSector data)
      appendSector := mach.appendSector + 1 }) := by
  rw [writeNext, reads_bind_apply, bind_of_ok (scratchWrite_of_lt isScratch inRange), updates_apply]

end

end Parts

def sectorCnt (length : ℕ) : ℕ := (length + 511) / 512

def paddedSector (bytes : List Byte) (block : ℕ) : Sector :=
  .ofBytes fun index => bytes.getD (512 * block + index) 0

def paddedSectors (bytes : List Byte) : List Sector :=
  (List.range (sectorCnt bytes.length)).map (paddedSector bytes)

def stored (device : Block) (start : ℕ) (sectors : List Sector) : Block :=
  { device with sectors := storeAt device.sectors start sectors }

section

variable (dev : Block) (start : ℕ)

include dev start

lemma stored_sectors (secs : List Sector) :
  (stored dev start secs).sectors = storeAt dev.sectors start secs := rfl

@[simp]
lemma stored_nil : stored dev start [] = dev := by
  rw [stored, storeAt_nil]

lemma stored_cons (sec : Sector) (secs : List Sector) :
  stored (dev.write start sec) (start + 1) secs = stored dev start (sec :: secs) := by
  rw [stored, stored, storeAt_cons]
  rfl

lemma stored_write_write (secs : List Sector) (first second : Sector) :
  ((stored dev start secs).write (start + secs.length) first).write
      (start + secs.length) second =
    stored dev start (secs ++ [second]) := by
  rw [stored, stored, ← update_storeAt]
  simp [Block.write]

lemma stored_stored (secs more : List Sector) (last sec : Sector) :
  stored (stored dev start (secs ++ [last])) (start + secs.length) (sec :: more) =
    stored dev start (secs ++ sec :: more) := by
  rw [stored, stored, stored, storeAt_storeAt]

end

lemma paddedSectors_length (bytes : List Byte) :
  (paddedSectors bytes).length = sectorCnt bytes.length := by
  rw [paddedSectors, List.length_map, List.length_range]

lemma paddedSectors_drop (bytes : List Byte) {blk : ℕ} (inside : 512 * blk < bytes.length) :
  (paddedSectors bytes).drop blk =
    paddedSector bytes blk :: (paddedSectors bytes).drop (blk + 1) := by
  have isLt : blk < (paddedSectors bytes).length := by
    rw [paddedSectors_length, sectorCnt]
    omega
  rw [List.drop_eq_getElem_cons isLt]
  simp [paddedSectors]

lemma paddedSectors_done {bytes : List Byte} {blk : ℕ} (done : bytes.length ≤ 512 * blk) :
  (paddedSectors bytes).drop blk = [] := by
  refine List.drop_eq_nil_of_le ?_
  rw [paddedSectors_length, sectorCnt]
  omega

lemma pieceSize_natCast (left : ℕ) : pieceSize left = (min left 512 : ℕ) := by
  rw [pieceSize, blockSectorSize]
  split <;> omega

lemma fileRead_piece {fs : Fs} {file : File} {ino : Inode} {bytes : List Byte} {blk left : ℕ}
  (has : fs.HasBytes ino bytes) (heap : fs.HeapOk)
  (isOpen : fs.inodes file.inode = some ino) (isLeft : left = bytes.length - 512 * blk)
  (positive : 0 < left) (atPos : file.pos = (512 * blk : ℕ)) (buf : ℕ → Byte) :
  ∃ filled, fileRead file buf (pieceSize left) fs =
      .ok (({ file with pos := file.pos + pieceSize left }, pieceSize left, filled), fs) ∧
    Sector.ofBytes (overlay filled (pieceSize left).toNat
      (blockSectorSize - (pieceSize left).toNat) fun _ => 0) = paddedSector bytes blk := by
  rw [pieceSize_natCast]
  rcases has.inodeReadAt_piece heap isOpen (show 0 < min left 512 by omega) (min_le_right _ _)
    (show 512 * blk + min left 512 ≤ bytes.length by omega) buf with ⟨filled, reads, isByte⟩
  refine ⟨filled, ?_, ?_⟩
  · rw [fileRead, atPos, bind_of_ok reads]
    rfl
  refine Sector.ofBytes_congr ?_
  intro idx inSec
  rw [Int.toNat_natCast]
  by_cases inPiece : idx < min left 512
  · rw [overlay_outside (Or.inl inPiece), isByte idx inPiece]
  rw [overlay_inside (by omega) (by omega), List.getD_eq_getElem?_getD,
    List.getElem?_eq_none (by rw [blockSectorSize] at inSec; omega)]
  rfl

lemma appendFile_copies {mach : Machine} {dev : Block} {file : File} {ino : Inode}
  {bytes : List Byte} {blk left rounds : ℕ} (has : mach.fs.HasBytes ino bytes)
  (heap : mach.fs.HeapOk) (isOpen : mach.fs.inodes file.inode = some ino)
  (isLeft : left = bytes.length - 512 * blk) (atPos : 0 < left → file.pos = (512 * blk : ℕ))
  (enough : left ≤ rounds) (isScratch : mach.scratch = some dev)
  (room : mach.appendSector + sectorCnt left ≤ dev.size) (buf : ℕ → Byte) :
  ∃ last, appendFile rounds left file buf mach =
      .ok (last, { mach with
        scratch := some (stored dev mach.appendSector ((paddedSectors bytes).drop blk))
        appendSector := mach.appendSector + sectorCnt left }) ∧
    last.inode = file.inode ∧ last.denyWrite = file.denyWrite := by
  induction rounds generalizing mach dev file blk left buf with
  | zero =>
    refine ⟨file, ?_, rfl, rfl⟩
    rw [appendFile, if_neg (by omega), paddedSectors_done (by omega), stored_nil, ← isScratch,
      show left = 0 by omega]
    rfl
  | succ rounds ih =>
    by_cases positive : 0 < left
    · have notFull : ¬ mach.appendSector ≥ dev.size := by
        rw [sectorCnt] at room
        omega
      have rest : (left : ℤ) - pieceSize left = (left - min left 512 : ℕ) := by
        rw [pieceSize_natCast]
        omega
      have oneMore : mach.appendSector + 1 + sectorCnt (left - min left 512) =
          mach.appendSector + sectorCnt left := by
        rw [sectorCnt, sectorCnt]
        omega
      rcases fileRead_piece has heap isOpen isLeft positive (atPos positive) buf with
        ⟨filled, reading, isSec⟩
      have nextPos : 0 < left - min left 512 →
          file.pos + pieceSize left = (512 * (blk + 1) : ℕ) := by
        intro more
        omega
      rcases @ih { mach with
          scratch := some (dev.write mach.appendSector (paddedSector bytes blk))
          appendSector := mach.appendSector + 1 }
        _ { file with pos := file.pos + pieceSize left } (blk + 1) (left - min left 512)
        has heap isOpen (by omega) nextPos (by omega) rfl (by rw [oneMore]; exact room)
        (overlay filled (pieceSize left).toNat (blockSectorSize - (pieceSize left).toNat)
          fun _ => 0) with ⟨last, looping, sameIno, sameDeny⟩
      refine ⟨last, ?_, sameIno, sameDeny⟩
      rw [appendFile, if_pos (by omega), bind_of_ok (getScratch_of_some isScratch),
        reads_bind_apply, if_neg notFull, bind_of_ok (onFs_of_ok reading)]
      simp only [if_true]
      rw [bind_of_ok (writeNext_of_lt isScratch (by omega)), isSec, rest]
      refine looping.trans ?_
      simp only [oneMore]
      rw [stored_cons, ← paddedSectors_drop bytes (by omega)]
    refine ⟨file, ?_, rfl, rfl⟩
    rw [appendFile, if_neg (by omega), paddedSectors_done (by omega), stored_nil, ← isScratch,
      show left = 0 by omega]
    rfl

/-- A call of `fsutil_append` on a file: the file system it finds, the name, what `malloc` leaves
in the buffer, the byte behind the buffer, and the bytes of the file. -/
structure Append (fuel : ℕ) where
  fs : Fs
  fileName : List Byte
  buffer : ℕ → Byte
  behind : Byte
  bytes : List Byte
  heap : fs.HeapOk
  noNul : 0 ∉ fileName
  name_le : (stripAntisocialPrefixes fileName).length ≤ 99
  opens : ∃ src opened inode, filesysOpen fuel fileName fs = .ok (some src, opened) ∧
    opened.inodes src.inode = some inode ∧ inode.removed = false ∧ opened.HasBytes inode bytes

namespace Append

variable {fuel : ℕ}

def perform (machine : Machine) (call : Append fuel) : Except Stop Machine :=
  (fsutilAppend fuel call.fileName call.buffer call.behind { machine with fs := call.fs }).map
    Prod.snd

def header (call : Append fuel) : Sector :=
  .ofBytes (composed (stripAntisocialPrefixes call.fileName) .regular call.bytes.length call.buffer)

def entry (call : Append fuel) : List Sector := call.header :: paddedSectors call.bytes

end Append

lemma perform_stores {fuel : ℕ} {mach : Machine} {dev : Block} (call : Append fuel)
  (isScratch : mach.scratch = some dev)
  (room : mach.appendSector + call.entry.length < dev.size) :
  ∃ after, call.perform mach = .ok after ∧
    after.scratch =
      some (stored dev mach.appendSector (call.entry ++ [lastSector call.behind])) ∧
    after.appendSector = mach.appendSector + call.entry.length := by
  rcases mach with ⟨_, _, extractSector, start⟩
  cases isScratch
  rcases call.opens with ⟨src, opened, ino, opening, isOpen, notRemoved, has⟩
  rcases filesysOpen_fresh opening with ⟨atStart, allows⟩
  have heap := filesysOpen_keepsHeap fuel _ opening call.heap
  have len : fileLength (some src) opened = .ok ((call.bytes.length : ℤ), opened) := by
    rw [fileLength, bind_of_ok (derefInode_of_some isOpen), ← has.size_eq]
    rfl
  have entryLen : call.entry.length = 1 + sectorCnt call.bytes.length := by
    rw [Append.entry, List.length_cons, paddedSectors_length, Nat.add_comm]
  have nextSec : start + 1 + sectorCnt call.bytes.length = start + call.entry.length := by
    omega
  simp only at room
  rcases @appendFile_copies ⟨opened, some (dev.write start call.header), extractSector, start + 1⟩
    _ src ino call.bytes 0 call.bytes.length call.bytes.length has heap isOpen (by omega)
    (fun _ => by rw [atStart]; rfl) le_rfl rfl (by simp only [Block.write]; omega)
    (composed (stripAntisocialPrefixes call.fileName) .regular call.bytes.length call.buffer)
    with ⟨last, copying, sameIno, sameDeny⟩
  simp only [stored_cons, nextSec] at copying
  rcases inodeClose_returns isOpen notRemoved with ⟨closed, closes⟩
  have closing : fileClose fuel (some last) opened = .ok ((), closed) := by
    rw [fileClose, fileAllowWrite, sameDeny, allows, if_neg Bool.false_ne_true,
      pure_bind_apply, sameIno]
    exact closes fuel
  have performed : fsutilAppend fuel call.fileName call.buffer call.behind
      ⟨call.fs, some dev, extractSector, start⟩ =
        .ok ((), ⟨closed, some (stored dev start (call.entry ++ [lastSector call.behind])),
          extractSector, start + call.entry.length⟩) := by
    refine (bind_of_ok (onFs_of_ok (malloc_of_heapOk call.heap))).trans ?_
    refine (bind_of_ok (onFs_of_ok opening)).trans ?_
    refine (bind_of_ok (onFs_of_ok len)).trans ?_
    refine (bind_of_ok (getScratch_of_some rfl)).trans ?_
    rw [ustarMakeHeader_composed (by decide) call.name_le]
    refine (bind_of_ok (writeNext_of_lt rfl (by simp only; omega))).trans ?_
    refine (bind_of_ok copying).trans ?_
    refine (bind_of_ok (scratchWrite_of_lt rfl (by simpa [stored] using room))).trans ?_
    refine (bind_of_ok (scratchWrite_of_lt rfl
      (by simpa [stored, Block.write] using room))).trans ?_
    refine (onFs_of_ok closing).trans ?_
    simp [← Append.entry.eq_def, stored_write_write]
  exact ⟨_, congrArg (Except.map Prod.snd) performed, rfl, rfl⟩

def entries {fuel : ℕ} (calls : List (Append fuel)) : List Sector := calls.flatMap Append.entry

def ending {fuel : ℕ} (calls : List (Append fuel)) : List Sector :=
  (calls.getLast?.map fun call => lastSector call.behind).toList

lemma performs_store {fuel : ℕ} {mach : Machine} {dev : Block}
  (calls : List (Append fuel)) (isScratch : mach.scratch = some dev)
  (room : mach.appendSector + (entries calls).length < dev.size) :
  ∃ after, calls.foldlM Append.perform mach = .ok after ∧
    after.scratch = some (stored dev mach.appendSector (entries calls ++ ending calls)) := by
  induction calls generalizing mach dev with
  | nil => exact ⟨mach, rfl, by simp [entries, ending, isScratch]⟩
  | cons call rest ih =>
    have parts : (entries (call :: rest)).length = call.entry.length + (entries rest).length := by
      simp [entries]
    rcases perform_stores call isScratch (by omega) with
      ⟨mid, performed, isMid, nextSec⟩
    have roomLeft : mid.appendSector + (entries rest).length <
        (stored dev mach.appendSector (call.entry ++ [lastSector call.behind])).size := by
      simp only [stored]
      omega
    rcases ih isMid roomLeft with ⟨after, performsRest, isAfter⟩
    refine ⟨after, ?_, ?_⟩
    · rw [List.foldlM_cons]
      exact (congrArg (· >>= _) performed).trans performsRest
    rw [isAfter, nextSec]
    cases rest with
    | nil => simp [entries, ending]
    | cons second others =>
      have isNext : entries (second :: others) ++ ending (second :: others) =
          second.header :: (paddedSectors second.bytes ++ entries others ++
            ending (second :: others)) := by
        simp [entries, Append.entry]
      have isEnding : ending (call :: second :: others) = ending (second :: others) := by
        simp [ending]
      rw [isNext, stored_stored, ← isNext, isEnding]
      simp [entries]

structure ArchivedFile where
  name : List Byte
  bytes : List Byte

def ArchivedFile.size (file : ArchivedFile) : ℕ := 1 + sectorCnt file.bytes.length

/-- The device holds an archive from `start` on: for every file a header and its bytes with zeros
behind them, and two sectors of zeros at the end. -/
def HoldsArchive (device : Block) : ℕ → List ArchivedFile → Prop
  | start, [] => device.sectors start = .zeros ∧ device.sectors (start + 1) = .zeros
  | start, file :: rest =>
    ustarParseHeader (device.sectors start).bytes =
        .ok ⟨some (stripAntisocialPrefixes file.name), .regular, file.bytes.length⟩ ∧
      (∀ block, block < sectorCnt file.bytes.length →
        device.sectors (start + 1 + block) = paddedSector file.bytes block) ∧
      HoldsArchive device (start + file.size) rest

def Append.file {fuel : ℕ} (call : Append fuel) : ArchivedFile where
  name := call.fileName
  bytes := call.bytes

def archiveSize {fuel : ℕ} (calls : List (Append fuel)) : ℕ :=
  (calls.map fun call => call.file.size).sum

lemma entry_length {fuel : ℕ} (call : Append fuel) : call.entry.length = call.file.size := by
  rw [Append.entry, List.length_cons, paddedSectors_length, ArchivedFile.size, Nat.add_comm]
  rfl

lemma entries_length {fuel : ℕ} (calls : List (Append fuel)) :
  (entries calls).length = archiveSize calls := by
  rw [entries, List.length_flatMap, archiveSize]
  simp only [entry_length]

lemma header_parsed {fuel : ℕ} (call : Append fuel) : ustarParseHeader call.header.bytes =
    .ok ⟨some (stripAntisocialPrefixes call.fileName), .regular, call.bytes.length⟩ := by
  rcases call.opens with ⟨_, _, ino, _, _, _, has⟩
  have small : (call.bytes.length : ℤ) ≤ intMax := by
    have bound := BitVec.toInt_lt (x := ino.data.length)
    rw [← has.size_eq, InodeDisk.size, intMax]
    omega
  rw [Append.header, ustarParseHeader_congr fun idx inHdr => Sector.bytes_ofBytes _ inHdr]
  exact ustarParseHeader_composed (not_mem_stripAntisocialPrefixes call.noNul) call.name_le
    (stripAntisocialPrefixes_idem _) (by decide) (by omega) small

lemma holdsArchive_iff {fuel : ℕ} {dev : Block} {start : ℕ} (calls : List (Append fuel))
  (inPlace : ∀ idx sec, (entries calls)[idx]? = some sec →
    dev.sectors (start + idx) = sec) : HoldsArchive dev start (calls.map Append.file) ↔
    dev.sectors (start + archiveSize calls) = .zeros ∧
      dev.sectors (start + archiveSize calls + 1) = .zeros := by
  induction calls generalizing start with
  | nil => exact Iff.rfl
  | cons call rest ih =>
    have isEntry : ∀ idx sec, call.entry[idx]? = some sec →
        dev.sectors (start + idx) = sec := by
      intro idx sec isSec
      refine inPlace idx sec ?_
      have inEntry := (List.getElem?_eq_some_iff.mp isSec).1
      rw [entries, List.flatMap_cons, List.getElem?_append_left inEntry, isSec]
    have isHdr : dev.sectors start = call.header := isEntry 0 _ rfl
    have restInPlace : ∀ idx sec, (entries rest)[idx]? = some sec →
        dev.sectors (start + call.file.size + idx) = sec := by
      intro idx sec isSec
      rw [Nat.add_assoc]
      refine inPlace _ sec ?_
      rw [entries, List.flatMap_cons, List.getElem?_append_right (by rw [entry_length]; omega),
        entry_length, Nat.add_sub_cancel_left]
      exact isSec
    have size : start + archiveSize (call :: rest) = start + call.file.size + archiveSize rest := by
      rw [archiveSize, List.map_cons, List.sum_cons, Nat.add_assoc]
      rfl
    rw [size, ← ih restInPlace, List.map_cons, HoldsArchive, isHdr, header_parsed]
    refine ⟨fun held => held.2.2, fun held => ⟨rfl, ?_, held⟩⟩
    intro blk isBlk
    rw [Nat.add_assoc]
    refine isEntry _ _ ?_
    rw [Append.entry, Nat.add_comm 1 blk, List.getElem?_cons_succ]
    simp only [paddedSectors, List.getElem?_map, Option.map_eq_some_iff]
    exact ⟨blk, List.getElem?_range isBlk, rfl⟩

lemma lastSector_eq_zeros {behind : Byte} : lastSector behind = .zeros ↔ behind = 0 := by
  constructor
  · intro same
    exact congrFun same ⟨511, by decide⟩
  rintro rfl
  funext idx
  rw [lastSector]
  split <;> rfl

lemma stored_holdsArchive_iff {fuel : ℕ} {dev : Block} {calls : List (Append fuel)}
  {last : Append fuel} (isLast : calls.getLast? = some last) :
  HoldsArchive (stored dev 0 (entries calls ++ ending calls)) 0 (calls.map Append.file) ↔
    last.behind = 0 ∧ dev.sectors (archiveSize calls + 1) = .zeros := by
  have isEnding : ending calls = [lastSector last.behind] := by
    rw [ending, isLast]
    rfl
  have inPlace : ∀ idx sec, (entries calls)[idx]? = some sec →
      (stored dev 0 (entries calls ++ ending calls)).sectors (0 + idx) = sec := by
    intro idx sec isSec
    rw [stored_sectors, storeAt_inside]
    rw [List.getElem?_append_left (List.getElem?_eq_some_iff.mp isSec).1, isSec]
  have atEnd : (stored dev 0 (entries calls ++ ending calls)).sectors (0 + archiveSize calls) =
      lastSector last.behind := by
    rw [stored_sectors, storeAt_inside]
    rw [isEnding, ← entries_length, List.getElem?_concat_length]
  have behindEnd : (stored dev 0 (entries calls ++ ending calls)).sectors
      (0 + archiveSize calls + 1) = dev.sectors (archiveSize calls + 1) := by
    rw [Nat.zero_add, stored_sectors, storeAt_outside (Or.inr _)]
    rw [isEnding, List.length_append, entries_length, List.length_singleton, Nat.zero_add]
  rw [holdsArchive_iff calls inPlace, atEnd, behindEnd, lastSector_eq_zeros]

def ValidArchive {fuel : ℕ} (device : Block) (calls : List (Append fuel)) : Prop :=
  calls ≠ [] → HoldsArchive device 0 (calls.map Append.file)

/-- The sequence of calls returns. It has built an archive exactly if the byte behind the buffer
was zero in the last call and the second sector behind the entries held zeros before. -/
theorem validArchive_iff {fuel : ℕ} (calls : List (Append fuel)) (machine : Machine)
    (device : Block) (isScratch : machine.scratch = some device)
    (atStart : machine.appendSector = 0) (room : archiveSize calls + 2 ≤ device.size) :
    ∃ after archive, calls.foldlM Append.perform machine = .ok after ∧
      after.scratch = some archive ∧
      (ValidArchive archive calls ↔ ∀ last ∈ calls.getLast?,
        last.behind = 0 ∧ device.sectors (archiveSize calls + 1) = .zeros) := by
  rcases performs_store calls isScratch (by rw [entries_length, atStart]; omega) with
    ⟨after, performed, isAfter⟩
  rw [atStart] at isAfter
  refine ⟨after, _, performed, isAfter, ?_⟩
  cases isLast : calls.getLast? with
  | none =>
    rw [List.getLast?_eq_none_iff] at isLast
    simp [ValidArchive, isLast]
  | some last =>
    have notEmpty : calls ≠ [] := by
      rintro rfl
      cases isLast
    rw [ValidArchive, stored_holdsArchive_iff isLast]
    simp [notEmpty]

section Example

def namedFs : Fs := (smallFs 1).writeSector 5 (.ofBytes (DirEntry.filled (fun _ => 0) [97] 2))

lemma namedFs_opens : ∃ src opened ino, filesysOpen 20 [97] namedFs = .ok (some src, opened) ∧
  opened.inodes src.inode = some ino ∧ ino.removed = false ∧
    opened.HasBytes ino [0] := by
  have ran : (filesysOpen 20 [97] namedFs).toOption.any (fun res => res.1.any fun src =>
      (res.2.inodes src.inode).any fun ino => !ino.removed && ino.data.length = 1 &&
        ino.data.sectorAt 0 = some 3 && res.2.device.size = 6 &&
          (res.2.device.sectors 3).bytes 0 = 0) = true := by
    decide +kernel
  rcases exists_ok_of_any ran with ⟨⟨found, opened⟩, returned, passes⟩
  rcases (Option.any_eq_true ..).mp passes with ⟨src, isSrc, passes⟩
  rcases (Option.any_eq_true ..).mp passes with ⟨ino, isOpen, passes⟩
  simp only [Bool.and_eq_true, Bool.not_eq_true', decide_eq_true_eq] at passes isSrc
  rcases passes with ⟨⟨⟨⟨notRemoved, len⟩, isSec⟩, size⟩, isByte⟩
  subst isSrc
  refine ⟨src, opened, ino, returned, isOpen, notRemoved, ?_, ?_⟩
  · rw [InodeDisk.size, len]
    rfl
  intro idx byte isElem
  have first : idx = 0 := by
    have inside := (List.getElem?_eq_some_iff.mp isElem).1
    rw [List.length_singleton] at inside
    omega
  subst first
  cases isElem
  exact ⟨3, by rw [byteToSector_direct ino (by decide), isSec], by rw [size]; decide, isByte⟩

def appendNamed (behind : Byte) : Append 20 where
  fs := namedFs
  fileName := [97]
  buffer _ := 0
  behind := behind
  bytes := [0]
  heap _ := rfl
  noNul := by decide
  name_le := by
    rw [stripAntisocialPrefixes, stripLoop_of_not_isAntisocial (by decide)]
    decide
  opens := namedFs_opens

def scratchOf (byte : Byte) : Machine where
  fs := namedFs
  scratch := some { size := 8, sectors := fun _ _ => byte }
  extractSector := 0
  appendSector := 0

/-- Over a device full of zeros, with a zero behind the buffer, the archive is right. -/
theorem validArchive_zeros : ∃ after archive,
    [appendNamed 0].foldlM Append.perform (scratchOf 0) = .ok after ∧
      after.scratch = some archive ∧ ValidArchive archive [appendNamed 0] := by
  rcases validArchive_iff [appendNamed 0] (scratchOf 0) _ rfl rfl (by decide) with
    ⟨after, archive, performed, isArchive, valid⟩
  refine ⟨after, archive, performed, isArchive, valid.mpr ?_⟩
  rintro last ⟨⟩
  exact ⟨rfl, rfl⟩

/-- Over a device that held something else the end of the archive is missing. -/
theorem not_validArchive_ones : ∃ after archive,
    [appendNamed 0].foldlM Append.perform (scratchOf 255) = .ok after ∧
      after.scratch = some archive ∧ ¬ ValidArchive archive [appendNamed 0] := by
  rcases performs_store [appendNamed 0] (show (scratchOf 255).scratch = some _ from rfl)
    (by decide) with ⟨after, performed, isAfter⟩
  refine ⟨after, _, performed, isAfter, ?_⟩
  intro valid
  have isLast : [appendNamed 0].getLast? = some (appendNamed 0) := rfl
  have zeros := ((stored_holdsArchive_iff isLast).mp (valid (by simp))).2
  have byte := congrFun zeros ⟨0, by decide⟩
  revert byte
  decide

end Example

end Fsutil

end Pintos
