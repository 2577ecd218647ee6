import Pintos.Filesys.FormatRoot
import Pintos.Filesys.FsutilAppend
import Pintos.Filesys.Installing

/-!
# Extracting an archive

`fsutil_extract` creates every file of the archive, opens it and copies its bytes. It is
run by the initial thread, which has no current directory. `filesys_create` puts the
first two files into the root directory and every later one into the current directory
of the thread, so that the third file of an archive cannot be created. Nor can a file
that needs more than the direct sectors of its inode.
-/

namespace Pintos.Fsutil

open Pintos.Computation Ustar

variable {machine after : Machine} {dev : Block} {live : Set ℕ} {holds : ℕ → ℕ}
  {addr rounds : ℕ} {entries : List (List Byte × Word)} {number : Word}

lemma readNext_of_lt (isScratch : machine.scratch = some dev)
  (inRange : machine.extractSector < dev.size) :
  readNext machine = .ok (dev.sectors machine.extractSector,
    { machine with extractSector := machine.extractSector + 1 }) := by
  have reading : scratchRead machine.extractSector machine =
      .ok (dev.sectors machine.extractSector, machine) := by
    rw [scratchRead, bind_of_ok (getScratch_of_some isScratch), if_pos inRange]
    rfl
  rw [readNext, reads_bind_apply, bind_of_ok reading]
  rfl

lemma onFs_eq_ok {Value : Type} {action : Kernel Value} {val : Value}
  (ran : onFs action machine = .ok (val, after)) :
  ∃ fs, action machine.fs = .ok (val, fs) ∧ after = { machine with fs := fs } := by
  unfold onFs at ran
  split at ran
  · next val fs acted =>
      cases ran
      exact ⟨fs, acted, rfl⟩
  · cases ran

def HoldsBytes (device : Block) (start : ℕ) (bytes : List Byte) : Prop :=
  ∀ index, index < bytes.length →
    (device.sectors (start + index / 512)).bytes (index % 512) = bytes.getD index 0

section Copying

variable {file : File} {ino : Inode} {bytes : List Byte} {start blk left : ℕ}

lemma fileWrite_piece {fs : Fs} (orderly : Orderly fs live holds addr entries)
  (isOpen : fs.inodes file.inode = some ino) (isNum : ino.sector = number)
  (notMap : number.toNat ≠ 0) (notRoot : number.toNat ≠ 1)
  (len : (fs.diskAt number.toNat).len = bytes.length) (held : HoldsBytes dev start bytes)
  (isLeft : left = bytes.length - 512 * blk) (positive : 0 < left)
  (atPos : file.pos = (512 * blk : ℕ)) (done : ∀ idx, idx < 512 * blk →
    (fs.diskAt number.toNat).contents fs.device idx = bytes.getD idx 0) :
  ∃ after, (∀ fuel, 512 ≤ fuel →
      fileWrite fuel file (dev.sectors (start + blk)).bytes (pieceSize left) fs =
        .ok (({ file with pos := file.pos + pieceSize left }, pieceSize left), after)) ∧
    Orderly after live holds addr entries ∧ fs.WritesFile after live number.toNat ∧
    ∀ idx, idx < 512 * (blk + 1) → idx < bytes.length →
      (fs.diskAt number.toNat).contents after.device idx = bytes.getD idx 0 := by
  rcases orderly.inodeWriteAt_returns isOpen isNum notMap notRoot
    (show 512 * blk + min left 512 ≤ (fs.diskAt number.toNat).len by rw [len]; omega)
    (dev.sectors (start + blk)).bytes with ⟨after, writes, orderlyAfter, writesFile, contents⟩
  refine ⟨after, ?_, orderlyAfter, writesFile, ?_⟩
  · intro fuel enough
    rw [fileWrite, atPos, pieceSize_natCast, bind_of_ok (writes fuel (by omega))]
    rfl
  intro idx inPiece inFile
  rw [contents idx (by rw [len]; exact inFile)]
  by_cases pre : idx < 512 * blk
  · rw [overlay_outside (Or.inl pre)]
    exact done idx pre
  rw [overlay_inside (by omega) (by omega), ← held idx inFile,
    show idx / 512 = blk by omega, show idx - 512 * blk = idx % 512 by omega]

lemma extractFile_copies {rounds : ℕ} (orderly : Orderly machine.fs live holds addr entries)
  (isOpen : machine.fs.inodes file.inode = some ino) (isNum : ino.sector = number)
  (notMap : number.toNat ≠ 0) (notRoot : number.toNat ≠ 1)
  (len : (machine.fs.diskAt number.toNat).len = bytes.length) (held : HoldsBytes dev start bytes)
  (isScratch : machine.scratch = some dev) (atSec : machine.extractSector = start + blk)
  (room : machine.extractSector + sectorCnt left ≤ dev.size)
  (isLeft : left = bytes.length - 512 * blk) (atPos : 0 < left → file.pos = (512 * blk : ℕ))
  (enough : left ≤ rounds) (done : ∀ idx, idx < 512 * blk → idx < bytes.length →
    (machine.fs.diskAt number.toNat).contents machine.fs.device idx = bytes.getD idx 0) :
  ∃ after last, (∀ fuel, 512 ≤ fuel → extractFile fuel rounds left file machine =
      .ok (last, { machine with
        fs := after
        extractSector := machine.extractSector + sectorCnt left })) ∧
    last.inode = file.inode ∧ last.denyWrite = file.denyWrite ∧
    Orderly after live holds addr entries ∧
    machine.fs.WritesFile after live number.toNat ∧
    ∀ idx, idx < bytes.length →
      (machine.fs.diskAt number.toNat).contents after.device idx = bytes.getD idx 0 := by
  induction rounds generalizing machine file blk left with
  | zero =>
    have nothing : left = 0 := by omega
    refine ⟨machine.fs, file, ?_, rfl, rfl, orderly, .refl _ _ _, ?_⟩
    · intro fuel _
      rw [extractFile, nothing]
      rfl
    intro idx inside
    exact done idx (by omega) inside
  | succ rounds ih =>
    by_cases positive : 0 < left
    · rcases fileWrite_piece orderly isOpen isNum notMap notRoot len held isLeft positive
        (atPos positive) (fun idx pre => done idx pre (by omega)) with
        ⟨mid, writing, orderlyMid, writesMid, doneMid⟩
      have inRange : machine.extractSector < dev.size := by
        rw [sectorCnt] at room
        omega
      have rest : (left : ℤ) - pieceSize left = (left - min left 512 : ℕ) := by
        rw [pieceSize_natCast]
        omega
      have oneMore : machine.extractSector + 1 + sectorCnt (left - min left 512) =
          machine.extractSector + sectorCnt left := by
        rw [sectorCnt, sectorCnt]
        omega
      have nextPos : 0 < left - min left 512 →
          file.pos + pieceSize left = (512 * (blk + 1) : ℕ) := by
        intro more
        omega
      have disk := writesMid.diskAt_eq
      rcases @ih { machine with fs := mid, extractSector := machine.extractSector + 1 }
        { file with pos := file.pos + pieceSize left } (blk + 1) (left - min left 512)
        orderlyMid (by rw [writesMid.onlyData.inodes_eq]; exact isOpen)
        (by rw [disk]; exact len) isScratch (by simp only; omega) (by rw [oneMore]; exact room)
        (by omega) nextPos (by omega) (by rw [disk]; exact doneMid) with
        ⟨after, last, looping, sameIno, sameDeny, orderlyAfter, writesAfter, complete⟩
      refine ⟨after, last, ?_, sameIno, sameDeny, orderlyAfter, writesMid.trans writesAfter, ?_⟩
      · intro fuel enoughFuel
        have reading := readNext_of_lt isScratch inRange
        rw [show dev.sectors machine.extractSector = _ from congrArg _ atSec] at reading
        rw [extractFile, if_pos (by omega), bind_of_ok reading,
          bind_of_ok (@onFs_of_ok { machine with extractSector := machine.extractSector + 1 }
            _ _ _ _ (writing fuel enoughFuel))]
        simp only [if_true]
        rw [rest]
        refine (looping fuel enoughFuel).trans ?_
        simp only [oneMore]
      rw [← disk]
      exact complete
    have nothing : left = 0 := by omega
    refine ⟨machine.fs, file, ?_, rfl, rfl, orderly, .refl _ _ _, ?_⟩
    · intro fuel _
      rw [extractFile, nothing]
      rfl
    intro idx inside
    exact done idx (by omega) inside

end Copying

def enoughFuel (fs : Fs) : ℕ := byteCnt fs.freeMap.bitCnt + 600

structure Extracting (machine : Machine) (device : Block) (live : Set ℕ) (address : ℕ)
    (entries : List (List Byte × Word)) (done : List ArchivedFile) : Prop where
  orderly : Orderly machine.fs live (fun _ => 0) address entries
  isScratch : machine.scratch = some device
  names : entries.map Prod.fst = dotName :: dotDotName :: done.map ArchivedFile.name
  distinct : (entries.map Prod.fst).Nodup
  created : machine.fs.i = done.length
  installed : ∀ file ∈ done, ∃ number, (file.name, number) ∈ entries ∧ number.toNat ≠ 0 ∧
    number.toNat ≠ 1 ∧ machine.fs.HoldsFile number file.bytes

section Installing

variable {done : List ArchivedFile} {file : ArchivedFile}

lemma fills_new (orderly : Orderly machine.fs live (fun _ => 0) addr entries)
  (distinct : (entries.map Prod.fst).Nodup) (listed : (file.name, number) ∈ entries)
  (valid : ValidName file.name) (notMap : number.toNat ≠ 0) (notRoot : number.toNat ≠ 1)
  (len : (machine.fs.diskAt number.toNat).len = file.bytes.length)
  (isScratch : machine.scratch = some dev)
  (held : HoldsBytes dev machine.extractSector file.bytes)
  (room : machine.extractSector + sectorCnt file.bytes.length ≤ dev.size) :
  ∃ after, (∀ fuel, 512 ≤ fuel → ∀ next : Tool Unit,
      (do
        let opened ← onFs (filesysOpen fuel file.name)
        match opened with
        | none => stop .panic
        | some dst => do
          let dst ← extractFile fuel (file.bytes.length : ℤ).toNat file.bytes.length dst
          onFs (fileClose fuel (some dst))
          next : Tool Unit) machine =
        next { machine with
          fs := after
          extractSector := machine.extractSector + sectorCnt file.bytes.length }) ∧
    Orderly after live (fun _ => 0) addr entries ∧ after.HoldsFile number file.bytes ∧
    after.freeMap = machine.fs.freeMap ∧ after.i = machine.fs.i ∧
    ∀ other ∈ live, other ≠ number.toNat → machine.fs.SameInode after other := by
  rcases orderly.filesysOpen_returns distinct listed valid.head_ne with
    ⟨place, ino, opened, opening, orderlyOpened, sameOpened, isOpen, isNum⟩
  have lenOpened : (opened.diskAt number.toNat).len = file.bytes.length := by
    rw [sameOpened.diskAt_eq, len]
  rcases @extractFile_copies { machine with fs := opened } dev live _ addr entries number
    { inode := place, pos := 0, denyWrite := false } ino file.bytes machine.extractSector 0
    file.bytes.length (file.bytes.length : ℤ).toNat orderlyOpened isOpen isNum notMap notRoot
    lenOpened held isScratch rfl room (by omega) (fun _ => rfl) (by omega) (by omega) with
    ⟨filled, last, copying, sameIno, sameDeny, orderlyFilled, writes, complete⟩
  have stillOpen : filled.inodes place = some ino := by rw [writes.onlyData.inodes_eq, isOpen]
  have notMapIno : ino.sector ≠ freeMapSector := by
    rw [isNum]
    rintro rfl
    exact notMap rfl
  rcases orderlyFilled.inodeClose_returns stillOpen (by simp [hold]) notMapIno with
    ⟨after, closing, orderlyAfter, sameAfter, _⟩
  rw [unhold_hold_self] at orderlyAfter
  have disk := writes.diskAt_eq
  refine ⟨after, ?_, orderlyAfter, ⟨?_, ?_⟩, ?_, ?_, ?_⟩
  · intro fuel enough next
    have closes : fileClose fuel (some last) filled = .ok ((), after) := by
      rw [fileClose, fileAllowWrite, sameDeny, if_neg Bool.false_ne_true, pure_bind_apply, sameIno]
      exact closing fuel
    refine (bind_of_ok (onFs_of_ok (opening fuel (by omega)))).trans ?_
    refine (bind_of_ok (copying fuel enough)).trans ?_
    exact bind_of_ok (@onFs_of_ok ⟨filled, _, _, _⟩ _ _ _ _ closes)
  · rw [sameAfter.diskAt_eq, disk, lenOpened]
  · intro idx inside
    rw [sameAfter.diskAt_eq, disk, sameAfter.device_eq]
    exact complete idx inside
  · rw [sameAfter.freeMap_eq, writes.freeMap_eq]
    exact sameOpened.freeMap_eq
  · rw [sameAfter.i_eq, writes.onlyData.i_eq]
    exact sameOpened.i_eq
  intro other isLive ne
  have first : machine.fs.SameInode opened other := .of_device sameOpened.device_eq
  exact (first.trans (writes.others other isLive ne)).trans (.of_device sameAfter.device_eq)

/-- The number of free sectors that installing a file takes: one for the header and one for every
block. An inode that needs an indirect block is to take all 128 sectors of it at once. -/
def sectorsNeeded (file : ArchivedFile) : ℕ :=
  1 + sectorCnt file.bytes.length + if file.bytes.length ≤ 123 * 512 then 0 else 129

structure Installable (done : List ArchivedFile) (file : ArchivedFile) : Prop where
  valid : ValidName file.name
  notDot : file.name ≠ dotName
  notDotDot : file.name ≠ dotDotName
  isNew : file.name ∉ done.map ArchivedFile.name

structure HoldsEntry (device : Block) (start : ℕ) (file : ArchivedFile) : Prop where
  inRange : start + file.size ≤ device.size
  parses : ustarParseHeader (device.sectors start).bytes =
    .ok ⟨some file.name, .regular, file.bytes.length⟩
  held : HoldsBytes device (start + 1) file.bytes

namespace Extracting

lemma advance (extracting : Extracting machine dev live addr entries done) (sec : ℕ) :
  Extracting { machine with extractSector := sec } dev live addr entries done :=
  { extracting with }

lemma install (extracting : Extracting machine dev live addr entries done)
  (entry : HoldsEntry dev machine.extractSector file) (installable : Installable done file)
  (early : done.length ≤ 1) (direct : file.bytes.length ≤ 123 * 512)
  (room : sectorsNeeded file ≤ machine.fs.freeSectors.card) : ∃ after newLive newEntries,
    (∀ fuel rounds, enoughFuel machine.fs ≤ fuel →
      extractEntries fuel none (rounds + 1) machine = extractEntries fuel none rounds after) ∧
    Extracting after dev newLive addr newEntries (done ++ [file]) ∧
    after.extractSector = machine.extractSector + file.size ∧
    enoughFuel after.fs = enoughFuel machine.fs ∧
    machine.fs.freeSectors.card ≤ after.fs.freeSectors.card + sectorsNeeded file := by
  have needed : sectorsNeeded file = 1 + (file.bytes.length + 511) / 512 := by
    rw [sectorsNeeded, if_pos direct, sectorCnt, Nat.add_zero]
  have isNew : file.name ∉ entries.map Prod.fst := by
    rw [extracting.names]
    simp [installable.notDot, installable.notDotDot, installable.isNew]
  have cnt : entries.length = done.length + 2 := by
    have lengths := congrArg List.length extracting.names
    simpa using lengths
  rcases extracting.orderly.filesysCreate_returns none
    (by rw [extracting.created]; exact early) installable.valid isNew (by omega) direct
    (by rw [← needed]; exact room) with
    ⟨number, created, creating, orderlyCreated, notLive, nextI, bitCnt, len, sameCreated, card⟩
  have notMap : number.toNat ≠ 0 := fun isMap =>
    notLive (isMap ▸ extracting.orderly.owned.zero_live extracting.orderly.fileHeld)
  have notRoot : number.toNat ≠ 1 := fun isRoot => notLive (isRoot ▸ extracting.orderly.root_live)
  have names : (entries ++ [(file.name, number)]).map Prod.fst =
      dotName :: dotDotName :: (done ++ [file]).map ArchivedFile.name := by
    simp [extracting.names]
  have distinct : ((entries ++ [(file.name, number)]).map Prod.fst).Nodup := by
    rw [List.map_append, List.nodup_append]
    refine ⟨extracting.distinct, List.nodup_singleton _, ?_⟩
    intro name isOld other isLast
    have isName : other = file.name := List.mem_singleton.mp isLast
    intro same
    rw [same, isName] at isOld
    exact isNew isOld
  have listed : (file.name, number) ∈ entries ++ [(file.name, number)] := by simp
  have inRange : machine.extractSector + 1 + sectorCnt file.bytes.length ≤ dev.size := by
    have bound := entry.inRange
    rw [ArchivedFile.size] at bound
    omega
  rcases @fills_new
    { machine with fs := created, extractSector := machine.extractSector + 1 } dev _ _ _ number
    file orderlyCreated distinct listed installable.valid notMap notRoot len extracting.isScratch
    entry.held inRange with
    ⟨after, filling, orderlyAfter, holdsFile, sameMap, sameI, others⟩
  refine ⟨⟨after, machine.scratch, machine.extractSector + 1 + sectorCnt file.bytes.length,
    machine.appendSector⟩, insert number.toNat live, entries ++ [(file.name, number)], ?_,
    ⟨orderlyAfter, extracting.isScratch, names, distinct, ?_, ?_⟩, ?_, ?_, ?_⟩
  · intro fuel rounds enough
    rw [enoughFuel] at enough
    rw [extractEntries, bind_of_ok (readNext_of_lt extracting.isScratch (by omega)), entry.parses]
    refine (bind_of_ok (@onFs_of_ok
      { machine with extractSector := machine.extractSector + 1 } _ _ _ _
      (creating fuel (by omega)))).trans ?_
    exact filling fuel (by omega) (extractEntries fuel none rounds)
  · rw [sameI, nextI, extracting.created, List.length_append, List.length_singleton]
  · intro other mem
    rcases List.mem_append.mp mem with isOld | isLast
    · rcases extracting.installed other isOld with
        ⟨otherNum, otherListed, otherNotMap, otherNotRoot, otherHolds⟩
      have otherLive := extracting.orderly.named _ otherListed
      have ne : otherNum.toNat ≠ number.toNat := fun same => notLive (same ▸ otherLive)
      have same : machine.fs.SameInode after otherNum.toNat :=
        (sameCreated _ otherLive otherNotMap otherNotRoot).trans (others _ (Or.inr otherLive) ne)
      exact ⟨otherNum, List.mem_append_left _ otherListed, otherNotMap, otherNotRoot,
        otherHolds.of_same same (extracting.orderly.readable otherLive)⟩
    rw [List.mem_singleton.mp isLast]
    exact ⟨number, listed, notMap, notRoot, holdsFile⟩
  · rw [ArchivedFile.size, Nat.add_assoc]
  · rw [enoughFuel, enoughFuel, sameMap, bitCnt]
  have sameFree : after.freeSectors = created.freeSectors := by
    unfold Fs.freeSectors
    rw [sameMap]
  rw [needed, sameFree]
  exact card

lemma stops (extracting : Extracting machine dev live addr entries done)
  (entry : HoldsEntry dev machine.extractSector file) {fuel rounds : ℕ} {after : Machine}
  (blocked : done.length ≤ 1 → 123 * 512 < file.bytes.length)
  (room : sectorsNeeded file ≤ machine.fs.freeSectors.card)
  (enough : enoughFuel machine.fs ≤ fuel) :
  extractEntries fuel none rounds machine ≠ .ok ((), after) := by
  intro ran
  cases rounds with
  | zero => cases ran
  | succ rounds =>
    have inRange : machine.extractSector < dev.size := by
      have bound := entry.inRange
      rw [ArchivedFile.size] at bound
      omega
    rw [extractEntries, bind_of_ok (readNext_of_lt extracting.isScratch inRange), entry.parses,
      extractEntry] at ran
    rcases bind_eq_ok ran with ⟨created, mid, creating, rest⟩
    cases created with
    | false => cases rest
    | true =>
      rcases onFs_eq_ok creating with ⟨fs, create, _⟩
      by_cases early : done.length ≤ 1
      · have long := blocked early
        rw [sectorsNeeded, if_neg (by omega)] at room
        exact extracting.orderly.filesysCreate_long (by rw [extracting.created]; exact early) long
          (by omega) (by rw [enoughFuel] at enough; omega) create
      · exact filesysCreate_late (show 2 ≤ machine.fs.i by rw [extracting.created]; omega) create

end Extracting

end Installing

inductive Archive (device : Block) : ℕ → List ArchivedFile → Prop
  | ending {start : ℕ} (inRange : start + 1 < device.size)
      (first : device.sectors start = .zeros) (second : device.sectors (start + 1) = .zeros) :
      Archive device start []
  | directory {start : ℕ} {files : List ArchivedFile} {fileName : Option (List Byte)} {size : ℤ}
      (inRange : start < device.size)
      (parses : ustarParseHeader (device.sectors start).bytes = .ok ⟨fileName, .directory, size⟩)
      (rest : Archive device (start + 1) files) : Archive device start files
  | file {start : ℕ} {file : ArchivedFile} {files : List ArchivedFile}
      (entry : HoldsEntry device start file) (rest : Archive device (start + file.size) files) :
      Archive device start (file :: files)

structure ValidFiles (files : List ArchivedFile) : Prop where
  valid : ∀ file ∈ files, ValidName file.name ∧ file.name ≠ dotName ∧ file.name ≠ dotDotName
  distinct : (files.map ArchivedFile.name).Nodup

def WithinLimits (files : List ArchivedFile) : Prop :=
  files.length ≤ 2 ∧ ∀ file ∈ files, file.bytes.length ≤ 123 * 512

lemma ustarParseHeader_zeros : ustarParseHeader Sector.zeros.bytes = .ok ⟨none, .eof, 0⟩ := by
  have allZeros : isAllZeros Sector.zeros.bytes ustarHeaderSize = true := by
    simp [isAllZeros, rangeOf]
  rw [ustarParseHeader, if_pos allZeros]

section Runs

variable {done files : List ArchivedFile} {file : ArchivedFile} {start : ℕ}

lemma ValidFiles.installable (valid : ValidFiles (done ++ file :: files)) :
  Installable done file := by
  rcases valid.valid file (by simp) with ⟨validName, notDot, notDotDot⟩
  refine ⟨validName, notDot, notDotDot, ?_⟩
  intro isOld
  have distinct := valid.distinct
  rw [List.map_append, List.nodup_append] at distinct
  exact distinct.2.2 _ isOld file.name (by simp) rfl

lemma extractEntries_directory {fuel : ℕ} {fileName : Option (List Byte)} {size : ℤ}
  (isScratch : machine.scratch = some dev) (inRange : machine.extractSector < dev.size)
  (parses : ustarParseHeader (dev.sectors machine.extractSector).bytes =
    .ok ⟨fileName, .directory, size⟩) :
  extractEntries fuel none (rounds + 1) machine = extractEntries fuel none rounds
    { machine with extractSector := machine.extractSector + 1 } := by
  rw [extractEntries, bind_of_ok (readNext_of_lt isScratch inRange), parses]
  rfl

section

variable (archive : Archive dev start files)
  (extracting : Extracting machine dev live addr entries done)
  (atStart : machine.extractSector = start) (valid : ValidFiles (done ++ files))

include archive extracting atStart valid

lemma extractEntries_returns (limits : WithinLimits (done ++ files))
  (room : (files.map sectorsNeeded).sum ≤ machine.fs.freeSectors.card) :
  ∃ after newLive newEntries,
    (∀ fuel rounds, enoughFuel machine.fs ≤ fuel → dev.size < start + rounds →
      extractEntries fuel none rounds machine = .ok ((), after)) ∧
    Extracting after dev newLive addr newEntries (done ++ files) := by
  induction archive generalizing machine live entries done with
  | ending inRange first second =>
    subst atStart
    refine ⟨_, live, entries, ?_, by simpa using extracting.advance (machine.extractSector + 1)⟩
    intro fuel rounds _ enoughRounds
    rcases Nat.exists_eq_succ_of_ne_zero (show rounds ≠ 0 by omega) with ⟨fewer, rfl⟩
    rw [Nat.succ_eq_add_one, extractEntries,
      bind_of_ok (readNext_of_lt extracting.isScratch (by omega)), first, ustarParseHeader_zeros]
    rfl
  | directory inRange parses rest ih =>
    subst atStart
    rcases ih (extracting.advance (machine.extractSector + 1)) rfl valid limits room with
      ⟨after, newLive, newEntries, run, installed⟩
    refine ⟨after, newLive, newEntries, ?_, installed⟩
    intro fuel rounds enough enoughRounds
    rcases Nat.exists_eq_succ_of_ne_zero (show rounds ≠ 0 by omega) with ⟨fewer, rfl⟩
    rw [extractEntries_directory extracting.isScratch inRange parses]
    exact run fuel fewer enough (by omega)
  | @file _ file files entry rest ih =>
    subst atStart
    rw [List.map_cons, List.sum_cons] at room
    have early : done.length ≤ 1 := by
      have count := limits.1
      rw [List.length_append, List.length_cons] at count
      omega
    rcases extracting.install entry valid.installable early (limits.2 file (by simp)) (by omega)
      with ⟨middle, middleLive, middleEntries, step, installed, nextSector, sameFuel, card⟩
    rw [List.append_cons] at valid limits ⊢
    rcases ih installed nextSector valid limits (by omega) with
      ⟨after, newLive, newEntries, run, installedAll⟩
    refine ⟨after, newLive, newEntries, ?_, installedAll⟩
    intro fuel rounds enough enoughRounds
    have inRange := entry.inRange
    rcases Nat.exists_eq_succ_of_ne_zero (show rounds ≠ 0 by omega) with ⟨fewer, rfl⟩
    rw [step fuel fewer enough]
    exact run fuel fewer (by omega) (by rw [ArchivedFile.size]; omega)

lemma extractEntries_stops (doneLimits : WithinLimits done) (past : ¬ WithinLimits (done ++ files))
  (room : (files.map sectorsNeeded).sum ≤ machine.fs.freeSectors.card) {fuel : ℕ}
  (enough : enoughFuel machine.fs ≤ fuel) :
  extractEntries fuel none rounds machine ≠ .ok ((), after) := by
  induction archive generalizing machine live entries done rounds with
  | ending inRange first second =>
    rw [List.append_nil] at past
    exact absurd doneLimits past
  | directory inRange parses rest ih =>
    subst atStart
    cases rounds with
    | zero => exact nofun
    | succ rounds =>
      rw [extractEntries_directory extracting.isScratch inRange parses]
      exact ih (extracting.advance (machine.extractSector + 1)) rfl valid doneLimits past room
        enough
  | @file _ file files entry rest ih =>
    subst atStart
    rw [List.map_cons, List.sum_cons] at room
    by_cases fits : done.length ≤ 1 ∧ file.bytes.length ≤ 123 * 512
    · cases rounds with
      | zero => exact nofun
      | succ rounds =>
        rcases extracting.install entry valid.installable fits.1 fits.2 (by omega) with
          ⟨middle, middleLive, middleEntries, step, installed, nextSector, sameFuel, card⟩
        rw [List.append_cons] at valid past
        rw [step fuel rounds enough]
        refine ih installed nextSector valid ⟨?_, ?_⟩ past (by omega) (by omega)
        · rw [List.length_append, List.length_singleton]
          omega
        intro other member
        rcases List.mem_append.mp member with isOld | isLast
        · exact doneLimits.2 other isOld
        rw [List.mem_singleton.mp isLast]
        exact fits.2
    · exact extracting.stops entry (fun early => by omega) (by omega) enough

end

end Runs

def YieldsFile (fs : Fs) (file : ArchivedFile) : Prop :=
  ∃ bound, ∀ fuel, bound ≤ fuel → ∃ opened after inode,
    filesysOpen fuel file.name fs = .ok (some opened, after) ∧ opened.pos = 0 ∧
      after.inodes opened.inode = some inode ∧ after.HasBytes inode file.bytes

/-- `fsutil_extract`, run by a thread without a current directory, returns, and afterwards every
file of the archive can be opened. -/
def Extracts (machine : Machine) (files : List ArchivedFile) : Prop :=
  ∃ bound, ∀ fuel, bound ≤ fuel → ∃ after, fsutilExtract fuel none machine = .ok ((), after) ∧
    ∀ file ∈ files, YieldsFile after.fs file

lemma hasBytes_of_holdsFile {fs : Fs} {ino : Inode} {place : ℕ} {bytes : List Byte}
  (orderly : Orderly fs live holds addr entries) (isOpen : fs.inodes place = some ino)
  (isNum : ino.sector = number) (holdsFile : fs.HoldsFile number bytes) :
  fs.HasBytes ino bytes := by
  have data := orderly.data_eq isOpen
  rw [isNum] at data
  have readable := (orderly.owned.wellFormed_open isOpen).toReadable
  have len : ino.data.len = bytes.length := by rw [data, holdsFile.len_eq]
  refine ⟨by rw [readable.size_eq, len], ?_⟩
  intro idx byte isByte
  rcases List.getElem?_eq_some_iff.mp isByte with ⟨inside, _⟩
  have small := readable.len_le
  rcases ino.data.sectorAt_eq_some (show idx / 512 < 125 by omega) with
    ⟨sec, isSec, isData⟩
  refine ⟨sec, ?_, ?_, ?_⟩
  · rw [byteToSector_direct ino (by omega), isSec]
  · rw [isData]
    exact readable.sector_lt _ (readable.block_lt (by omega))
  have contents := holdsFile.contents_eq idx inside
  rw [← data, List.getD_eq_getElem?_getD, isByte] at contents
  rw [isData]
  exact contents

lemma Extracting.yieldsFile {done : List ArchivedFile} {file : ArchivedFile}
  (extracting : Extracting machine dev live addr entries done)
  (valid : ValidName file.name) (mem : file ∈ done) : YieldsFile machine.fs file := by
  rcases extracting.installed file mem with ⟨number, listed, _, _, holdsFile⟩
  rcases extracting.orderly.filesysOpen_returns extracting.distinct listed valid.head_ne with
    ⟨place, ino, after, opening, orderlyAfter, same, isOpen, isNum⟩
  refine ⟨321, ?_⟩
  intro fuel enough
  refine ⟨_, after, ino, opening fuel enough, rfl, isOpen,
    hasBytes_of_holdsFile orderlyAfter isOpen isNum (holdsFile.of_same (.of_device same.device_eq)
      (extracting.orderly.readable (extracting.orderly.named _ listed)))⟩

lemma fsutilExtract_of_heapOk {fuel : ℕ} (heap : machine.fs.HeapOk)
  (isScratch : machine.scratch = some dev) : fsutilExtract fuel none machine = (do
    extractEntries fuel none (dev.size + 1)
    scratchWrite 0 .zeros
    scratchWrite 1 .zeros : Tool Unit) machine := by
  have asked := onFs_of_ok (malloc_of_heapOk heap)
  rw [fsutilExtract, bind_of_ok asked, bind_of_ok asked, if_pos ⟨rfl, rfl⟩,
    bind_of_ok (getScratch_of_some isScratch)]

lemma Archive.two_le {start : ℕ} {files : List ArchivedFile}
  (archive : Archive dev start files) : start + 2 ≤ dev.size := by
  induction archive with
  | ending inRange first second => omega
  | directory inRange parses rest ih => omega
  | file entry rest ih => omega

section Freshly

variable {device : Block} {fs : Fs} {fuel : ℕ} {memory : ℕ → Word} {files : List ArchivedFile}
  (booting : Booting fs) (formatted : filesysInit fuel memory true fs = .ok ((), machine.fs))
  (isScratch : machine.scratch = some device) (atStart : machine.extractSector = 0)
  (archive : Archive device 0 files) (valid : ValidFiles files)
  (room : (files.map sectorsNeeded).sum ≤ machine.fs.freeSectors.card)

include booting formatted isScratch in
lemma extracting_formatted : ∃ addr, Extracting machine device {1, 0} addr rootEntries [] := by
  rcases filesysInit_orderly booting formatted with ⟨addr, orderly, noneCreated⟩
  exact ⟨addr, orderly, isScratch, rfl, by decide, noneCreated, nofun⟩

include booting formatted isScratch atStart archive valid room

lemma extracts_of_withinLimits (limits : WithinLimits files) : Extracts machine files := by
  rcases extracting_formatted booting formatted isScratch with ⟨addr, extracting⟩
  rcases extractEntries_returns archive extracting atStart valid limits room with
    ⟨extracted, live, entries, run, installed⟩
  have twoLe := archive.two_le
  refine ⟨enoughFuel machine.fs, ?_⟩
  intro fuel enough
  refine ⟨{ extracted with scratch := some ((device.write 0 .zeros).write 1 .zeros) }, ?_, ?_⟩
  · rw [fsutilExtract_of_heapOk extracting.orderly.owned.heap isScratch,
      bind_of_ok (run fuel (device.size + 1) enough (by omega)),
      bind_of_ok (scratchWrite_of_lt installed.isScratch (by omega))]
    exact scratchWrite_of_lt rfl (by simp only [Block.write]; omega)
  intro file mem
  exact installed.yieldsFile (valid.valid file mem).1 mem

lemma not_extracts_of_not_withinLimits (past : ¬ WithinLimits files) :
  ¬ Extracts machine files := by
  rintro ⟨bound, extracts⟩
  rcases extracting_formatted booting formatted isScratch with ⟨addr, extracting⟩
  rcases extracts (max bound (enoughFuel machine.fs)) (le_max_left _ _) with ⟨after, ran, _⟩
  rw [fsutilExtract_of_heapOk extracting.orderly.owned.heap isScratch] at ran
  rcases bind_eq_ok ran with ⟨_, mid, looping, _⟩
  exact extractEntries_stops archive extracting atStart valid ⟨by decide, nofun⟩ past room
    (le_max_right _ _) looping

/-- On a new file system with room for the files of an archive, `fsutil_extract` installs them
exactly if there are two at most and each fits in the direct sectors of an inode. -/
theorem extracts_iff :
    Extracts machine files ↔
      files.length ≤ 2 ∧ ∀ file ∈ files, file.bytes.length ≤ 123 * 512 := by
  constructor
  · intro extracts
    by_contra past
    exact not_extracts_of_not_withinLimits booting formatted isScratch atStart archive
      valid room past
      extracts
  · exact extracts_of_withinLimits booting formatted isScratch atStart archive valid room

end Freshly

section Example

def headerOf (name : Byte) (size : ℤ) : Sector :=
  .ofBytes (composed [name] .regular size fun _ => 0)

variable {name : Byte}

lemma headerOf_parsed {size : ℕ} (notNul : name ≠ 0)
  (stripped : stripAntisocialPrefixes [name] = [name]) (small : (size : ℤ) ≤ intMax) :
  ustarParseHeader (headerOf name size).bytes = .ok ⟨some [name], .regular, size⟩ := by
  rw [headerOf, ustarParseHeader_congr fun idx inHdr => Sector.bytes_ofBytes _ inHdr]
  exact ustarParseHeader_composed (by simpa using notNul.symm) (by simp) stripped (by decide)
    (by omega) small

def shortFile : ArchivedFile := ⟨[97], [7]⟩

def emptyFiles : List ArchivedFile := [⟨[97], []⟩, ⟨[98], []⟩, ⟨[99], []⟩]

def shortArchive : Block where
  size := 4
  sectors
    | 0 => headerOf 97 1
    | 1 => .ofBytes fun index => if index = 0 then 7 else 0
    | _ => .zeros

def emptyArchive : Block where
  size := 5
  sectors
    | 0 => headerOf 97 0
    | 1 => headerOf 98 0
    | 2 => headerOf 99 0
    | _ => .zeros

lemma stripped_letter (notSlash : name ≠ slash) : stripAntisocialPrefixes [name] = [name] := by
  have fine : ¬ IsAntisocial [name] := by
    rintro (first | second | third)
    · exact notSlash (List.cons_prefix_cons.mp first).1.symm
    · exact absurd second.length_le (by simp [dotName])
    · exact absurd third.length_le (by simp [dotDotName])
  rw [stripAntisocialPrefixes, stripLoop_of_not_isAntisocial fine]
  simp [dotDotName]

lemma shortArchive_archive : Archive shortArchive 0 [shortFile] := by
  refine .file ⟨by decide, ?_, ?_⟩ (.ending (by decide) rfl rfl)
  · exact headerOf_parsed (by decide) (stripped_letter (by decide)) (by decide)
  intro idx inside
  have first : idx = 0 := by simpa [shortFile] using inside
  subst first
  rfl

lemma emptyArchive_archive : Archive emptyArchive 0 emptyFiles := by
  have parsed : ∀ name : Byte, name ≠ 0 → name ≠ slash →
      ustarParseHeader (headerOf name (0 : ℕ)).bytes = .ok ⟨some [name], .regular, (0 : ℕ)⟩ :=
    fun name notNul notSlash => headerOf_parsed notNul (stripped_letter notSlash) (by decide)
  refine .file ⟨by decide, parsed 97 (by decide) (by decide), nofun⟩ ?_
  refine .file ⟨by decide, parsed 98 (by decide) (by decide), nofun⟩ ?_
  refine .file ⟨by decide, parsed 99 (by decide) (by decide), nofun⟩ ?_
  exact .ending (by decide) rfl rfl

lemma formatted_sixteen (archive : Block) : ∃ machine : Machine, Booting (blankFs 16) ∧
  filesysInit 30 (fun _ => 0) true (blankFs 16) = .ok ((), machine.fs) ∧
    machine.scratch = some archive ∧ machine.extractSector = 0 ∧
    3 ≤ machine.fs.freeSectors.card := by
  rcases @formatted_of_check (fun fs => 3 ≤ fs.freeSectors.card) (by decide +kernel) with
    ⟨fs, booting, ran, enough⟩
  exact ⟨⟨fs, some archive, 0, 0⟩, booting, ran, rfl, rfl, of_decide_eq_true enough⟩

lemma validName_letter (notNul : name ≠ 0) (notSlash : name ≠ slash) : ValidName [name] where
  notEmpty := by simp
  short := by simp [nameMax]
  noNul := by simpa using notNul.symm
  noSlash := by simpa using notSlash.symm

/-- An archive of one short file is extracted. -/
theorem extracts_shortFile : ∃ machine : Machine, machine.scratch = some shortArchive ∧
    Extracts machine [shortFile] := by
  rcases formatted_sixteen shortArchive with ⟨machine, booting, formatted, isScratch, atStart, room⟩
  have valid : ValidFiles [shortFile] := by
    refine ⟨?_, by decide⟩
    rintro file member
    rw [List.mem_singleton.mp member]
    exact ⟨validName_letter (by decide) (by decide), by decide, by decide⟩
  refine ⟨machine, isScratch, (extracts_iff booting formatted
    isScratch atStart shortArchive_archive valid ((by decide : _ ≤ 3).trans room)).mpr ?_⟩
  exact ⟨by decide, by decide⟩

/-- An archive of three files is not. -/
theorem not_extracts_emptyFiles : ∃ machine : Machine, Booting (blankFs 16) ∧
    filesysInit 30 (fun _ => 0) true (blankFs 16) = .ok ((), machine.fs) ∧
    machine.scratch = some emptyArchive ∧ machine.extractSector = 0 ∧
    Archive emptyArchive 0 emptyFiles ∧ ValidFiles emptyFiles ∧
    (emptyFiles.map sectorsNeeded).sum ≤ machine.fs.freeSectors.card ∧
    ¬ Extracts machine emptyFiles := by
  rcases formatted_sixteen emptyArchive with
    ⟨machine, booting, formatted, isScratch, atStart, room⟩
  have valid : ValidFiles emptyFiles := by
    refine ⟨?_, by decide⟩
    rintro file member
    simp only [emptyFiles, List.mem_cons, List.not_mem_nil, or_false] at member
    rcases member with rfl | rfl | rfl <;>
      exact ⟨validName_letter (by decide) (by decide), by decide, by decide⟩
  have enough : (emptyFiles.map sectorsNeeded).sum ≤ machine.fs.freeSectors.card :=
    (by decide : _ ≤ 3).trans room
  refine ⟨machine, booting, formatted, isScratch, atStart, emptyArchive_archive, valid, enough, ?_⟩
  exact not_extracts_of_not_withinLimits booting formatted isScratch atStart emptyArchive_archive
    valid enough fun limits => absurd limits.1 (by decide)

end Example

end Pintos.Fsutil
