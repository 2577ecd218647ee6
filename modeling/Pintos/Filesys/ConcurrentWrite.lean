import Pintos.Filesys.InodeWrite
import Pintos.Library.Interleaving

/-!
# Writers of one file

The system call `write` gives up `sema_files` before it calls `file_write`, so
any number of processes can be inside `inode_write_at` for one file at once.
This file cuts `inode_write_at` into the steps between which it can be
preempted: a call of `block_read` or of `block_write` is a step of its own. A
writer that is alone takes the steps of the function. Writers of disjoint ranges
lose nothing in every run in which no sector changes between the moment a writer
reads it into its bounce buffer and the moment it writes it back.
-/

namespace Pintos

open Pintos.Computation Function

structure WriteRequest where
  buffer : ℕ → Byte
  size : ℕ
  offset : ℕ

/-- The variables the loop of `inode_write_at` changes; `bounce` says whether the buffer is
allocated. -/
structure WriteLocals where
  size : ℤ
  offset : ℤ
  bytesWritten : ℤ
  bounce : Bool

namespace WriteLocals

def advance (vars : WriteLocals) (chunk : ℤ) : WriteLocals where
  size := vars.size - chunk
  offset := vars.offset + chunk
  bytesWritten := vars.bytesWritten + chunk
  bounce := vars.bounce

end WriteLocals

/-- Where a call of `inode_write_at` is. In `blockWrite` the last argument is the sector as the
call has read it, where it has read it. -/
inductive WritePc
  | entry
  | denyCheck
  | loop (vars : WriteLocals)
  | blockRead (vars : WriteLocals) (sectorIdx : Option Word) (chunk : ℤ)
  | blockWrite (vars : WriteLocals) (sectorIdx : Option Word) (chunk : ℤ) (data : Sector)
      (old : Option Sector)
  | returned (bytesWritten : ℤ)

def WriteRequest.source (request : WriteRequest) (vars : WriteLocals) : ℕ → Byte :=
  fun index => request.buffer (vars.bytesWritten.toNat + index)

/-- The step from the head of the loop once the chunk is known: a whole sector is written next,
anything else needs the bounce buffer, and the call returns if there is none. -/
def startChunk (request : WriteRequest) (vars : WriteLocals) (sectorIdx : Option Word)
    (chunk : ℤ) : Kernel WritePc :=
  let sectorOfs := vars.offset.tmod blockSectorSize
  if sectorOfs = 0 ∧ chunk = blockSectorSize then
    pure (.blockWrite vars sectorIdx chunk (.ofBytes (request.source vars)) none)
  else do
    let ready ← getBounce vars.bounce
    if ready then
      if sectorOfs > 0 ∨ chunk < blockSectorSize - sectorOfs then
        pure (.blockRead { vars with bounce := true } sectorIdx chunk)
      else do
        let data ← copyIntoSector .zeros sectorOfs chunk (request.source vars)
        pure (.blockWrite { vars with bounce := true } sectorIdx chunk data none)
    else
      pure (.returned vars.bytesWritten)

def writeStep (allocate : ℕ → Kernel (Option Word)) (address : ℕ) (request : WriteRequest) :
    WritePc → Kernel WritePc
  | .entry => do
    let diskInode ← malloc
    if diskInode then pure .denyCheck else stop .fault
  | .denyCheck => do
    let inode ← derefInode address
    if inode.denyWriteCnt ≠ 0 then pure (.returned 0)
    else pure (.loop ⟨request.size, request.offset, 0, false⟩)
  | .loop vars =>
    if vars.size > 0 then do
      let inode ← derefInode address
      let sectorIdx ← byteToSector inode vars.offset
      let chunk := chunkSize inode vars.size vars.offset
      allocatePastEnd allocate chunk (vars.size - vars.bytesWritten)
      startChunk request vars sectorIdx chunk
    else
      pure (.returned vars.bytesWritten)
  | .blockRead vars sectorIdx chunk => do
    let old ← Pintos.blockRead sectorIdx
    let data ← copyIntoSector old (vars.offset.tmod blockSectorSize) chunk (request.source vars)
    pure (.blockWrite vars sectorIdx chunk data (some old))
  | .blockWrite vars sectorIdx chunk data _ => do
    Pintos.blockWrite sectorIdx data
    pure (.loop (vars.advance chunk))
  | .returned bytesWritten => pure (.returned bytesWritten)

variable {count chunk : ℤ} {pc : WritePc} {after pre : Fs} {sectorIdx : Option Word}
  {req : WriteRequest} {allocate : ℕ → Kernel (Option Word)} {done : ℕ}

section Alone

variable {address : ℕ} {vars : WriteLocals}

/-- A step of a writer that nobody interrupts. -/
def AloneStep (allocate : ℕ → Kernel (Option Word)) (address : ℕ) (request : WriteRequest)
    (before after : WritePc × Fs) : Prop :=
  writeStep allocate address request before.1 before.2 = .ok after

def WritePc.afterChunk (vars : WriteLocals) (chunk : ℤ) : Option Bool → WritePc
  | some bounce => .loop ({ vars with bounce := bounce }.advance chunk)
  | none => .returned vars.bytesWritten

lemma writeSectorChunk_alone {fs : Fs} {written : Option Bool}
  (head : writeStep allocate address req (.loop vars) fs =
    startChunk req vars sectorIdx chunk pre)
  (stored : writeSectorChunk sectorIdx (vars.offset.tmod blockSectorSize) chunk
    (req.source vars) vars.bounce pre = .ok (written, after)) :
  Relation.ReflTransGen (AloneStep allocate address req) (.loop vars, fs)
    (.afterChunk vars chunk written, after) := by
  have writes : ∀ (bounce : Bool) (data : Sector) (old : Option Sector) (mid : Fs),
      blockWrite sectorIdx data mid = .ok ((), after) →
      AloneStep allocate address req
        (.blockWrite { vars with bounce := bounce } sectorIdx chunk data old, mid)
        (.loop ({ vars with bounce := bounce }.advance chunk), after) := by
    intro bounce data old mid wrote
    exact bind_of_ok wrote
  unfold startChunk at head
  unfold writeSectorChunk at stored
  split at stored
  next full =>
    rcases bind_eq_ok stored with ⟨_, last, wrote, rest⟩
    cases rest
    simp only [if_pos full] at head
    exact .head head (.single (writes vars.bounce _ none _ wrote))
  next part =>
    rcases bind_eq_ok stored with ⟨ready, buffered, bounced, rest⟩
    simp only [if_neg part] at head
    rw [bind_of_ok bounced] at head
    cases ready with
    | false =>
      cases rest
      exact .single head
    | true =>
      simp only [if_true] at rest head
      split at rest
      next keepsRest =>
        rcases bind_eq_ok rest with ⟨old, filled, fill, copying⟩
        rcases bind_eq_ok copying with ⟨data, copied, copy, writing⟩
        rcases bind_eq_ok writing with ⟨_, last, wrote, done⟩
        cases done
        rw [if_pos keepsRest] at head
        have reads : AloneStep allocate address req
            (.blockRead { vars with bounce := true } sectorIdx chunk, buffered)
            (.blockWrite { vars with bounce := true } sectorIdx chunk data (some old),
              copied) :=
          (bind_of_ok fill).trans (bind_of_ok copy)
        exact .head head (.head reads (.single (writes true _ _ _ wrote)))
      next whole =>
        rw [pure_bind_apply] at rest
        rcases bind_eq_ok rest with ⟨data, copied, copy, writing⟩
        rcases bind_eq_ok writing with ⟨_, last, wrote, done⟩
        cases done
        rw [if_neg whole] at head
        have zeroes := head.trans (bind_of_ok copy)
        exact .head zeroes (.single (writes true _ none _ wrote))

lemma inodeWriteLoop_alone (fuel : ℕ) {fs : Fs}
  (returned : inodeWriteLoop allocate address req.buffer fuel vars.size vars.offset
    vars.bytesWritten vars.bounce fs = .ok (count, after)) :
  Relation.ReflTransGen (AloneStep allocate address req) (.loop vars, fs)
    (.returned count, after) := by
  induction fuel generalizing vars fs <;> rw [inodeWriteLoop] at returned <;> split at returned
  case zero.isTrue => cases returned
  case zero.isFalse done | succ.isFalse done =>
    cases returned
    exact .single (by rw [AloneStep, writeStep, if_neg done]; rfl)
  case succ.isTrue fuel ih more =>
    rcases bind_eq_ok returned with ⟨inode, opened, deref, locating⟩
    rcases bind_eq_ok locating with ⟨sectorIdx, located, found, allocating⟩
    rcases bind_eq_ok allocating with ⟨⟨⟩, allocated, passed, writing⟩
    rcases bind_eq_ok writing with ⟨written, wrote, stored, rest⟩
    have head : writeStep allocate address req (.loop vars) fs =
        startChunk req vars sectorIdx (chunkSize inode vars.size vars.offset) allocated := by
      rw [writeStep, if_pos more, bind_of_ok deref, bind_of_ok found]
      exact bind_of_ok passed
    have round := writeSectorChunk_alone head stored
    cases written with
    | some bounce => exact round.trans (ih rest)
    | none =>
      cases rest
      exact round

/-- A writer that runs alone does what `inode_write_at` does as a whole. -/
theorem inodeWriteAtWith_alone {fuel : ℕ} {fs : Fs}
    (ran : inodeWriteAtWith allocate fuel address req.buffer req.size req.offset
      fs = .ok (count, after)) : Relation.ReflTransGen (AloneStep allocate address req) (.entry, fs)
        (.returned count, after) := by
  rcases bind_eq_ok ran with ⟨diskInode, asked, alloc, rest⟩
  cases diskInode with
  | false => cases rest
  | true =>
    rcases bind_eq_ok rest with ⟨inode, opened, deref, writing⟩
    have entered : AloneStep allocate address req (.entry, fs) (.denyCheck, asked) :=
      bind_of_ok alloc
    split at writing
    next denied =>
      cases writing
      refine .head entered (.single ?_)
      rw [AloneStep, writeStep, bind_of_ok deref, if_pos denied]
      rfl
    next permitted =>
      have checked : AloneStep allocate address req (.denyCheck, asked)
          (.loop ⟨req.size, req.offset, 0, false⟩, opened) := by
        rw [AloneStep, writeStep, bind_of_ok deref, if_neg permitted]
        rfl
      exact .head entered (.head checked (inodeWriteLoop_alone fuel writing))

end Alone

structure WriteLocals.At (vars : WriteLocals) (request : WriteRequest) (done : ℕ) : Prop where
  done_le : done ≤ request.size
  size_eq : vars.size = (request.size - done : ℕ)
  offset_eq : vars.offset = (request.offset + done : ℕ)
  bytesWritten_eq : vars.bytesWritten = done

structure WriteLocals.InChunk (vars : WriteLocals) (disk : InodeDisk) (request : WriteRequest)
    (done : ℕ) (sectorIdx : Option Word) (chunk : ℤ) : Prop extends vars.At request done where
  more : done < request.size
  sector_eq : sectorIdx = disk.sectorAt ((request.offset + done) / 512)
  chunk_eq : chunk = chunkLen disk (request.size - done) (request.offset + done)

def WriteRequest.rest (request : WriteRequest) (done : ℕ) : ℕ → Byte :=
  fun index => request.buffer (done + index)

/-- How far a call has come: `done` bytes are on the device, and the sector to be written is the
sector that was read with the next chunk laid over it. -/
def WritePc.Done (disk : InodeDisk) (request : WriteRequest) (done : ℕ) : WritePc → Prop
  | .entry => done = 0
  | .denyCheck => done = 0
  | .loop vars => vars.At request done
  | .blockRead vars sectorIdx chunk => vars.InChunk disk request done sectorIdx chunk
  | .blockWrite vars sectorIdx chunk data old =>
    vars.InChunk disk request done sectorIdx chunk ∧
    ∀ sector : Sector, (∀ read, old = some read → sector = read) →
      data = .ofBytes (overlay sector.bytes ((request.offset + done) % 512)
        (chunkLen disk (request.size - done) (request.offset + done)) (request.rest done))
  | .returned _ => done = request.size

namespace WriteLocals

variable {vars : WriteLocals} {disk : InodeDisk}

lemma At.source_eq (arrived : vars.At req done) : req.source vars = req.rest done := by
  funext idx
  rw [WriteRequest.source, arrived.bytesWritten_eq]
  rfl

lemma At.sectorOfs_eq (arrived : vars.At req done) :
  vars.offset.tmod blockSectorSize = ((req.offset + done) % 512 : ℕ) := by
  rw [arrived.offset_eq, tmod_blockSectorSize]

lemma InChunk.advance (within : vars.InChunk disk req done sectorIdx chunk) :
  (vars.advance chunk).At req (done + chunkLen disk (req.size - done) (req.offset + done)) := by
  have sizeLe := chunkLen_le_size disk (req.size - done) (req.offset + done)
  have doneLe := within.done_le
  refine ⟨by omega, ?_, ?_, ?_⟩
  · simp only [WriteLocals.advance, within.size_eq, within.chunk_eq]
    omega
  · simp only [WriteLocals.advance, within.offset_eq, within.chunk_eq]
    omega
  simp only [WriteLocals.advance, within.bytesWritten_eq, within.chunk_eq]
  omega

end WriteLocals

section Writers

variable {Writer : Type} [DecidableEq Writer] {fuel address : ℕ} {inode : Inode}
  {requests : Writer → WriteRequest} {disk : InodeDisk} {writer : Writer}
  {start : Concurrent Writer WritePc Fs} {next : WritePc}

def WriteRequest.Covers (request : WriteRequest) (index : ℕ) : Prop :=
  request.offset ≤ index ∧ index < request.offset + request.size

def writeAction (fuel address : ℕ) (requests : Writer → WriteRequest) :
    Action Writer Unit WritePc Fs :=
  fun writer _ pc fs =>
    (writeStep (freeMapAllocate fuel) address (requests writer) pc fs).toOption

/-- Every writer is about to call `inode_write_at` for the same open file, each with a range of
its own inside the file. -/
structure StartsWriting (address : ℕ) (inode : Inode) (requests : Writer → WriteRequest)
    (state : Concurrent Writer WritePc Fs) : Prop where
  isOpen : state.shared.inodes address = some inode
  wellFormed : inode.data.WellFormed state.shared.device
  inside : ∀ writer, (requests writer).offset + (requests writer).size ≤ inode.data.len
  disjoint : ∀ writer other index, writer ≠ other → (requests writer).Covers index →
    ¬ (requests other).Covers index
  entry : ∀ writer, state.locals writer = .entry

/-- All that was written is there, and nothing else has changed. -/
structure LosesNothing (disk : InodeDisk) (requests : Writer → WriteRequest)
    (before after : Block) : Prop where
  written : ∀ writer index, index < (requests writer).size →
    disk.contents after ((requests writer).offset + index) = (requests writer).buffer index
  kept : ∀ index, index < disk.len → (∀ writer, ¬ (requests writer).Covers index) →
    disk.contents after index = disk.contents before index
  sectors_eq : ∀ sector, (∀ block, block < disk.blockCnt → disk.dataSector block ≠ sector) →
    after.sectors sector = before.sectors sector

/-- The step does not meet the two windows of `inode_write_at`: a sector that is written back
still holds what the writer has read, and the bounce buffer is there when it is needed. Nor are
writes to the file denied. -/
def KeepsSector (address : ℕ) (state : Concurrent Writer WritePc Fs) (writer : Writer)
    (_choice : Unit) : Prop :=
  match state.locals writer with
  | .denyCheck => ∀ inode ∈ state.shared.inodes address, inode.denyWriteCnt = 0
  | .loop vars => 0 < vars.size → vars.bounce = false →
      (vars.offset % 512 ≠ 0 ∨ vars.size < 512) → state.shared.mallocs 0 = true
  | .blockWrite _ (some sector) _ _ (some old) =>
    state.shared.device.sectors sector.toNat = old
  | _ => True

/-- Every writer has written the first `done` bytes of its range, and nothing else has changed. -/
structure Landed (disk : InodeDisk) (requests : Writer → WriteRequest) (before after : Block)
    (done : Writer → ℕ) : Prop where
  done_le : ∀ writer, done writer ≤ (requests writer).size
  size_eq : after.size = before.size
  written : ∀ writer index, index < done writer →
    disk.contents after ((requests writer).offset + index) = (requests writer).buffer index
  kept : ∀ index, index < disk.blockCnt * 512 →
    (∀ writer, index < (requests writer).offset ∨
      (requests writer).offset + done writer ≤ index) →
    disk.contents after index = disk.contents before index
  sectors_eq : ∀ sector, (∀ block, block < disk.blockCnt → disk.dataSector block ≠ sector) →
    after.sectors sector = before.sectors sector

lemma Landed.overwrite {start pre after : Block} {done : Writer → ℕ} {chunk : ℕ}
  (landed : Landed disk requests start pre done)
  (fits : done writer + chunk ≤ (requests writer).size)
  (inside : ∀ writer, (requests writer).offset + (requests writer).size ≤ disk.blockCnt * 512)
  (disjoint : ∀ writer other index, writer ≠ other → (requests writer).Covers index →
    ¬ (requests other).Covers index)
  (overwritten : Overwritten disk pre after ((requests writer).offset + done writer) chunk
    ((requests writer).rest (done writer))) :
  Landed disk requests start after (update done writer (done writer + chunk)) where
  done_le other := by
    by_cases same : other = writer
    · subst same
      rwa [update_self]
    rw [update_of_ne same]
    exact landed.done_le other
  size_eq := overwritten.size_eq.trans landed.size_eq
  written other index indexLt := by
    by_cases same : other = writer
    · subst same
      rw [update_self] at indexLt
      have positionLt := inside other
      rw [overwritten.contents_eq _ (by omega)]
      by_cases fresh : done other ≤ index
      · rw [overlay_inside (by omega) (by omega), WriteRequest.rest]
        congr 1
        omega
      rw [overlay_outside (by omega)]
      exact landed.written other index (by omega)
    rw [update_of_ne same] at indexLt
    have otherLe := landed.done_le other
    have positionLt := inside other
    have foreign := disjoint other writer ((requests other).offset + index) same
      ⟨by omega, by omega⟩
    simp only [WriteRequest.Covers] at foreign
    rw [overwritten.contents_eq _ (by omega), overlay_outside (by omega)]
    exact landed.written other index indexLt
  kept index indexLt untouched := by
    have own := untouched writer
    rw [update_self] at own
    rw [overwritten.contents_eq _ indexLt, overlay_outside (by omega)]
    refine landed.kept index indexLt ?_
    intro other
    by_cases same : other = writer
    · subst same
      omega
    have untouchedOther := untouched other
    rwa [update_of_ne same] at untouchedOther
  sectors_eq sec foreign :=
    (overwritten.sectors_eq sec foreign).trans (landed.sectors_eq sec foreign)

def Advances (disk : InodeDisk) (request : WriteRequest) (done : ℕ) (before after : Fs)
    (next : WritePc) : Prop :=
  ∃ chunk, done + chunk ≤ request.size ∧ next.Done disk request (done + chunk) ∧
    after.inodes = before.inodes ∧
    Overwritten disk before.device after.device (request.offset + done) chunk (request.rest done)

lemma Advances.still (doneLe : done ≤ req.size) (isDone : next.Done disk req done)
  (inodesEq : after.inodes = pre.inodes) (devEq : after.device = pre.device) :
  Advances disk req done pre after next := by
  refine ⟨0, doneLe, isDone, inodesEq, ?_⟩
  rw [devEq]
  exact .refl _ _ _ _

section Steps

variable {vars : WriteLocals}

lemma startChunk_advances (within : vars.InChunk disk req done sectorIdx chunk)
  (buffered : vars.bounce = false → (vars.offset % 512 ≠ 0 ∨ vars.size < 512) →
    pre.mallocs 0 = true) (inside : req.offset + req.size ≤ disk.len)
  (stepped : startChunk req vars sectorIdx chunk pre = .ok (next, after)) :
  Advances disk req done pre after next := by
  have chunkEq := within.chunk_eq
  have secOfsEq := within.toAt.sectorOfs_eq
  unfold startChunk at stepped
  simp only [secOfsEq, within.toAt.source_eq] at stepped
  split at stepped
  · next full =>
      cases stepped
      refine .still within.done_le ⟨within, ?_⟩ rfl rfl
      intro sec _
      apply Sector.ofBytes_congr
      intro idx idxLt
      rw [overlay_inside (by omega) (by omega)]
      congr 1
      omega
  next part =>
    rcases bind_eq_ok stepped with ⟨ready, mid, bounced, rest⟩
    have isReady : ready = true ∧ mid.inodes = pre.inodes ∧ mid.device = pre.device := by
      cases held : vars.bounce with
      | true =>
        rw [held] at bounced
        cases bounced
        exact ⟨rfl, rfl, rfl⟩
      | false =>
        rw [held] at bounced
        cases bounced
        refine ⟨buffered held ?_, rfl, rfl⟩
        have ofsEq := within.offset_eq
        have sizeEq := within.size_eq
        simp only [chunkLen, blockSectorSize] at part chunkEq
        omega
    rcases isReady with ⟨rfl, inodesEq, devEq⟩
    have fits := chunkLen_fits disk (req.size - done) (req.offset + done)
    rw [if_pos rfl, if_pos (by simp only [blockSectorSize] at *; omega)] at rest
    cases rest
    exact .still within.done_le { within with } inodesEq devEq

lemma blockWrite_advances {data : Sector} {old : Option Sector}
  (wf : disk.WellFormed pre.device) (inside : req.offset + req.size ≤ disk.len)
  (arrived : (WritePc.blockWrite vars sectorIdx chunk data old).Done disk req done)
  (unchanged : ∀ sec read, sectorIdx = some sec → old = some read →
    pre.device.sectors sec.toNat = read)
  (written : blockWrite sectorIdx data pre = .ok ((), after)) :
  Advances disk req done pre after (.loop (vars.advance chunk)) := by
  rcases arrived with ⟨within, dataEq⟩
  rcases blockWrite_eq_ok written with ⟨num, isSec, _, rfl⟩
  have advanced := within.advance
  have more := within.more
  have lenLe := wf.toReadable.len_le
  rcases disk.sectorAt_eq_some (show (req.offset + done) / 512 < 125 by omega) with
    ⟨sec, sectorAt, numEq⟩
  have sameSec : num = sec := by
    have := within.sector_eq
    rw [isSec, sectorAt] at this
    exact Option.some.inj this
  subst sameSec
  rw [dataEq (pre.device.sectors num.toNat)
    fun read isOld => unchanged num read isSec isOld, numEq]
  exact ⟨_, advanced.done_le, advanced, rfl,
    overwritten_writeChunk wf _ (by omega) (chunkLen_fits _ _ _)⟩

lemma writeStep_advances (isOpen : pre.inodes address = some inode)
  (wellFormed : inode.data.WellFormed pre.device)
  (inside : req.offset + req.size ≤ inode.data.len) (doneLe : done ≤ req.size)
  (arrived : pc.Done inode.data req done)
  (keeps : KeepsSector address ⟨fun _ : Unit => pc, pre⟩ () ())
  (stepped : writeStep allocate address req pc pre = .ok (next, after)) :
  Advances inode.data req done pre after next := by
  cases pc with
  | entry =>
    rcases bind_eq_ok stepped with ⟨allocated, middle, asked, rest⟩
    cases asked
    split at rest
    · cases rest
      exact .still doneLe arrived rfl rfl
    · cases rest
  | denyCheck =>
    have allowed : inode.denyWriteCnt = 0 := keeps inode isOpen
    rw [writeStep, bind_of_ok (derefInode_of_some isOpen), if_neg (by simp [allowed])] at stepped
    cases stepped
    cases arrived
    exact .still doneLe ⟨doneLe, rfl, rfl, rfl⟩ rfl rfl
  | loop vars =>
    have sizeEq := arrived.size_eq
    rw [writeStep] at stepped
    split at stepped
    · next more =>
        have lenLe := wellFormed.toReadable.len_le
        have left : done < req.size := by omega
        have chunkPos : 0 < chunkLen inode.data (req.size - done) (req.offset + done) :=
          chunkLen_pos (by omega) (by omega)
        have within : vars.InChunk inode.data req done
            (inode.data.sectorAt ((req.offset + done) / 512))
            (chunkSize inode vars.size vars.offset) := by
          refine ⟨arrived, left, rfl, ?_⟩
          rw [sizeEq, arrived.offset_eq, chunkSize_eq wellFormed.toReadable _ (by omega)]
        have located := byteToSector_direct inode
          (show (req.offset + done) / 512 ≤ 122 by omega) pre
        rw [← arrived.offset_eq] at located
        rw [bind_of_ok (derefInode_of_some isOpen), bind_of_ok located] at stepped
        simp only [allocatePastEnd] at stepped
        rw [if_neg (by rw [within.chunk_eq]; omega), pure_bind_apply] at stepped
        exact startChunk_advances within (keeps more) inside stepped
    cases stepped
    exact .still doneLe (show done = req.size by omega) rfl rfl
  | blockRead vars sectorIdx chunk =>
    rcases bind_eq_ok stepped with ⟨old, middle, read, rest⟩
    rcases bind_eq_ok rest with ⟨data, last, copied, done⟩
    cases done
    rcases blockRead_eq_ok read with ⟨_, _, _, _, rfl⟩
    have chunkEq := arrived.chunk_eq
    rw [copyIntoSector, if_neg (by omega)] at copied
    cases copied
    refine .still doneLe ⟨arrived, ?_⟩ rfl rfl
    intro sector isOld
    rw [isOld old rfl, arrived.toAt.source_eq, arrived.toAt.sectorOfs_eq, chunkEq]
    rfl
  | blockWrite vars sectorIdx chunk data old =>
    rcases bind_eq_ok stepped with ⟨⟨⟩, middle, written, rest⟩
    cases rest
    refine blockWrite_advances wellFormed inside arrived ?_ written
    rintro sector read rfl rfl
    exact keeps
  | returned count =>
    cases stepped
    exact .still doneLe arrived rfl rfl

end Steps

/-- The invariant of a run: the file is still open, and each writer has written what it has
done so far. -/
def WritesInPlace (address : ℕ) (inode : Inode) (requests : Writer → WriteRequest)
    (start : Block) (state : Concurrent Writer WritePc Fs) : Prop :=
  state.shared.inodes address = some inode ∧
  ∃ done : Writer → ℕ, Landed inode.data requests start state.shared.device done ∧
    ∀ writer, (state.locals writer).Done inode.data (requests writer) (done writer)

omit [DecidableEq Writer] in
lemma writesInPlace_of_starts (starts : StartsWriting address inode requests start) :
  WritesInPlace address inode requests start.shared.device start := by
  refine ⟨starts.isOpen, fun _ => 0, ?_, ?_⟩
  · exact ⟨fun _ => Nat.zero_le _, rfl, fun _ _ idxLt => absurd idxLt (Nat.not_lt_zero _),
      fun _ _ _ => rfl, fun _ _ => rfl⟩
  intro writer
  rw [starts.entry writer]
  rfl

lemma WritesInPlace.put {st : Concurrent Writer WritePc Fs}
  (starts : StartsWriting address inode requests start)
  (inPlace : WritesInPlace address inode requests start.shared.device st)
  (keeps : KeepsSector address st writer ())
  (acted : writeAction fuel address requests writer () (st.locals writer) st.shared =
    some (next, after)) :
  WritesInPlace address inode requests start.shared.device (st.put writer next after) := by
  rcases inPlace with ⟨isOpen, done, landed, arrived⟩
  have wf := starts.wellFormed.of_size_eq landed.size_eq
  have stepped := eq_ok_of_toOption acted
  rcases writeStep_advances isOpen wf (starts.inside writer) (landed.done_le writer)
    (arrived writer) keeps stepped with ⟨chunk, fits, nextDone, inodesEq, overwritten⟩
  refine ⟨by rw [Concurrent.put_shared, inodesEq, isOpen],
    update done writer (done writer + chunk), ?_, ?_⟩
  · refine landed.overwrite fits ?_ starts.disjoint overwritten
    intro other
    have := starts.inside other
    rw [starts.wellFormed.toReadable.blockCnt_eq]
    omega
  intro other
  by_cases same : other = writer
  · subst same
    rw [Concurrent.put_locals_self, update_self]
    exact nextDone
  rw [Concurrent.put_locals_of_ne _ _ same, update_of_ne same]
  exact arrived other

/-- Writers of disjoint ranges lose nothing in a run that keeps every sector from being read to
being written back. -/
theorem losesNothing_of_reached {start state : Concurrent Writer WritePc Fs}
    (starts : StartsWriting address inode requests start)
    (reached : Reachable (· = start)
      (Concurrent.Step (writeAction fuel address requests) (KeepsSector address)) state)
    (finished : ∀ writer, ∃ count, state.locals writer = .returned count) :
    LosesNothing inode.data requests start.shared.device state.shared.device := by
  have inPlace : WritesInPlace address inode requests start.shared.device state := by
    refine Concurrent.invariant ?_ ?_ reached
    · rintro state rfl
      exact writesInPlace_of_starts starts
    intro state writer _ next after held keeps acted
    exact held.put starts keeps acted
  rcases inPlace with ⟨_, done, landed, arrived⟩
  have all : ∀ writer, done writer = (requests writer).size := by
    intro writer
    rcases finished writer with ⟨count, isReturned⟩
    have := arrived writer
    rwa [isReturned] at this
  refine ⟨?_, ?_, landed.sectors_eq⟩
  · intro writer index indexLt
    exact landed.written writer index (by rw [all]; exact indexLt)
  intro index indexLt uncovered
  refine landed.kept index ?_ ?_
  · rw [starts.wellFormed.toReadable.blockCnt_eq]
    omega
  intro writer
  have := uncovered writer
  rw [WriteRequest.Covers] at this
  rw [all]
  omega

instance (address : ℕ) (state : Concurrent Writer WritePc Fs) (writer : Writer) (choice : Unit) :
    Decidable (KeepsSector address state writer choice) := by
  unfold KeepsSector
  split <;> infer_instance

end Writers

def WritePc.result : WritePc → Option ℤ
  | .returned count => some count
  | _ => none

lemma WritePc.eq_returned (isResult : pc.result = some count) : pc = .returned count := by
  cases pc with
  | returned returned =>
    cases isResult
    rfl
  | _ => cases isResult

def neighbours (writer : Fin 2) : WriteRequest where
  buffer := fun _ => if writer = 0 then 65 else 66
  size := 1
  offset := writer

def neighboursStart : Concurrent (Fin 2) WritePc Fs where
  locals := fun _ => .entry
  shared := smallFs 2

lemma startsWriting_neighbours : StartsWriting 0 (smallInode 2) neighbours neighboursStart where
  isOpen := rfl
  wellFormed := smallDisk_wellFormed (by decide) (by decide) (by decide) (by decide)
  inside := by decide
  disjoint writer other idx ne covered := by
    simp only [WriteRequest.Covers, neighbours] at covered ⊢
    omega
  entry _ := rfl

theorem alone_first : ∃ after, Relation.ReflTransGen
    (AloneStep (freeMapAllocate 1) 0 (neighbours 0)) (.entry, smallFs 2) (.returned 1, after) :=
  ⟨_, @inodeWriteAtWith_alone _ _ _ _ _ 1 _ rfl⟩

/-- The first writer is preempted after it has read the sector, and the second writer's byte is
written over by the stale copy. -/
theorem not_losesNothing_neighbours :
    ∃ state : Concurrent (Fin 2) WritePc Fs,
      StartsWriting 0 (smallInode 2) neighbours neighboursStart ∧
      Reachable (· = neighboursStart)
        (Concurrent.Step (writeAction 1 0 neighbours) Concurrent.anyStep) state ∧
      (∀ writer, ∃ count, state.locals writer = .returned count) ∧
      ¬ LosesNothing (smallInode 2).data neighbours neighboursStart.shared.device
        state.shared.device := by
  have ran : (neighboursStart.run (writeAction 1 0 neighbours) Concurrent.anyStep
      [(0, ()), (0, ()), (0, ()), (0, ()), (1, ()), (1, ()), (1, ()), (1, ()), (1, ()), (1, ()),
        (0, ()), (0, ())]).any (fun state =>
      (state.locals 0).result = some 1 ∧ (state.locals 1).result = some 1 ∧
        (smallInode 2).data.contents state.shared.device 1 = 0) = true := by
    decide +kernel
  rcases @Concurrent.reaches_of_run _ _ _ _ _ _ _ (· = neighboursStart) _ _ _ _ rfl ran with
    ⟨state, reached, facts⟩
  simp only [decide_eq_true_eq] at facts
  rcases facts with ⟨first, second, lost⟩
  refine ⟨state, startsWriting_neighbours, reached, ?_, ?_⟩
  · exact Fin.forall_fin_two.mpr ⟨⟨1, WritePc.eq_returned first⟩, ⟨1, WritePc.eq_returned second⟩⟩
  intro losesNothing
  have kept := losesNothing.written 1 0 (by decide)
  exact absurd (lost.symm.trans kept) (by decide)

/-- Writing one after the other, both writers keep their byte. -/
theorem losesNothing_neighbours :
    ∃ state : Concurrent (Fin 2) WritePc Fs,
      (∀ writer, ∃ count, state.locals writer = .returned count) ∧
      LosesNothing (smallInode 2).data neighbours neighboursStart.shared.device
        state.shared.device := by
  have ran : (neighboursStart.run (writeAction 1 0 neighbours) (KeepsSector 0)
      [(0, ()), (0, ()), (0, ()), (0, ()), (0, ()), (1, ()), (1, ()), (1, ()), (1, ()), (1, ()),
        (0, ()), (1, ())]).any (fun state =>
      (state.locals 0).result = some 1 ∧ (state.locals 1).result = some 1) = true := by
    decide +kernel
  rcases @Concurrent.reaches_of_run _ _ _ _ _ _ _ (· = neighboursStart) _ _ _ _ rfl ran with
    ⟨state, reached, facts⟩
  simp only [decide_eq_true_eq] at facts
  rcases facts with ⟨first, second⟩
  have finished : ∀ writer, ∃ count, state.locals writer = .returned count :=
    Fin.forall_fin_two.mpr ⟨⟨1, WritePc.eq_returned first⟩, ⟨1, WritePc.eq_returned second⟩⟩
  exact ⟨state, finished, losesNothing_of_reached startsWriting_neighbours reached finished⟩

end Pintos
