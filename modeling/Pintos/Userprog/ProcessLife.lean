import Pintos.Library.Reachability
import Pintos.Userprog.ProcessFiles

/-!
# A process gives its files back

The life of a process, from `process_execute` in its creator to its end, among
other processes that open and close files of their own. What the others hold is
part of the state: between two steps of the process they may do anything to the
file system that the change of their holdings accounts for.

A process that was executed by one with a current directory, makes only calls
that leave nothing open behind its back, and ends through `exit`, has given back
everything it held. Every other way to end keeps its files and its executable
open, and the executable write-protected.
-/

namespace Pintos.Files

open Pintos.Computation

/-- A process that `thread_create` has made and `load` has not yet loaded, one that runs, and one
that has terminated. -/
inductive Stage
  | created (thread : ThreadFiles)
  | running (thread : ThreadFiles)
  | ended

namespace Stage

def thread : Stage → Option ThreadFiles
  | created thread => some thread
  | running thread => some thread
  | ended => none

def withThread : Stage → ThreadFiles → Stage
  | created _, thread => created thread
  | running _, thread => running thread
  | ended, _ => ended

end Stage

structure Life where
  fs : Fs
  stage : Stage
  others : Holdings ℕ

/-- The ways to `thread_exit` that pass by `exit`: `bad_pointer`, `kill`, and a system call number
the handler does not know. -/
inductive Death
  | badPointer
  | kill
  | unknownCall

inductive LifeLabel
  | assign (fuel : ℕ) (creatorDir : Option Dir)
  | load (fuel : ℕ) (pagedir : Bool) (name : List Byte) (segments : Option ℤ)
  | call (fuel : ℕ) (call : Call)
  | exit (fuel : ℕ)
  | die (death : Death)
  | othersFiles
  | othersDir

inductive LifeStep : Life → LifeLabel → Life → Prop
  /-- The creator sets the current directory in `process_execute`. -/
  | assign {life : Life} {fuel : ℕ} {creatorDir : Option Dir} {thread : ThreadFiles}
      {after : Machine} (alive : life.stage.thread = some thread)
      (unset : thread.currentDir = none)
      (notEmpty : ∀ dir, creatorDir = some dir → dir.empty = false)
      (assigned : assignCurrentDir fuel creatorDir ⟨life.fs, thread⟩ = .ok ((), after)) :
      LifeStep life (.assign fuel creatorDir)
        { life with fs := after.fs, stage := life.stage.withThread after.thread }
  | load {life : Life} {fuel : ℕ} {pagedir success : Bool} {name : List Byte}
      {segments : Option ℤ} {thread : ThreadFiles} {after : Machine}
      (isCreated : life.stage = .created thread)
      (loaded : load fuel pagedir name segments ⟨life.fs, thread⟩ = .ok (success, after)) :
      LifeStep life (.load fuel pagedir name segments)
        { life with fs := after.fs, stage := if success then .running after.thread else .ended }
  | call {life : Life} {fuel : ℕ} {call : Call} {result : Option ℤ} {thread : ThreadFiles}
      {after : Machine} (isRunning : life.stage = .running thread)
      (performed : call.perform fuel ⟨life.fs, thread⟩ = .ok (result, after)) :
      LifeStep life (.call fuel call)
        { life with
          fs := after.fs
          stage := if result.isSome then .running after.thread else .ended }
  | exit {life : Life} {fuel : ℕ} {thread : ThreadFiles} {after : Machine}
      (isRunning : life.stage = .running thread)
      (exited : exit fuel ⟨life.fs, thread⟩ = .ok ((), after)) :
      LifeStep life (.exit fuel) { life with fs := after.fs, stage := .ended }
  | die {life : Life} {death : Death} {thread : ThreadFiles}
      (isRunning : life.stage = .running thread) :
      LifeStep life (.die death) { life with stage := .ended }
  /-- The others use the file system. Whatever the process holds, the counts change by what the
  others come to hold. -/
  | othersFiles {life : Life} {fs : Fs} {others : Holdings ℕ}
      (accounts : ∀ own, life.fs.Holds (life.others + own) → fs.Holds (others + own)) :
      LifeStep life .othersFiles { life with fs := fs, others := others }
  /-- A process that shares the current directory changes it. -/
  | othersDir {life : Life} {thread : ThreadFiles} {old dir : Dir}
      (alive : life.stage.thread = some thread) (shared : thread.currentDir = some old)
      (notEmpty : dir.empty = false) :
      LifeStep life .othersDir
        { life with stage := life.stage.withThread { thread with currentDir := some dir } }

def LoadsOpened (fs : Fs) (fuel : ℕ) (name : List Byte) (segments : Option ℤ) : Prop :=
  ∀ file opened, filesysOpen fuel name fs = .ok (some file, opened) →
    segments ≠ none ∧
    ∀ denied middle moved bytesRead ehdr after,
      fileDenyWrite file opened = .ok (denied, middle) →
      fileRead denied (fun _ => 0) ehdrSize middle = .ok ((moved, bytesRead, ehdr), after) →
      bytesRead = ehdrSize ∧ validEhdr ehdr

section Loading

variable {others : Holdings ℕ} {mach after : Machine} {fuel : ℕ} {name : List Byte}
  {segments : Option ℤ} {dir : Dir} {thr : ThreadFiles} {save : Option File}

lemma Accounted.holds_of_empty (accounted : Accounted others none mach)
  (empty : mach.thread.filePointers = fun _ => none) : mach.fs.Holds others := by
  have holds := accounted.holds
  rw [ThreadFiles.descriptors, empty, Holdings.ofTable_empty, Holdings.ofOption, add_zero,
    add_zero] at holds
  exact holds

lemma load_balances {pagedir success : Bool} (empty : mach.thread.filePointers = fun _ => none)
  (accounted : Accounted others none mach)
  (loadsOpened : pagedir = true → LoadsOpened mach.fs fuel name segments)
  (ran : load fuel pagedir name segments mach = .ok (success, after)) :
  if success then Accounted others after.thread.save after else after.fs.Holds others := by
  cases pagedir with
  | false =>
    cases ran
    exact accounted.holds_of_empty empty
  | true =>
    rcases bind_eq_ok ran with ⟨file, opened, opens, afterOpen⟩
    rcases onFs_eq_ok opens with ⟨fs, opensFile, rfl⟩
    have holds := filesysOpen_holds accounted.holds opensFile
    cases file with
    | none =>
      cases afterOpen
      exact Accounted.holds_of_empty ⟨holds, accounted.tidy.elsewhere _ _, accounted.notEmpty⟩ empty
    | some file =>
      rcases loadsOpened rfl file fs opensFile with ⟨hasSegments, valid⟩
      rcases bind_eq_ok afterOpen with ⟨_, saved, saves, afterSave⟩
      cases saves
      rcases bind_eq_ok afterSave with ⟨denied, mid, denies, afterDeny⟩
      rcases onFs_eq_ok denies with ⟨fsDenied, deniesFile, rfl⟩
      have holdsDenied :=
        fileDenyWrite_holds (filesysOpen_fresh opensFile).2 holds deniesFile
      rcases bind_eq_ok afterDeny with ⟨res, read, reads, afterRead⟩
      rcases res with ⟨moved, bytesRead, ehdr⟩
      rcases onFs_eq_ok reads with ⟨fsRead, readsFile, rfl⟩
      have sameHoldings := congrArg File.holdings (fileRead_unmoved readsFile)
      have holdsRead := holdsDenied.of_onlyData (fileRead_onlyData _ _ _ readsFile)
      rcases bind_eq_ok afterRead with ⟨_, savedAgain, savesAgain, afterSaveAgain⟩
      cases savesAgain
      simp only [if_pos (valid _ _ _ _ _ _ deniesFile readsFile)] at afterSaveAgain
      cases segments with
      | none => exact absurd rfl hasSegments
      | some pos =>
        cases afterSaveAgain
        change moved.holdings = denied.holdings at sameHoldings
        rw [← sameHoldings] at holdsRead
        exact ⟨holdsRead, accounted.tidy.elsewhere _ _, accounted.notEmpty⟩

lemma loadsOpened_of_load (ran : load fuel true name segments mach = .ok (true, after)) :
  LoadsOpened mach.fs fuel name segments := by
  intro file opened opensFile
  unfold load at ran
  rw [if_pos rfl] at ran
  have opens : onFs (filesysOpen fuel name) mach = .ok (some file, { mach with fs := opened }) := by
    rw [onFs, opensFile]
  rw [bind_of_ok opens] at ran
  rcases bind_eq_ok ran with ⟨_, saved, saves, afterSave⟩
  cases saves
  rcases bind_eq_ok afterSave with ⟨denied, mid, denies, afterDeny⟩
  rcases onFs_eq_ok denies with ⟨fsDenied, deniesFile, rfl⟩
  rcases bind_eq_ok afterDeny with ⟨res, read, reads, afterRead⟩
  rcases onFs_eq_ok reads with ⟨fsRead, readsFile, rfl⟩
  rcases bind_eq_ok afterRead with ⟨_, savedAgain, savesAgain, afterSaveAgain⟩
  split at afterSaveAgain
  · next valid =>
      refine ⟨?_, ?_⟩
      · rintro rfl
        cases afterSaveAgain
      intro otherDenied otherMid moved bytesRead ehdr last otherDenies otherReads
      rw [deniesFile] at otherDenies
      cases otherDenies
      rw [readsFile] at otherReads
      cases otherReads
      exact valid
  · cases afterSaveAgain

lemma assignCurrentDir_keeps (notEmpty : dir.empty = false)
  (ran : assignCurrentDir fuel (some dir) mach = .ok ((), after)) :
  Keeps others mach after ∧ after.thread.filePointers = mach.thread.filePointers := by
  cases ran
  refine ⟨⟨rfl, fun save accounted => ⟨accounted.holds, accounted.tidy.elsewhere _ _, ?_⟩⟩, rfl⟩
  rintro other ⟨⟩
  exact notEmpty

lemma Accounted.of_others {fs pre : Fs} {changed : Holdings ℕ}
  (accounted : Accounted others save ⟨pre, thr⟩)
  (accounts : ∀ own, pre.Holds (others + own) → fs.Holds (changed + own)) :
  Accounted changed save ⟨fs, thr⟩ where
  holds := by
    rw [add_assoc]
    refine accounts _ ?_
    rw [← add_assoc]
    exact accounted.holds
  tidy := accounted.tidy
  notEmpty := accounted.notEmpty

lemma Accounted.withDir {fs : Fs} (accounted : Accounted others save ⟨fs, thr⟩)
  (notEmpty : dir.empty = false) :
  Accounted others save ⟨fs, { thr with currentDir := some dir }⟩ := by
  refine ⟨accounted.holds, accounted.tidy.elsewhere _ _, ?_⟩
  rintro other ⟨⟩
  exact notEmpty

end Loading

namespace Life

def Starts (life : Life) : Prop :=
  life.stage = .created newThread ∧ life.fs.Holds life.others

/-- An ended process leaves the counts to the others. -/
def ReleasesFiles (life : Life) : Prop :=
  life.stage = .ended → ∀ address,
    life.fs.openAt address = life.others.uses address ∧
      life.fs.denyAt address = life.others.locks address

/-- The step leaves nothing open behind the back of the process: its creator has a current
directory, its executable loads once it is open, its calls leave nothing open, and it ends through
`exit`. -/
def GivesBack (life : Life) : LifeLabel → Prop
  | .assign _ creatorDir => creatorDir ≠ none
  | .load fuel pagedir name segments => pagedir = true → LoadsOpened life.fs fuel name segments
  | .call fuel call =>
    ∀ thread, life.stage = .running thread → call.LeavesNothing fuel ⟨life.fs, thread⟩
  | .exit _ => True
  | .die _ => False
  | .othersFiles => True
  | .othersDir => True

def Lived (allowed : Life → LifeLabel → Prop) : Life → Prop :=
  Reachable Starts fun life after => ∃ label, LifeStep life label after ∧ allowed life label

def Balanced (life : Life) : Prop :=
  match life.stage with
  | .created thread =>
    thread.filePointers = (fun _ => none) ∧ thread.save = none ∧
      Accounted life.others none ⟨life.fs, thread⟩
  | .running thread => Accounted life.others thread.save ⟨life.fs, thread⟩
  | .ended => life.fs.Holds life.others

variable {life after : Life} {label : LifeLabel}

lemma balanced_of_starts (starts : life.Starts) : life.Balanced := by
  rcases starts with ⟨isNew, holds⟩
  simp only [Balanced, isNew]
  refine ⟨rfl, rfl, ?_, newThread_tidy, ?_⟩
  · simpa [ThreadFiles.descriptors, newThread, Holdings.ofOption] using holds
  intro dir isDir
  simp [newThread] at isDir

lemma Balanced.step (balanced : life.Balanced) (taken : LifeStep life label after)
  (givesBack : life.GivesBack label) : after.Balanced := by
  cases taken with
  | @assign fuel creatorDir thr mach alive unset notEmpty assigned =>
    cases creatorDir with
    | none => exact absurd rfl givesBack
    | some dir =>
      rcases assignCurrentDir_keeps (notEmpty dir rfl) assigned with ⟨keeps, samePtrs⟩
      cases isStage : life.stage with
      | created former =>
        rw [isStage] at alive
        cases alive
        simp only [Balanced, isStage] at balanced
        rcases balanced with ⟨empty, unsaved, accounted⟩
        exact ⟨samePtrs.trans empty, keeps.save_eq.trans unsaved, keeps.accounted none accounted⟩
      | running former =>
        rw [isStage] at alive
        cases alive
        simp only [Balanced, isStage] at balanced
        have accounted := keeps.accounted _ balanced
        rw [← keeps.save_eq] at accounted
        exact accounted
      | ended =>
        rw [isStage] at alive
        cases alive
  | @load fuel pagedir success name segments thr mach isCreated loaded =>
    simp only [Balanced, isCreated] at balanced
    rcases balanced with ⟨empty, _, accounted⟩
    have balances := load_balances empty accounted givesBack loaded
    cases success with
    | true => exact balances
    | false => exact balances
  | @call fuel call res thr mach isRunning done =>
    simp only [Balanced, isRunning] at balanced
    rcases perform_keeps (givesBack thr isRunning) done with ⟨keeps, continues⟩
    cases res with
    | none => exact absurd rfl continues
    | some val =>
      have accounted := keeps.accounted _ balanced
      rw [← keeps.save_eq] at accounted
      exact accounted
  | @exit fuel thr mach isRunning exited =>
    simp only [Balanced, isRunning] at balanced
    exact exit_releases balanced exited
  | die isRunning => exact givesBack.elim
  | @othersFiles fs others accounts =>
    cases isStage : life.stage with
    | created thr =>
      simp only [Balanced, isStage] at balanced ⊢
      rcases balanced with ⟨empty, unsaved, accounted⟩
      exact ⟨empty, unsaved, accounted.of_others accounts⟩
    | running thr =>
      simp only [Balanced, isStage] at balanced ⊢
      exact balanced.of_others accounts
    | ended =>
      simp only [Balanced, isStage] at balanced ⊢
      simpa using accounts 0 (by simpa using balanced)
  | @othersDir thr old dir alive shared notEmpty =>
    cases isStage : life.stage with
    | created former =>
      rw [isStage] at alive
      cases alive
      simp only [Balanced, isStage] at balanced
      rcases balanced with ⟨empty, unsaved, accounted⟩
      exact ⟨empty, unsaved, accounted.withDir notEmpty⟩
    | running former =>
      rw [isStage] at alive
      cases alive
      simp only [Balanced, isStage] at balanced
      exact balanced.withDir notEmpty
    | ended =>
      rw [isStage] at alive
      cases alive

def sampleEhdr : List Byte :=
  [127, 69, 76, 70, 1, 1, 1, 0, 0, 0, 0, 0, 0, 0, 0, 0, 2, 0, 3, 0, 1, 0, 0, 0, 0, 0, 0, 0, 0, 0,
    0, 0, 0, 0, 0, 0, 0, 0, 0, 0, 0, 0, 32, 0, 0, 0, 0, 0, 0, 0, 0, 0]

def sampleEntry : List Byte := [2, 0, 0, 0, 97, 0, 0, 0, 0, 0, 0, 0, 0, 0, 0, 0, 0, 0, 0, 1]

def programFs : Fs :=
  { smallFs 52 with
    device := ((smallFs 52).device.write 3 (.ofBytes fun index => sampleEhdr.getD index 0)).write 5
      (.ofBytes fun index => sampleEntry.getD index 0) }

def programLife : Life where
  fs := programFs
  stage := .created newThread
  others := .single 0 false + .single 1 false

lemma programLife_starts : programLife.Starts := by
  refine ⟨rfl, ?_, ?_, ?_⟩
  · intro addr beyond
    have notFirst : addr ≠ 0 := by
      rintro rfl
      exact absurd beyond (by decide)
    have notSecond : addr ≠ 1 := by
      rintro rfl
      exact absurd beyond (by decide)
    simp [programLife, programFs, smallFs, notFirst, notSecond]
  · intro addr
    by_cases isFirst : addr = 0
    · subst isFirst
      decide
    by_cases isSecond : addr = 1
    · subst isSecond
      decide
    · simp [programLife, programFs, smallFs, Fs.openAt, isFirst, isSecond]
  intro addr
  by_cases isFirst : addr = 0
  · subst isFirst
    decide
  by_cases isSecond : addr = 1
  · subst isSecond
    decide
  · simp [programLife, programFs, smallFs, Fs.denyAt, isFirst, isSecond]

end Life

end Pintos.Files
