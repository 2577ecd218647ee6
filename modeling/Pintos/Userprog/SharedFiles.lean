import Pintos.Filesys.FormatReturns
import Pintos.Library.Runs
import Pintos.Userprog.Files

/-!
# Descriptor tables of several processes

The elements of `file_pointers` are pointers to `struct file` objects that
`file_open` allocates and `file_close` frees. All processes share the memory the
objects are in, and the file system. An object is allocated where there is none,
which may be where one has been freed.

A call has two parts. It asks something of the file system, and it changes the
tables and the objects, depending on the answer. In every run each object is in
one element of one table only. So what the descriptors of a process designate
changes as it does when the process makes its calls alone and gets the same
answers.
-/

namespace Pintos.Files

open Pintos.Computation Function

/-- The fields `file_pointers` and `fd_index` of `struct thread`. -/
structure Table where
  filePointers : Fin 130 → Option ℕ
  fdIndex : ℕ

def newTable : Table where
  filePointers _ := none
  fdIndex := 2

/-- The `struct file` objects that are allocated, and the tables that refer to them. -/
structure Tables (Process : Type) where
  files : ℕ → Option File
  tables : Process → Table

/-- The calls on descriptors. For `open` the address is where a new object comes to lie; `read` and
`write` have the arguments of `Call`. -/
inductive FileCall
  | openFile (name : List Byte) (address : ℕ)
  | close (fd : ℤ)
  | read (fd : ℤ) (buffer : Bool) (size : ℤ)
  | write (fd : ℤ) (buffer : Option (ℕ → Byte)) (size : ℤ) (isDir : Bool)
  | seek (fd position : ℤ)
  | tell (fd : ℤ)

/-- What the file system answers: the result of `filesys_open`, a null pointer or the address of a
new object with its contents, and the number of bytes that were read or written. -/
inductive Answer
  | opened (result : Option (ℕ × File))
  | bytes (count : ℤ)
  | nothing

inductive Change
  | keep
  | install (slot : Fin 130) (address : ℕ) (file : File)
  | clear (slot : Fin 130)
  | release (slot : Fin 130) (address : ℕ)
  | move (address : ℕ) (file : File)

lemma toNat_slot_lt {fd : ℤ} (inside : 0 ≤ fd ∧ fd < 130) : fd.toNat < 130 := by omega

def slotAt (fd : ℤ) : Except Halt (Fin 130) :=
  if inside : 0 ≤ fd ∧ fd < 130 then .ok ⟨fd.toNat, toNat_slot_lt inside⟩ else .error .badIndex

def Table.Checked (table : Table) (fd : ℤ) : Prop := 2 ≤ fd ∧ fd ≤ table.fdIndex
deriving Decidable

def onFile {Value : Type} (action : Kernel Value) (fs : Fs) : Except Halt (Value × Fs) :=
  match action fs with
  | .ok outcome => .ok outcome
  | .error reason => .error (.kernel reason)

namespace Tables

variable {Process : Type}

/-- The object that `file_pointers[fd]` refers to, with its index and its address; `none` for a
null pointer. A pointer to an object that has been freed is a fault. -/
def fileAt (state : Tables Process) (process : Process) (fd : ℤ) :
    Except Halt (Option (Fin 130 × ℕ × File)) :=
  match slotAt fd with
  | .error reason => .error reason
  | .ok slot =>
    match (state.tables process).filePointers slot with
    | none => .ok none
    | some address =>
      match state.files address with
      | none => .error (.kernel .fault)
      | some file => .ok (some (slot, address, file))

def derefAt (state : Tables Process) (process : Process) (fd : ℤ) :
    Except Halt (Fin 130 × ℕ × File) :=
  match state.fileAt process fd with
  | .error reason => .error reason
  | .ok none => .error .nullFile
  | .ok (some found) => .ok found

def openChange (state : Tables Process) (process : Process) (result : Option (ℕ × File)) :
    Except Halt Change :=
  (slotAt (state.tables process).fdIndex).bind fun slot =>
    match result with
    | none => .ok (.clear slot)
    | some (address, file) =>
      if (state.files address).isSome then .error (.kernel .fault)
      else .ok (.install slot address file)

def closeChange (state : Tables Process) (process : Process) (fd : ℤ) : Except Halt Change :=
  if (state.tables process).Checked fd then
    (state.fileAt process fd).map fun found =>
      match found with
      | none => .keep
      | some (slot, address, _) => .release slot address
  else .ok .keep

def advanceChange (state : Tables Process) (process : Process) (fd : ℤ) (right : Bool) (count : ℤ) :
    Except Halt Change :=
  if fd > 1 ∧ fd ≤ (state.tables process).fdIndex ∧ right then
    (state.derefAt process fd).map fun found =>
      .move found.2.1 { found.2.2 with pos := found.2.2.pos + count }
  else .ok .keep

def seekChange (state : Tables Process) (process : Process) (fd position : ℤ) :
    Except Halt Change :=
  if (state.tables process).Checked fd then
    match state.derefAt process fd with
    | .error reason => .error reason
    | .ok (_, address, file) =>
      if position ≥ 0 then .ok (.move address { file with pos := position })
      else .error .assertion
  else .ok .keep

def tellChange (state : Tables Process) (process : Process) (fd : ℤ) : Except Halt Change :=
  if (state.tables process).Checked fd then (state.derefAt process fd).map fun _ => .keep
  else .ok .keep

def change (state : Tables Process) (process : Process) : FileCall → Answer → Except Halt Change
  | .openFile _ _, .opened result => state.openChange process result
  | .close fd, _ => state.closeChange process fd
  | .read fd buffer _, .bytes count => state.advanceChange process fd buffer count
  | .write fd buffer _ isDir, .bytes count =>
    state.advanceChange process fd (buffer.isSome && !isDir) count
  | .seek fd position, _ => state.seekChange process fd position
  | .tell fd, _ => state.tellChange process fd
  | .openFile _ _, _ | .read _ _ _, _ | .write _ _ _ _, _ => .ok .keep

def consult (state : Tables Process) (process : Process) (fuel : ℕ) :
    FileCall → Fs → Except Halt (Answer × Fs)
  | .openFile name address, fs =>
    (onFile (filesysOpen fuel name) fs).map fun outcome =>
      (.opened (outcome.1.map fun file => (address, file)), outcome.2)
  | .close fd, fs =>
    if (state.tables process).Checked fd then
      match state.fileAt process fd with
      | .error reason => .error reason
      | .ok none => .ok (.nothing, fs)
      | .ok (some (_, _, file)) =>
        (onFile (fileClose fuel (some file)) fs).map fun outcome => (.nothing, outcome.2)
    else .ok (.nothing, fs)
  | .read fd buffer size, fs =>
    if fd > 1 ∧ fd ≤ (state.tables process).fdIndex ∧ buffer then
      match state.derefAt process fd with
      | .error reason => .error reason
      | .ok (_, _, file) =>
        (onFile (fileRead file (fun _ => 0) size) fs).map fun outcome =>
          (.bytes outcome.1.2.1, outcome.2)
    else .ok (.nothing, fs)
  | .write fd buffer size isDir, fs =>
    match buffer with
    | none => .ok (.nothing, fs)
    | some bytes =>
      if fd > 1 ∧ fd ≤ (state.tables process).fdIndex then
        match state.derefAt process fd with
        | .error reason => .error reason
        | .ok (_, _, file) =>
          if isDir then
            (onFile (derefInode file.inode) fs).map fun outcome => (.nothing, outcome.2)
          else
            (onFile (fileWrite fuel file bytes size) fs).map fun outcome =>
              (.bytes outcome.1.2, outcome.2)
      else .ok (.nothing, fs)
  | .seek _ _, fs => .ok (.nothing, fs)
  | .tell _, fs => .ok (.nothing, fs)

variable [DecidableEq Process]

def point (state : Tables Process) (process : Process) (slot : Fin 130) (pointer : Option ℕ) :
    Process → Table :=
  update state.tables process
    { state.tables process with
      filePointers := update (state.tables process).filePointers slot pointer }

def apply (state : Tables Process) (process : Process) : Change → Tables Process
  | .keep => state
  | .install slot address file =>
    { files := update state.files address (some file)
      tables := update state.tables process
        { filePointers :=
            update (state.tables process).filePointers slot (some address)
          fdIndex := (state.tables process).fdIndex + 1 } }
  | .clear slot => { state with tables := state.point process slot none }
  | .release slot address =>
    { files := update state.files address none
      tables := state.point process slot none }
  | .move address file => { state with files := update state.files address (some file) }

def answered (state : Tables Process) (entry : (Process × ℕ × FileCall) × Answer) :
    Except Halt (Unit × Tables Process) :=
  (state.change entry.1.1 entry.1.2.2 entry.2).map fun change =>
    ((), state.apply entry.1.1 change)

def designates (state : Tables Process) (process : Process) (slot : Fin 130) : Option (ℕ × ℤ) :=
  (((state.tables process).filePointers slot).bind state.files).map fun file =>
    (file.inode, file.pos)

section Isolation

variable {state alone : Tables Process} {process other : Process} {change : Change}

structure Sound (state : Tables Process) : Prop where
  allocated : ∀ process slot address,
    (state.tables process).filePointers slot = some address → state.files address ≠ none
  unique : ∀ process slot address other place,
    (state.tables process).filePointers slot = some address →
    (state.tables other).filePointers place = some address → process = other ∧ slot = place

/-- A change is possible for a process: it allocates an object where there is none, and frees or
writes only what the process refers to. -/
def Fits (state : Tables Process) (process : Process) : Change → Prop
  | .keep => True
  | .install _ address _ => state.files address = none
  | .clear _ => True
  | .release slot address => (state.tables process).filePointers slot = some address
  | .move address _ => ∃ slot, (state.tables process).filePointers slot = some address

/-- The objects a process refers to, and no objects of other processes, are there when it is
alone. -/
structure Aside (process : Process) (state alone : Tables Process) : Prop where
  table_eq : alone.tables process = state.tables process
  files_eq : ∀ slot address, (state.tables process).filePointers slot = some address →
    alone.files address = state.files address
  foreign : ∀ other slot address, other ≠ process →
    (state.tables other).filePointers slot = some address → alone.files address = none
  free : ∀ address, state.files address = none → alone.files address = none

section

omit [DecidableEq Process]

lemma fileAt_fits {fd : ℤ} {slot : Fin 130} {address : ℕ} {file : File}
  (found : state.fileAt process fd = .ok (some (slot, address, file))) :
  (state.tables process).filePointers slot = some address := by
  grind [fileAt]

lemma derefAt_fits {fd : ℤ} {slot : Fin 130} {address : ℕ} {file : File}
  (found : state.derefAt process fd = .ok (slot, address, file)) :
  (state.tables process).filePointers slot = some address := by
  have fits := @fileAt_fits Process state process fd
  grind [derefAt]

lemma change_fits {call : FileCall} {answer : Answer}
  (changed : state.change process call answer = .ok change) : state.Fits process change := by
  have file := @fileAt_fits Process state process
  have deref : ∀ {fd found}, state.derefAt process fd = .ok found →
      (state.tables process).filePointers found.1 = some found.2.1 := fun found =>
    derefAt_fits found
  simp only [Tables.change, openChange, closeChange, advanceChange, seekChange, tellChange,
    Except.map, Except.bind] at changed
  grind [Fits, Option.isSome_iff_ne_none]

end

@[simp]
lemma apply_tables_of_ne (change : Change) (ne : other ≠ process) :
  (state.apply process change).tables other = state.tables other := by
  cases change with
  | keep => rfl
  | install slot addr file => exact update_of_ne ne ..
  | clear slot => exact update_of_ne ne ..
  | release slot addr => exact update_of_ne ne ..
  | move addr file => rfl

lemma apply_filePointers (state : Tables Process) (process : Process) (change : Change)
  (other : Process) (slot : Fin 130) :
  ((state.apply process change).tables other).filePointers slot =
    match change with
    | .install place addr _ =>
      if other = process ∧ slot = place then some addr
      else (state.tables other).filePointers slot
    | .clear place | .release place _ =>
      if other = process ∧ slot = place then none
      else (state.tables other).filePointers slot
    | _ => (state.tables other).filePointers slot := by
  by_cases same : other = process
  · subst same
    cases change <;> simp [apply, point, update_apply]
  cases change <;> simp [same]

lemma apply_files (state : Tables Process) (process : Process) (change : Change) (address : ℕ) :
  (state.apply process change).files address =
    match change with
    | .install _ target file | .move target file =>
      if address = target then some file else state.files address
    | .release _ target => if address = target then none else state.files address
    | _ => state.files address := by
  cases change <;> simp [apply, update_apply]

lemma Sound.apply_files_of_ne (sound : state.Sound) (fits : state.Fits process change)
  {slot : Fin 130} {address : ℕ}
  (isPointer : (state.tables other).filePointers slot = some address)
  (differs : other ≠ process) :
  (state.apply process change).files address = state.files address := by
  rcases sound with ⟨allocated, unique⟩
  cases change <;> grind [apply_files, Fits]

lemma Sound.apply (sound : state.Sound) (fits : state.Fits process change) :
  (state.apply process change).Sound := by
  rcases sound with ⟨allocated, unique⟩
  refine ⟨?_, ?_⟩ <;> cases change <;> grind [apply_filePointers, apply_files, Fits]

lemma apply_tables_congr (change : Change) (same : alone.tables process = state.tables process) :
  (alone.apply process change).tables process = (state.apply process change).tables process := by
  cases change with
  | keep => exact same
  | install slot addr file => simp [apply, same]
  | clear slot => simp [apply, point, same]
  | release slot addr => simp [apply, point, same]
  | move addr file => exact same

lemma Aside.of_other (aside : Aside process state alone) (sound : state.Sound)
  (differs : other ≠ process) (fits : state.Fits other change) :
  Aside process (state.apply other change) alone := by
  have table_eq : alone.tables process = (state.apply other change).tables process := by
    rw [apply_tables_of_ne _ differs.symm, aside.table_eq]
  rcases sound with ⟨allocated, unique⟩
  rcases aside with ⟨_, files_eq, foreign, free⟩
  refine ⟨table_eq, ?_, ?_, ?_⟩ <;> cases change <;>
    grind [apply_filePointers, apply_files, Fits]

lemma Aside.of_own (aside : Aside process state alone) (sound : state.Sound)
  (fits : state.Fits process change) :
  Aside process (state.apply process change) (alone.apply process change) := by
  have table_eq := apply_tables_congr change aside.table_eq
  rcases sound with ⟨allocated, unique⟩
  rcases aside with ⟨_, files_eq, foreign, free⟩
  refine ⟨table_eq, ?_, ?_, ?_⟩ <;> cases change <;>
    grind [apply_filePointers, apply_files, Fits]

section Change

variable (aside : Aside process state alone)

include aside

omit [DecidableEq Process]

lemma Aside.fileAt_eq (fd : ℤ) : alone.fileAt process fd = state.fileAt process fd := by
  rw [fileAt, fileAt, aside.table_eq]
  split
  · rfl
  split
  · rfl
  · next isPtr => rw [aside.files_eq _ _ isPtr]

lemma Aside.derefAt_eq (fd : ℤ) : alone.derefAt process fd = state.derefAt process fd := by
  rw [derefAt, derefAt, aside.fileAt_eq]

lemma Aside.openChange_eq {res : Option (ℕ × File)}
  (changed : state.openChange process res = .ok change) :
  alone.openChange process res = .ok change := by
  rcases Performs.bind_eq_ok changed with ⟨slot, isSlot, chosen⟩
  rw [openChange, aside.table_eq, isSlot]
  split at chosen
  · exact chosen
  split at chosen
  · cases chosen
  next isFree =>
    have isNone := aside.free _ (Option.not_isSome_iff_eq_none.mp isFree)
    simp only [isNone]
    exact chosen

lemma Aside.change_eq {call : FileCall} {answer : Answer}
  (changed : state.change process call answer = .ok change) :
  alone.change process call answer = .ok change := by
  have closeEq : ∀ fd, alone.closeChange process fd = state.closeChange process fd := by
    intro fd
    rw [closeChange, closeChange, aside.table_eq, aside.fileAt_eq]
  have advanceEq : ∀ fd right count, alone.advanceChange process fd right count =
      state.advanceChange process fd right count := by
    intro fd right count
    rw [advanceChange, advanceChange, aside.table_eq, aside.derefAt_eq]
  have seekEq : ∀ fd position, alone.seekChange process fd position =
      state.seekChange process fd position := by
    intro fd position
    rw [seekChange, seekChange, aside.table_eq, aside.derefAt_eq]
  have tellEq : ∀ fd, alone.tellChange process fd = state.tellChange process fd := by
    intro fd
    rw [tellChange, tellChange, aside.table_eq, aside.derefAt_eq]
  unfold Tables.change at changed ⊢
  split at changed
  · exact aside.openChange_eq changed
  · exact (closeEq _).trans changed
  · exact (advanceEq _ _ _).trans changed
  · exact (advanceEq _ _ _).trans changed
  · exact (seekEq _ _).trans changed
  · exact (tellEq _).trans changed
  · exact changed
  · exact changed
  · exact changed

end Change

omit [DecidableEq Process] in
lemma Aside.designates_eq (aside : Aside process state alone) (slot : Fin 130) :
  alone.designates process slot = state.designates process slot := by
  rw [designates, designates, aside.table_eq]
  cases isPtr : (state.tables process).filePointers slot with
  | none => rfl
  | some addr => rw [Option.bind_some, Option.bind_some, aside.files_eq slot addr isPtr]

end Isolation

end Tables

structure SharedFiles (Process : Type) where
  fs : Fs
  tables : Tables Process

namespace SharedFiles

variable {Process : Type} [DecidableEq Process]

def step (state : SharedFiles Process) (event : Process × ℕ × FileCall) :
    Except Halt (Answer × SharedFiles Process) :=
  (state.tables.consult event.1 event.2.1 event.2.2 state.fs).bind fun outcome =>
    (state.tables.change event.1 event.2.2 outcome.1).map fun change =>
      (outcome.1, ⟨outcome.2, state.tables.apply event.1 change⟩)

variable {state after start : SharedFiles Process}

lemma step_eq_ok {event : Process × ℕ × FileCall} {answer : Answer}
  (stepped : state.step event = .ok (answer, after)) :
  ∃ change, state.tables.change event.1 event.2.2 answer = .ok change ∧
    after.tables = state.tables.apply event.1 change := by
  rcases Performs.bind_eq_ok stepped with ⟨⟨found, fs⟩, _, answered⟩
  rcases Performs.map_eq_ok answered with ⟨change, changed, same⟩
  cases same
  exact ⟨change, changed, rfl⟩

def Starts (state : SharedFiles Process) : Prop :=
  ∀ process, state.tables.tables process = newTable

section

omit [DecidableEq Process]

lemma Starts.noPointer (starts : start.Starts) (process : Process) (slot : Fin 130)
  (address : ℕ) : (start.tables.tables process).filePointers slot ≠ some address := by
  rw [starts process]
  exact nofun

lemma Starts.sound (starts : start.Starts) : start.tables.Sound where
  allocated process slot address isPointer :=
    absurd isPointer (starts.noPointer process slot address)
  unique process slot address _ _ isPointer _ :=
    absurd isPointer (starts.noPointer process slot address)

lemma Starts.aside (starts : start.Starts) (process : Process) :
  Tables.Aside process start.tables start.tables where
  table_eq := rfl
  files_eq _ _ _ := rfl
  foreign other slot address _ isPointer :=
    absurd isPointer (starts.noPointer other slot address)
  free _ isFree := isFree

end

lemma designates_of_ne {process other : Process} {fuel : ℕ} {call : FileCall} {answer : Answer}
  (sound : state.tables.Sound) (ne : other ≠ process)
  (stepped : state.step (other, fuel, call) = .ok (answer, after)) (slot : Fin 130) :
  after.tables.designates process slot = state.tables.designates process slot := by
  rcases step_eq_ok stepped with ⟨change, changed, isAfter⟩
  have fits := Tables.change_fits changed
  rw [isAfter, Tables.designates, Tables.designates, Tables.apply_tables_of_ne _ ne.symm]
  cases isPtr : (state.tables.tables process).filePointers slot with
  | none => rfl
  | some addr =>
    rw [Option.bind_some, Option.bind_some, sound.apply_files_of_ne fits isPtr ne.symm]

/-- In every run, the descriptors of a process designate what they do when the process makes its
calls alone and gets the same answers, and a descriptor that another process closes next is not
one of them. -/
theorem designates_isolated (starts : start.Starts) {events : List (Process × ℕ × FileCall)}
    {answers : List Answer} (ran : Performs.runAll step events start = .ok (answers, after))
    (process : Process) :
    (∃ units alone, Performs.runAll Tables.answered
        (Performs.ownEvents (fun event => decide (event.1 = process)) events answers)
        start.tables = .ok (units, alone) ∧
      ∀ slot, alone.designates process slot = after.tables.designates process slot) ∧
    ∀ other fuel fd answer next, other ≠ process →
      after.step (other, fuel, .close fd) = .ok (answer, next) →
      ∀ slot, next.tables.designates process slot = after.tables.designates process slot := by
  have aloneToo : ∃ units alone, Performs.runAll Tables.answered
      (Performs.ownEvents (fun event => decide (event.1 = process)) events answers)
      start.tables = .ok (units, alone) ∧
        after.tables.Sound ∧ Tables.Aside process after.tables alone := by
    refine @Performs.runAll_own _ _ _ _ step _ _ _ _ _ Tables.answered
      (fun state alone => state.tables.Sound ∧ Tables.Aside process state.tables alone) ?_ ?_ _ _
      ⟨starts.sound, starts.aside process⟩ ran
    · rintro state aside ⟨caller, fuel, call⟩ answer next ⟨sound, apart⟩ isOwn stepped
      have isCaller : caller = process := of_decide_eq_true isOwn
      subst isCaller
      rcases step_eq_ok stepped with ⟨change, changed, isNext⟩
      have fits := Tables.change_fits changed
      refine ⟨aside.apply caller change, ?_, ?_, ?_⟩
      · rw [Tables.answered, apart.change_eq changed]
        rfl
      · rw [isNext]
        exact sound.apply fits
      rw [isNext]
      exact apart.of_own sound fits
    rintro state aside ⟨caller, fuel, call⟩ answer next ⟨sound, apart⟩ isOwn stepped
    have differs : caller ≠ process := of_decide_eq_false isOwn
    rcases step_eq_ok stepped with ⟨change, changed, isNext⟩
    have fits := Tables.change_fits changed
    rw [isNext]
    exact ⟨sound.apply fits, apart.of_other sound differs fits⟩
  rcases aloneToo with ⟨units, alone, ranAlone, sound, apart⟩
  refine ⟨⟨units, alone, ranAlone, apart.designates_eq⟩, ?_⟩
  intro other fuel fd answer next differs closed
  exact designates_of_ne sound differs closed

/-- Two processes open the root directory, one seeks, and the other one closes. -/
theorem designates_isolated_two : ∃ (start after : SharedFiles Bool) (answers : List Answer),
    Performs.runAll step [(true, 30, .openFile [47] 0), (false, 30, .openFile [47] 1),
      (true, 30, .seek 2 5), (false, 30, .close 2)] start = .ok (answers, after) ∧
    after.tables.designates true 2 = some (1, 5) ∧ after.tables.designates false 2 = none ∧
    ∃ units alone, Performs.runAll Tables.answered
        (Performs.ownEvents (fun event => decide (event.1 = true))
          [(true, 30, .openFile [47] 0), (false, 30, .openFile [47] 1), (true, 30, .seek 2 5),
            (false, 30, .close 2)] answers) start.tables = .ok (units, alone) ∧
      ∀ slot, alone.designates true slot = after.tables.designates true slot := by
  have evaluated := @formatted_of_check (fun fs =>
      (Performs.runAll step [(true, 30, .openFile [47] 0), (false, 30, .openFile [47] 1),
        (true, 30, .seek 2 5), (false, 30, .close 2)]
        ⟨fs, ⟨fun _ => none, fun _ : Bool => newTable⟩⟩).toOption.any fun ran =>
          decide (ran.2.tables.designates true 2 = some (1, 5)) &&
            decide (ran.2.tables.designates false 2 = none)) (by decide +kernel)
  rcases evaluated with ⟨fs, _, _, evaluated⟩
  rcases exists_ok_of_any evaluated with ⟨⟨answers, after⟩, ran, evaluated⟩
  have starts : Starts ⟨fs, ⟨fun _ => none, fun _ : Bool => newTable⟩⟩ := fun _ => rfl
  simp only [Bool.and_eq_true, decide_eq_true_eq] at evaluated
  exact ⟨_, after, answers, ran, evaluated.1, evaluated.2, (designates_isolated starts ran true).1⟩

end SharedFiles

end Pintos.Files
