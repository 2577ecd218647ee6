import Pintos.Library.Runs
import Pintos.Userprog.CurrentDirs
import Pintos.Userprog.ProcessFiles

/-!
# Shared current directories

The field `current_dir` of `struct thread` is a pointer. `process_execute` copies
the pointer of the creator into the child, and `chdir` overwrites the
`struct dir` that the pointer refers to. So the processes that share it go to the
new directory together.

Two systems take the same actions. In the first one, that of the source, threads
have pointers to `struct dir` objects. In the second one every process has a
current directory of its own. The two return the same values and show every
process the same directory in the runs in which no process that shares its pointer
calls `chdir` with a path that `get_dir` resolves.
-/

namespace Pintos.Files

open Pintos.Computation Function

/-- What a process does. -/
inductive Act (Process : Type)
  | calls (process : Process) (fuel : ℕ) (call : Call)
  /-- `process_execute` assigns the current directory of the child. -/
  | executes (creator child : Process) (fuel : ℕ)
  | loads (process : Process) (fuel : ℕ) (pagedir : Bool) (name : List Byte)
      (segments : Option ℤ)
  | exits (process : Process) (fuel : ℕ)
  /-- A way to `thread_exit` that passes by `exit`. -/
  | dies (process : Process)

def ThreadFiles.gone (thread : ThreadFiles) : ThreadFiles := { thread with currentDir := none }

@[ext]
structure OwnDirs (Process : Type) where
  fs : Fs
  threads : Process → ThreadFiles

namespace OwnDirs

variable {Process : Type} [DecidableEq Process]

def put (state : OwnDirs Process) (process : Process) (machine : Machine) : OwnDirs Process :=
  ⟨machine.fs, update state.threads process machine.thread⟩

@[simp]
lemma put_threads_self (st : OwnDirs Process) (process : Process) (mach : Machine) :
  (st.put process mach).threads process = mach.thread :=
  update_self ..

lemma put_threads_of_ne (st : OwnDirs Process) {process other : Process} (mach : Machine)
  (ne : other ≠ process) : (st.put process mach).threads other = st.threads other :=
  update_of_ne ne ..

def act (state : OwnDirs Process) : Act Process → Except Halt (Option ℤ × OwnDirs Process)
  | .calls process fuel call =>
    (call.perform fuel ⟨state.fs, state.threads process⟩).map fun outcome =>
      (outcome.1, state.put process outcome.2)
  | .executes creator child fuel =>
    (assignCurrentDir fuel (state.threads creator).currentDir
      ⟨state.fs, state.threads child⟩).map fun outcome => (none, state.put child outcome.2)
  | .loads process fuel pagedir name segments =>
    (load fuel pagedir name segments ⟨state.fs, state.threads process⟩).map fun outcome =>
      (some (ofBool outcome.1), state.put process outcome.2)
  | .exits process fuel =>
    (exit fuel ⟨state.fs, state.threads process⟩).map fun outcome =>
      (none, state.put process ⟨outcome.2.fs, outcome.2.thread.gone⟩)
  | .dies process => .ok (none, state.put process ⟨state.fs, (state.threads process).gone⟩)

end OwnDirs

/-- The file system, the `struct dir` objects that threads refer to, in the order in which they
were allocated, and the threads. A thread refers to its current directory by `pointers`. -/
structure SharedDirs (Process : Type) where
  fs : Fs
  dirs : List Dir
  pointers : Process → Option ℕ
  threads : Process → ThreadFiles

namespace SharedDirs

variable {Process : Type} {st after : SharedDirs Process} {process other creator child : Process}
  {action : Act Process} {address fuel : ℕ} {call : Call} {mach : Machine} {val : Option ℤ}

def designated (state : SharedDirs Process) (process : Process) : Option Dir :=
  (state.pointers process).bind (state.dirs[·]?)

def thread (state : SharedDirs Process) (process : Process) : ThreadFiles :=
  { state.threads process with currentDir := state.designated process }

def view (state : SharedDirs Process) : OwnDirs Process := ⟨state.fs, state.thread⟩

def store (dirs : List Dir) (pointer : Option ℕ) (dir : Option Dir) : List Dir :=
  match pointer, dir with
  | some address, some dir => dirs.set address dir
  | _, _ => dirs

def Inside (state : SharedDirs Process) : Prop :=
  ∀ process address, state.pointers process = some address → address < state.dirs.length

lemma designated_of_pointer (isPtr : st.pointers process = some address) :
  st.designated process = st.dirs[address]? := by
  rw [designated, isPtr, Option.bind_some]

lemma designated_of_null (isNull : st.pointers process = none) :
  st.designated process = none := by
  rw [designated, isNull, Option.bind_none]

lemma designated_congr (same : st.pointers other = st.pointers process) :
  st.designated other = st.designated process := by
  rw [designated, designated, same]

variable [DecidableEq Process]

def put (state : SharedDirs Process) (process : Process) (machine : Machine) :
    SharedDirs Process where
  fs := machine.fs
  dirs := store state.dirs (state.pointers process) machine.thread.currentDir
  pointers := state.pointers
  threads := update state.threads process machine.thread

def refer (state : SharedDirs Process) (process : Process) (pointer : Option ℕ) :
    SharedDirs Process :=
  { state with pointers := update state.pointers process pointer }

/-- The assignment of `current_dir` in `process_execute`: a new object for the root directory if
the creator has none, else the pointer of the creator. -/
def assign (state : SharedDirs Process) (creator child : Process) (fuel : ℕ) :
    Except Halt (SharedDirs Process) :=
  match state.pointers creator with
  | some address => .ok (state.refer child (some address))
  | none =>
    match dirOpenRoot fuel state.fs with
    | .error reason => .error (.kernel reason)
    | .ok (none, fs) => .ok ({ state with fs := fs }.refer child none)
    | .ok (some dir, fs) =>
      .ok ({ state with fs := fs, dirs := state.dirs ++ [dir] }.refer child
        (some state.dirs.length))

def act (state : SharedDirs Process) : Act Process → Except Halt (Option ℤ × SharedDirs Process)
  | .calls process fuel call =>
    (call.perform fuel ⟨state.fs, state.thread process⟩).map fun outcome =>
      (outcome.1, state.put process outcome.2)
  | .executes creator child fuel => (state.assign creator child fuel).map fun after => (none, after)
  | .loads process fuel pagedir name segments =>
    (load fuel pagedir name segments ⟨state.fs, state.thread process⟩).map fun outcome =>
      (some (ofBool outcome.1), state.put process outcome.2)
  | .exits process fuel =>
    (exit fuel ⟨state.fs, state.thread process⟩).map fun outcome =>
      (none, (state.put process outcome.2).refer process none)
  | .dies process => .ok (none, state.refer process none)

section CurrentDir

lemma load_sameDir (fuel : ℕ) (pagedir : Bool) (name : List Byte) (segments : Option ℤ) :
  Preserves SameDir (load fuel pagedir name segments) := by
  refine .ite (.bind (onFs_sameDir _) fun file => .bind (.updates fun _ => rfl) fun _ => ?_)
    (.pure _)
  cases file with
  | none => exact .pure _
  | some file =>
    refine .bind (onFs_sameDir _) fun file => .bind (onFs_sameDir _) fun res =>
      .bind (.updates fun _ => rfl) fun _ => .ite ?_ (.pure _)
    cases segments with
    | none => exact .pure _
    | some pos => exact .bind (.updates fun _ => rfl) fun _ => .pure _

lemma closeAll_sameDir (fuel : ℕ) (counters : List ℕ) :
  Preserves SameDir (counters.forM fun counter => close fuel counter) := by
  induction counters with
  | nil => exact .pure _
  | cons counter rest ih => exact .bind (close_sameDir fuel counter) fun _ => ih

lemma exit_sameDir (fuel : ℕ) : Preserves SameDir (exit fuel) := by
  intro pre val after ran
  rcases exit_eq_ok ran with ⟨fs, _, closes⟩
  have same : SameDir { pre with fs := fs } after := closeAll_sameDir fuel _ closes
  exact same

lemma perform_isSome {mach after : Machine} (ran : call.perform fuel mach = .ok (val, after)) :
  after.thread.currentDir.isSome = mach.thread.currentDir.isSome := by
  by_cases isChdir : ∃ dir, call = .chdir dir
  · rcases isChdir with ⟨dir, rfl⟩
    rcases bind_eq_ok ran with ⟨success, mid, performs, done⟩
    cases done
    rcases chdir_eq_ok performs with same | ⟨_, _, old, target, _, isOld, _, went⟩
    · rw [same]
    rw [went, isOld]
    rfl
  have same := perform_sameDir fuel (fun dir isCall => isChdir ⟨dir, isCall⟩) ran
  rw [same]

end CurrentDir

lemma designated_put (inside : st.Inside)
  (sameKind : mach.thread.currentDir.isSome = (st.designated process).isSome) :
  (st.put process mach).designated other =
    if st.pointers other = st.pointers process then mach.thread.currentDir
    else st.designated other := by
  have bound := inside process
  simp only [designated] at sameKind
  simp only [designated, put, store]
  cases isPtr : st.pointers process <;> cases isDir : mach.thread.currentDir <;>
    cases isOther : st.pointers other <;> grind

lemma thread_put_self (inside : st.Inside)
  (sameKind : mach.thread.currentDir.isSome = (st.designated process).isSome) :
  (st.put process mach).thread process = mach.thread := by
  rw [thread, designated_put inside sameKind]
  simp [put]

lemma thread_put_of_ne (ne : other ≠ process) :
  (st.put process mach).thread other =
    { st.thread other with currentDir := (st.put process mach).designated other } := by
  simp [thread, put, update_of_ne ne]

/-- What a process stores in its current directory is seen by that process alone, if it is what
was there before or nobody else has the pointer. -/
lemma view_put (inside : st.Inside)
  (sameKind : mach.thread.currentDir.isSome = (st.designated process).isSome)
  (alone : mach.thread.currentDir ≠ st.designated process →
    ∀ other, other ≠ process → st.pointers other ≠ st.pointers process) :
  (st.put process mach).view = st.view.put process mach := by
  refine OwnDirs.ext rfl (funext fun other => ?_)
  by_cases isProc : other = process
  · subst isProc
    rw [OwnDirs.put_threads_self]
    exact thread_put_self inside sameKind
  have unchanged : (st.put process mach).designated other = st.designated other := by
    rw [designated_put inside sameKind]
    split
    · next shared =>
        by_contra changed
        rw [designated_congr shared] at changed
        exact alone changed other isProc shared
    · rfl
  rw [OwnDirs.put_threads_of_ne _ _ isProc]
  refine (thread_put_of_ne isProc).trans ?_
  rw [unchanged]
  rfl

/-- A process does not call `chdir` with a path that `get_dir` resolves while another process has
the same pointer. `get_dir` follows the first allocation of `chdir`. -/
def Unshared (state : SharedDirs Process) : Act Process → Prop
  | .calls process fuel (.chdir dir) =>
    (∃ allocated fs target after, malloc state.fs = .ok (allocated, fs) ∧
      getDir fuel (state.designated process) dir fs = .ok (.found (some target), after)) →
        ∀ other, other ≠ process → state.pointers other ≠ state.pointers process
  | _ => True

omit [DecidableEq Process] in
lemma Unshared.alone (unshared : st.Unshared (.calls process fuel call))
  (performed : call.perform fuel ⟨st.fs, st.thread process⟩ = .ok (val, mach))
  (changed : mach.thread.currentDir ≠ st.designated process) :
  ∀ other, other ≠ process → st.pointers other ≠ st.pointers process := by
  by_cases isChdir : ∃ dir, call = .chdir dir
  · rcases isChdir with ⟨dir, rfl⟩
    rcases bind_eq_ok performed with ⟨success, mid, went, done⟩
    cases done
    rcases chdir_eq_ok went with same | ⟨_, fs, _, target, asks, _, resolves, _⟩
    · exact absurd (congrArg ThreadFiles.currentDir same) changed
    · exact unshared ⟨_, fs, target, _, asks, resolves⟩
  exact absurd (perform_sameDir fuel (fun dir isCall => isChdir ⟨dir, isCall⟩) performed) changed

lemma agreesAt_calls (inside : st.Inside) (unshared : st.Unshared (.calls process fuel call)) :
  Performs.AgreesAt act OwnDirs.act view st (.calls process fuel call) := by
  simp only [Performs.AgreesAt, act]
  change (call.perform fuel ⟨st.fs, st.thread process⟩).map _ = _
  cases performed : call.perform fuel ⟨st.fs, st.thread process⟩ with
  | error reason => rfl
  | ok out =>
    simp only [Except.map, Prod.map_apply, id]
    rw [view_put inside (perform_isSome performed) (unshared.alone performed)]

omit [DecidableEq Process] in
lemma view_grow (inside : st.Inside) (fs : Fs) (more : List Dir) :
  { st with fs := fs, dirs := st.dirs ++ more }.view = { st.view with fs := fs } := by
  refine OwnDirs.ext rfl (funext fun other => ?_)
  have unchanged : { st with fs := fs, dirs := st.dirs ++ more }.designated other =
      st.designated other := by
    cases isPtr : st.pointers other with
    | none => simp [designated, isPtr]
    | some address =>
      simp only [designated, isPtr]
      exact List.getElem?_append_left (inside other address isPtr)
  simp [view, thread, unchanged]

lemma view_refer (ptr : Option ℕ) : (st.refer process ptr).view =
    st.view.put process ⟨st.fs, { st.thread process with
      currentDir := ptr.bind (st.dirs[·]?) }⟩ := by
  refine OwnDirs.ext rfl (funext fun other => ?_)
  by_cases isProc : other = process
  · subst isProc
    simp [view, thread, designated, refer]
  rw [OwnDirs.put_threads_of_ne _ _ isProc]
  simp [view, thread, designated, refer, update_of_ne isProc]

lemma assignCurrentDir_some (fuel : ℕ) (dir : Dir) (mach : Machine) :
  assignCurrentDir fuel (some dir) mach =
    .ok ((), { mach with thread := { mach.thread with currentDir := some dir } }) := rfl

lemma assignCurrentDir_none (fuel : ℕ) (mach : Machine) : assignCurrentDir fuel none mach =
    match dirOpenRoot fuel mach.fs with
    | .ok (dir, fs) => .ok ((), ⟨fs, { mach.thread with currentDir := dir }⟩)
    | .error reason => .error (.kernel reason) := by
  cases opened : dirOpenRoot fuel mach.fs with
  | error reason =>
    have stopped : onFs (dirOpenRoot fuel) mach = .error (.kernel reason) := by
      rw [onFs, opened]
    exact bind_of_error stopped
  | ok out =>
    rcases out with ⟨dir, fs⟩
    have opens : onFs (dirOpenRoot fuel) mach = .ok (dir, { mach with fs := fs }) := by
      rw [onFs, opened]
    exact (bind_of_ok opens).trans rfl

lemma agreesAt_executes (inside : st.Inside) (creator child : Process) (fuel : ℕ) :
  Performs.AgreesAt act OwnDirs.act view st (.executes creator child fuel) := by
  simp only [Performs.AgreesAt, act]
  change (assignCurrentDir fuel (st.designated creator) ⟨st.fs, st.thread child⟩).map _ = _
  cases isPtr : st.pointers creator with
  | some address =>
    have bound := inside creator address isPtr
    have isDir : st.dirs[address]? = some st.dirs[address] :=
      List.getElem?_eq_getElem bound
    rw [designated_of_pointer isPtr, isDir, assignCurrentDir_some, assign]
    simp [isPtr, Except.map, id, view_refer, isDir]
  | none =>
    rw [designated_of_null isPtr, assignCurrentDir_none, assign]
    simp only [isPtr]
    cases dirOpenRoot fuel st.fs with
    | error reason => rfl
    | ok out =>
      rcases out with ⟨dir, fs⟩
      cases dir with
      | none => simp only [Except.map, Prod.map_apply, id, view_refer]; rfl
      | some dir =>
        have seen := view_grow inside fs [dir]
        simp only [Except.map, Prod.map_apply, id, view_refer, Option.bind_some, seen,
          List.getElem?_concat_length]
        rfl

lemma view_put_of_sameDir {machine : Machine} (inside : st.Inside)
  (same : SameDir ⟨st.fs, st.thread process⟩ machine) :
  (st.put process machine).view = st.view.put process machine := by
  exact view_put inside (congrArg Option.isSome same) fun changed => absurd same changed

lemma agreesAt_loads (inside : st.Inside) (fuel : ℕ) (pagedir : Bool) (name : List Byte)
  (segments : Option ℤ) :
  Performs.AgreesAt act OwnDirs.act view st (.loads process fuel pagedir name segments) := by
  simp only [Performs.AgreesAt, act]
  change (load fuel pagedir name segments ⟨st.fs, st.thread process⟩).map _ = _
  cases loaded : load fuel pagedir name segments ⟨st.fs, st.thread process⟩ with
  | error reason => rfl
  | ok out =>
    simp only [Except.map, Prod.map_apply, id]
    rw [view_put_of_sameDir inside (load_sameDir _ _ _ _ loaded)]

lemma agreesAt_exits (inside : st.Inside) (fuel : ℕ) :
  Performs.AgreesAt act OwnDirs.act view st (.exits process fuel) := by
  simp only [Performs.AgreesAt, act]
  change (exit fuel ⟨st.fs, st.thread process⟩).map _ = _
  cases exited : exit fuel ⟨st.fs, st.thread process⟩ with
  | error reason => rfl
  | ok out =>
    have same := exit_sameDir fuel exited
    simp only [Except.map, Prod.map_apply, id, view_refer]
    rw [view_put_of_sameDir inside same, thread_put_self inside (congrArg Option.isSome same)]
    simp [OwnDirs.put, put, ThreadFiles.gone]

lemma agreesAt_dies : Performs.AgreesAt act OwnDirs.act view st (.dies process) := by
  simp only [Performs.AgreesAt, act, OwnDirs.act, Except.map, Prod.map_apply, id, view_refer,
    Option.bind_none]
  rfl

lemma agreesAt_of_unshared (inside : st.Inside) (unshared : st.Unshared action) :
  Performs.AgreesAt act OwnDirs.act view st action := by
  cases action with
  | calls process fuel call => exact agreesAt_calls inside unshared
  | executes creator child fuel => exact agreesAt_executes inside _ _ _
  | loads process fuel pagedir name segments => exact agreesAt_loads inside _ _ _ _
  | exits process fuel => exact agreesAt_exits inside _
  | dies process => exact agreesAt_dies

omit [DecidableEq Process] in
lemma length_store (dirs : List Dir) (ptr : Option ℕ) (dir : Option Dir) :
  (store dirs ptr dir).length = dirs.length := by
  cases ptr <;> cases dir <;> simp [store]

lemma Inside.put (inside : st.Inside) (process : Process) (mach : Machine) :
  (st.put process mach).Inside := by
  intro other address isPtr
  simp only [SharedDirs.put, length_store]
  exact inside other address isPtr

lemma Inside.refer (inside : st.Inside) (process : Process) {ptr : Option ℕ}
  (bound : ∀ address, ptr = some address → address < st.dirs.length) :
  (st.refer process ptr).Inside := by
  intro other address isPtr
  have wasInside := inside other address
  simp only [SharedDirs.refer] at isPtr ⊢
  grind

lemma assign_eq_ok (assigned : st.assign creator child fuel = .ok after) :
  st.dirs.length ≤ after.dirs.length ∧ ∃ ptr,
    (∀ other, after.pointers other = if other = child then ptr else st.pointers other) ∧
    (ptr = st.pointers creator ∨ ∀ address, ptr = some address →
      address < after.dirs.length) := by
  rw [assign] at assigned
  split at assigned
  · cases assigned
    exact ⟨le_rfl, _, fun _ => update_apply .., Or.inl (by grind)⟩
  split at assigned
  · cases assigned
  · cases assigned
    exact ⟨le_rfl, _, fun _ => update_apply .., Or.inr (by grind)⟩
  cases assigned
  exact ⟨by simp [refer], _, fun _ => update_apply .., Or.inr (by simp [refer])⟩

lemma Inside.assign (inside : st.Inside) (assigned : st.assign creator child fuel = .ok after) :
  after.Inside := by
  rcases assign_eq_ok assigned with ⟨longer, ptr, ptrs, bound⟩
  intro other address isPtr
  have creatorInside := inside creator address
  have otherInside := inside other address
  grind

lemma Inside.act (inside : st.Inside) (acted : st.act action = .ok (val, after)) :
  after.Inside := by
  cases action with
  | calls process fuel call =>
    rcases Performs.map_eq_ok acted with ⟨out, _, same⟩
    cases same
    exact inside.put process _
  | executes creator child fuel =>
    rcases Performs.map_eq_ok acted with ⟨out, assigned, same⟩
    cases same
    exact inside.assign assigned
  | loads process fuel pagedir name segments =>
    rcases Performs.map_eq_ok acted with ⟨out, _, same⟩
    cases same
    exact inside.put process _
  | exits process fuel =>
    rcases Performs.map_eq_ok acted with ⟨out, _, same⟩
    cases same
    exact (inside.put process _).refer process nofun
  | dies process =>
    cases acted
    exact inside.refer process nofun

def Starts (state : SharedDirs Process) : Prop := ∀ process, state.pointers process = none

omit [DecidableEq Process] in
lemma Starts.inside (starts : st.Starts) : st.Inside := by
  intro process address isPtr
  rw [starts process] at isPtr
  cases isPtr

def LeavesOthers (state : SharedDirs Process) (action : Act Process) : Prop :=
  ∀ process fuel dir, action = .calls process fuel (.chdir dir) → ∀ value after,
    state.act action = .ok (value, after) → ∀ other, other ≠ process →
      after.designated other = state.designated other

/-- The working directory of every process is its own: no other process changes it, and every
value that is returned is the one that the process gets where nobody else has a part in its
current directory. -/
structure Isolated (start : SharedDirs Process) (actions : List (Act Process)) : Prop where
  leavesOthers : Performs.Throughout act LeavesOthers start actions
  ownHistory : Performs.Agrees act OwnDirs.act view start actions

lemma Unshared.leavesOthers (inside : st.Inside) (unshared : st.Unshared action) :
  st.LeavesOthers action := by
  rintro process fuel dir rfl val after acted other ne
  rcases Performs.map_eq_ok acted with ⟨⟨val, mach⟩, performed, same⟩
  cases same
  rw [designated_put inside (perform_isSome performed)]
  split
  · next shared =>
      by_contra changed
      rw [designated_congr shared] at changed
      exact unshared.alone performed changed other ne shared
  · rfl

section Sample

lemma assign_pointers_of_ne (ne : other ≠ child)
  (assigned : st.assign creator child fuel = .ok after) :
  after.pointers other = st.pointers other := by
  rcases assign_eq_ok assigned with ⟨_, ptr, ptrs, _⟩
  rw [ptrs, if_neg ne]

lemma unshared_alone (fs : Fs) (fuel : ℕ) :
  Performs.Throughout act Unshared ⟨fs, [], fun _ : Bool => none, fun _ => newThread⟩
    [.executes false true fuel, .calls true fuel (.chdir [46])] := by
  refine .cons trivial fun _ mid executed => .cons ?_ fun _ _ _ => .nil _ _
  rcases Performs.map_eq_ok executed with ⟨_, assigned, same⟩
  cases same
  rintro ⟨_, middle, target, after, _, resolves⟩ other ne shared
  have isNull : mid.pointers other = none := assign_pointers_of_ne ne assigned
  rw [shared] at isNull
  rw [designated_of_null isNull] at resolves
  rcases getDir_eq_ok resolves with ⟨_, currDir, _, _, _, _, ⟨rfl, _⟩, _, looping⟩
  cases looping

end Sample

end SharedDirs

end Pintos.Files
