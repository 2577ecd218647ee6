import Pintos.Filesys.RemoveByName
import Pintos.Library.Reachability
import Pintos.Userprog.Handles

/-!
# Current directories and removal

Processes make any calls in any order and create further processes, which work
in the directory of their creator. Only `chdir` and the creation of a process set
a current directory. What `filesys_remove` does wrong happens in states that are
reached this way.
-/

namespace Pintos.Files

open Pintos.Computation Function

section CurrentDir

def SameDir (before after : Machine) : Prop := after.thread.currentDir = before.thread.currentDir

instance : IsPreorder Machine SameDir where
  refl _ := rfl
  trans _ _ _ first second := Eq.trans second first

lemma onFs_sameDir {Value : Type} (action : Kernel Value) : Preserves SameDir (onFs action) := by
  intro pre val after ran
  rcases onFs_eq_ok ran with ⟨fs, _, rfl⟩
  rfl

lemma sameDir_of_moves {Value : Type} {call : System Value}
  (moves : Preserves Moves call) : Preserves SameDir call := by
  intro pre val after ran
  exact (moves ran).currentDir_eq

lemma returning_sameDir {Value : Type} {reg : Value → ℤ} {call : System Value}
  (same : Preserves SameDir call) : Preserves SameDir (returning reg call) :=
  .bind same fun _ => .pure _

lemma setFile_sameDir (fd : ℤ) (file : Option File) : Preserves SameDir (setFile fd file) := by
  intro pre val after ran
  rcases setFile_eq_ok ran with ⟨slot, _, rfl⟩
  rfl

lemma openFile_sameDir (fuel : ℕ) (name : List Byte) :
  Preserves SameDir (openFile fuel name) := by
  refine .bind (onFs_sameDir _) fun file => .bind (.reads _) fun idx =>
    .bind (setFile_sameDir _ _) fun _ => ?_
  cases file with
  | none => exact .pure _
  | some _ => exact .bind (.updates fun _ => rfl) fun _ => .pure _

lemma close_sameDir (fuel : ℕ) (fd : ℤ) : Preserves SameDir (close fuel fd) := by
  intro pre val after ran
  rcases close_eq_ok ran with ⟨rfl, _⟩ | ⟨slot, file, fs, _, _, _, rfl⟩
  · rfl
  · rfl

variable {call : Call} {fuel : ℕ} {mach after : Machine} {dir : List Byte} {success : Bool}

lemma perform_sameDir (fuel : ℕ) (notChdir : ∀ dir, call ≠ .chdir dir) :
  Preserves SameDir (call.perform fuel) := by
  cases call with
  | create file initSize => exact returning_sameDir (.bind (.reads _) fun _ => onFs_sameDir _)
  | remove file => exact returning_sameDir (.bind (.reads _) fun _ => onFs_sameDir _)
  | openFile name => exact returning_sameDir (openFile_sameDir fuel name)
  | filesize fd => exact returning_sameDir (sameDir_of_moves (filesize_moves fd))
  | read fd buf size => exact returning_sameDir (sameDir_of_moves (read_moves fd buf size))
  | write fd buf size isDir =>
    exact returning_sameDir (sameDir_of_moves (write_moves fuel fd buf size isDir))
  | seek fd posn => exact .bind (sameDir_of_moves (seek_moves fd posn)) fun _ => .pure _
  | tell fd => exact sameDir_of_moves (tell_moves fd)
  | close fd => exact returning_sameDir (close_sameDir fuel fd)
  | chdir dir => exact absurd rfl (notChdir dir)
  | mkdir dir last =>
    exact returning_sameDir (.ite (.pure _) (.bind (onFs_sameDir _) fun _ =>
      .ite (.stop _) (onFs_sameDir _)))
  | readdir fd => exact returning_sameDir (sameDir_of_moves (readdir_moves fuel fd))
  | isdir fd isDir => exact returning_sameDir (sameDir_of_moves (isdir_moves fd isDir))
  | inumber fd word => exact returning_sameDir (sameDir_of_moves (inumber_moves fd word))

lemma chdir_eq_ok (ran : chdir fuel dir mach = .ok (success, after)) :
  after.thread = mach.thread ∨
    ∃ alloc fs old target, malloc mach.fs = .ok (alloc, fs) ∧ mach.thread.currentDir = some old ∧
      getDir fuel mach.thread.currentDir dir fs = .ok (.found (some target), after.fs) ∧
      after.thread = { mach.thread with currentDir := some target } := by
  rcases bind_eq_ok ran with ⟨_, first, allocates, afterIno⟩
  rcases onFs_eq_ok allocates with ⟨fs, asks, rfl⟩
  rw [reads_bind_apply] at afterIno
  rcases bind_eq_ok afterIno with ⟨found, second, finds, going⟩
  rcases onFs_eq_ok finds with ⟨resolved, resolves, rfl⟩
  cases found with
  | bad =>
    cases going
    exact Or.inl rfl
  | found target =>
    cases target with
    | none => cases going
    | some target =>
      simp only at going
      split at going
      · cases going
        exact Or.inl rfl
      cases cur : mach.thread.currentDir with
      | none =>
        rw [cur] at going
        cases going
      | some old =>
        rw [cur] at going resolves
        cases going
        exact Or.inr ⟨_, fs, old, target, asks, rfl, resolves, rfl⟩

end CurrentDir

structure Workplaces (Process : Type) where
  fs : Fs
  currentDir : Process → Option Dir

namespace Workplaces

variable {Process : Type} [DecidableEq Process] {state : Workplaces Process}

/-- What processes do. A process shares the `struct dir` of its creator, so that others may find
themselves in the directory that a process has gone to. -/
inductive Step : Workplaces Process → Workplaces Process → Prop
  | calls {state : Workplaces Process} {process : Process} {fuel : ℕ} {call : Call}
      {thread : ThreadFiles} {value : Option ℤ} {machine : Machine}
      {currentDir : Process → Option Dir}
      (isCurrent : thread.currentDir = state.currentDir process)
      (performed : call.perform fuel ⟨state.fs, thread⟩ = .ok (value, machine))
      (own : currentDir process = machine.thread.currentDir)
      (shared : ∀ other, currentDir other = state.currentDir other ∨
        currentDir other = machine.thread.currentDir) :
      Step state ⟨machine.fs, currentDir⟩
  /-- `process_execute` gives the child a current directory. -/
  | executes {state : Workplaces Process} {creator child : Process} {fuel : ℕ}
      {thread : ThreadFiles} {machine : Machine}
      (assigned : assignCurrentDir fuel (state.currentDir creator) ⟨state.fs, thread⟩ =
        .ok ((), machine)) :
      Step state ⟨machine.fs, update state.currentDir child machine.thread.currentDir⟩
  /-- `dir_add` stores the inode that it has looked up through a pointer without a value, which may
  hit the flag of a current directory. -/
  | strays {state : Workplaces Process} (empty : Process → Bool) :
      Step state { state with
        currentDir := fun process =>
          (state.currentDir process).map fun dir => { dir with empty := empty process } }
  /-- Executables are loaded, and processes end. -/
  | others {state : Workplaces Process} (fs : Fs) : Step state { state with fs := fs }

def Starts (state : Workplaces Process) : Prop := ∀ process, state.currentDir process = none

def Reached : Workplaces Process → Prop := Reachable Starts Step

section Sample

lemma reached_child : ∃ (addr : ℕ) (ino : Inode) (fs : Fs),
  dirOpenRoot 20 emptyFs = .ok (some ⟨addr, false, 0⟩, fs) ∧
    Reached ⟨fs, update (fun _ : Bool => none) true (some ⟨addr, false, 0⟩)⟩ ∧
    fs.Mounted ∧ emptyFs.InodeOpened fs rootDirSector addr ino := by
  rcases emptyFs_mounted.dirOpenRoot_opened with ⟨addr, ino, fs, opening, ready, opened⟩
  refine ⟨addr, ino, fs, opening 20, ?_, emptyFs_mounted.of_opened opened ready, opened⟩
  have starts : Starts (Workplaces.mk emptyFs fun _ : Bool => none) := fun _ => rfl
  have assigned : assignCurrentDir 20 none ⟨emptyFs, newThread⟩ =
      .ok ((), ⟨fs, { newThread with currentDir := some ⟨addr, false, 0⟩ }⟩) := by
    have opens : onFs (dirOpenRoot 20) ⟨emptyFs, newThread⟩ =
        .ok (some ⟨addr, false, 0⟩, ⟨fs, newThread⟩) := by
      rw [onFs, opening 20]
    exact (bind_of_ok opens).trans rfl
  have executed := @Step.executes Bool _ ⟨emptyFs, fun _ => none⟩ false true _ _ _ assigned
  exact .next (.start starts) executed

end Sample

end Workplaces

end Pintos.Files
