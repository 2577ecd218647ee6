import Pintos.Userprog.FamilySteps
import Pintos.Userprog.Schedule

/-!
# Executing a program

`load` raises `exec_block` before `start_process` records a failure in `load`, so
the parent may read `load` too early. `process_execute` uses the thread that
`get_thread_tid` finds although there is none when `thread_create` has failed. And it
copies the command line into an array of a hundred bytes whatever its length, and takes
for granted that it has a word. In the runs without these `process_execute` reports what
`load` returned.
-/

namespace Pintos.Process

/-- The command line is one that `process_execute` can use, `thread_create` succeeds, and the
parent does not read `load` between the raise of `exec_block` by a failed `load` and the
statement that records the failure. -/
def ExecutesInTime (threads : Threads) (_ : ℕ) : Label → Prop
  | .copyLine line => Accepted line
  | .threadCreate created => created = true
  | .readLoad child =>
    (threads.thread child).any (fun childThread => childThread.pc = .loadReturned false) = false
  | _ => True

instance (threads : Threads) (tid : ℕ) (label : Label) :
    Decidable (ExecutesInTime threads tid label) :=
  match label with
  | .copyLine line => inferInstanceAs (Decidable (Accepted line))
  | .threadCreate _ => inferInstanceAs (Decidable (_ = _))
  | .readLoad _ => inferInstanceAs (Decidable (_ = _))
  | .other => isTrue trivial
  | .takeSignal _ => isTrue trivial
  | .clearParent _ => isTrue trivial

structure ExecOwn (thread : Thread) : Prop where
  created : ∀ elem, thread.pc ≠ .execLookup none elem
  found : thread.pc ≠ .execAssign none
  failed : ∀ result, thread.pc = .execReturn none result → result = -1

@[grind]
def ExecKin (_ : ℕ) (thread : Thread) (child : ℕ) (childThread : Thread) : Prop :=
  ∀ result, thread.pc = .execReturn (some child) result →
    ∃ success, childThread.loadResult = some success ∧
      result = if success then (child : ℤ) else -1

attribute [grind cases] ExecOwn

variable {threads after : Threads} {tid child parent other : ℕ}
  {thread childThread otherThr moved : Thread} {label : Label}

lemma Loads.load_eq (loads : Loads thread) (loaded : thread.loadResult.isSome)
  (recorded : thread.pc ≠ .loadReturned false) : thread.loadResult = some thread.load := by
  rcases Option.isSome_iff_exists.mp loaded with ⟨success, isRes⟩
  cases success with
  | false => rw [isRes, loads.load.mpr ⟨isRes, recorded⟩]
  | true =>
    cases isLoad : thread.load with
    | true => exact isRes
    | false => exact (loads.load.mp isLoad).1

namespace Turn

variable (turn : Turn threads thread moved)

include turn

lemma keeps_execOwn (own : ExecOwn thread) (executes : Executes thread)
  (creates : ∀ elem, moved.pc ≠ .execLookup none elem) : ExecOwn moved := by
  cases turn with
  | own moves => cases moves <;> constructor <;> grind -linarith
  | look looks => cases looks <;> constructor <;> grind -linarith
  | _ => constructor <;> grind -linarith

lemma keeps_exec_parent (isChild : threads.thread child = some childThread)
  (loads : Loads childThread) (loaded : Loaded thread child childThread)
  (recorded : thread.pc = .execReadLoad child → childThread.pc ≠ .loadReturned false) :
  ExecKin tid moved child childThread := by
  intro res stands
  cases turn with
  | own moves => cases moves <;> grind -linarith
  | look looks =>
    cases looks with
    | readLoad reads isSame inUse =>
      cases stands
      rw [isChild] at isSame
      cases isSame
      exact ⟨childThread.load, loads.load_eq (loaded.reads reads) (recorded reads), rfl⟩
    | _ => cases stands
  | _ => cases stands

lemma keeps_exec_child (loads : Loads thread) (kin : ExecKin other otherThr tid thread) :
  ExecKin other otherThr tid moved := by
  intro res stands
  rcases kin res stands with ⟨success, isRes, isRan⟩
  refine ⟨success, ?_, isRan⟩
  cases turn with
  | own moves => cases moves <;> exact isRes
  | loadDone loading =>
    rw [loads.loading loading] at isRes
    cases isRes
  | _ => exact isRes

end Turn

/-- `process_execute` has found a child where it uses one, and it returns what `load`
has returned. -/
abbrev Executing (threads : Threads) : Prop :=
  Holds Thread.creator ExecOwn ExecKin threads.thread

namespace Executing

lemma creates (executing : Executing threads) (taken : Step threads tid label after)
  (inTime : ExecutesInTime threads tid label) (isMoved : after.thread tid = some moved)
  (elem : Option ℕ) : moved.pc ≠ .execLookup none elem := by
  intro leads
  have moves_eq (pre : Threads) (next : Thread) :
      (pre.put tid next).thread tid = some moved → next = moved := by simp
  cases taken with
  | own isThr moves =>
    cases moves_eq _ _ isMoved
    cases moves <;> simp_all [Thread.threadExit]
  | look isThr looks =>
    cases moves_eq _ _ isMoved
    have created := (executing.own isThr).created
    cases looks <;> simp_all [ExecutesInTime]
  | faults isThr => exact (executing.own isMoved).created elem leads
  | _ =>
    cases moves_eq _ _ isMoved
    cases leads

lemma recorded (taken : Step threads tid label after) (runs : after.fault = none)
  (inTime : ExecutesInTime threads tid label) (isThr : threads.thread tid = some thread)
  (isChild : threads.thread child = some childThread) (stands : thread.pc = .execReadLoad child) :
  childThread.pc ≠ .loadReturned false := by
  cases taken with
  | own isSame moves => cases moves <;> simp_all
  | look isSame looks => cases looks <;> simp_all [ExecutesInTime]
  | faults => cases runs
  | _ => simp_all

lemma step (executing : Executing threads) (family : Family threads)
  (running : threads.fault = none) (taken : Step threads tid label after)
  (inTime : ExecutesInTime threads tid label) : Executing after := by
  refine family.holds_step running executing taken ?_ ?_ ?_ ?_
  · intro _ idx thread moved _ change own
    cases change with
    | turn isThr isMoved turn =>
      exact turn.keeps_execOwn own (family.holds.own isThr).executes
        (executing.creates taken inTime isMoved)
    | _ => constructor <;> grind -linarith
  · intro runs parent thread moved child childThread childMoved change kin
    cases change with
    | parentTurn isThr isMoved isChild isCreator turn =>
      exact turn.keeps_exec_parent isChild (family.holds.own isChild).loads
        (family.holds.kin isThr isChild isCreator).loaded
        (recorded taken runs inTime isThr isChild)
    | childTurn isThr turn => exact turn.keeps_exec_child (family.holds.own isThr).loads kin
    | loadDone isThr stands =>
      have isNone := (family.holds.own isThr).loads.loading stands
      grind -linarith
    | _ => grind -linarith
  · constructor <;> simp [initThread]
  intro thread elem isThr stands res leads
  cases leads

lemma of_boot : Executing boot := by
  refine ⟨?_, ?_⟩
  · intro tid thread isThr
    rcases boot_eq_some isThr with ⟨rfl, rfl⟩ | ⟨rfl, rfl⟩ <;>
      constructor <;> simp [mainThread, idleThread]
  intro tid thread child childThread isThr isChild isCreator res stands
  rcases boot_eq_some isThr with ⟨rfl, rfl⟩ | ⟨rfl, rfl⟩ <;> cases stands

lemma of_reached (reached : ReachedWhere ExecutesInTime threads) : Executing threads := by
  induction reached with
  | start isInitial =>
    subst isInitial
    exact of_boot
  | next pre taken ih =>
    rcases taken with ⟨running, _, _, taken, inTime⟩
    exact ih.step (Family.of_reached pre) running taken inTime

end Executing

/-- `process_execute` returns -1 exactly when no thread was created or `load` returned
false, and otherwise the thread's tid; it has not used a null child, overrun its copy of the
command line or passed on a null name. -/
structure ExecutesRight (threads : Threads) : Prop where
  returned : ∀ {tid thread child result}, threads.thread tid = some thread →
    thread.pc = .execReturn (some child) result →
      ∃ childThread success, threads.thread child = some childThread ∧
        childThread.loadResult = some success ∧
          result = if success then (child : ℤ) else -1
  failed : ∀ {tid thread result}, threads.thread tid = some thread →
    thread.pc = .execReturn none result → result = -1
  notNull : threads.fault ≠ some .nullChild
  copied : threads.fault ≠ some .badLine

lemma Step.nullChild (taken : Step threads tid label after) (running : threads.fault = none)
  (stopped : after.fault = some .nullChild) :
  ∃ thread, threads.thread tid = some thread ∧ thread.pc = .execAssign none := by
  cases taken with
  | @faults thread _ _ isThr fails =>
    cases stopped
    cases fails with
    | pointer follows bad =>
      refine ⟨thread, isThr, ?_⟩
      unfold Thread.follows at follows
      split at follows <;> simp_all
  | created isThr stands isAdded =>
    simp_all
  | _ => simp_all

lemma Step.badLine (taken : Step threads tid label after) (running : threads.fault = none)
  (stopped : after.fault = some .badLine) : ∃ line, label = .copyLine line ∧ ¬Accepted line := by
  cases taken with
  | faults isThr fails =>
    cases stopped
    cases fails with
    | pointer follows bad =>
      unfold Thread.follows at follows
      split at follows <;> simp_all
    | line stands bad => exact ⟨_, rfl, bad⟩
  | created isThr stands isAdded => simp_all
  | _ => simp_all

lemma copied_of_reached (reached : ReachedWhere ExecutesInTime threads) :
  threads.fault ≠ some .badLine := by
  cases reached with
  | start isInitial =>
    subst isInitial
    simp [boot]
  | next pre taken =>
    rcases taken with ⟨running, tid, label, taken, inTime⟩
    intro stopped
    rcases taken.badLine running stopped with ⟨line, rfl, bad⟩
    exact bad inTime

lemma notNull_of_reached (reached : ReachedWhere ExecutesInTime threads) :
  threads.fault ≠ some .nullChild := by
  cases reached with
  | start isInitial =>
    subst isInitial
    simp [boot]
  | next pre taken =>
    rcases taken with ⟨running, tid, label, taken, -⟩
    intro stopped
    rcases taken.nullChild running stopped with ⟨thread, isThr, stands⟩
    exact ((Executing.of_reached pre).own isThr).found stands

end Pintos.Process
