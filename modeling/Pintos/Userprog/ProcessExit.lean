import Pintos.Userprog.ProcessWait

/-!
# Exiting

A child that exits tests its parent pointer, reads it again to raise the parent's
semaphore and then waits for its own. The parent that exits clears the pointers of
its children in between. A child whose pointer is cleared after its test follows a
null pointer or waits for ever, and a child whose parent stopped waiting for it too
early follows the pointer of a dead thread. In the runs without these two no child
does.
-/

namespace Pintos.Process

namespace Pc

@[grind]
def tested : Pc → Bool
  | exitReread | exitUp _ | exitDown => true
  | user | idle | execEntered | execCreate | execLookup _ _ | execAssign _ | execDown _
  | execReadLoad _ | execReturn _ _ | loading | loadReturned _ | waitSearch _ | waitDown _
  | waitReadStatus _ | waitUp _ _ | waitReturn _ _ | exitClear _ | exitNext _ _ | exitTest
  | exitFinish | dead => false

@[grind]
def awaits : Pc → Option ℕ
  | waitDown child | waitReadStatus child | waitUp child _ => some child
  | user | idle | execEntered | execCreate | execLookup _ _ | execAssign _ | execDown _
  | execReadLoad _ | execReturn _ _ | loading | loadReturned _ | waitSearch _ | waitReturn _ _
  | exitClear _ | exitNext _ _ | exitTest | exitReread | exitUp _ | exitDown | exitFinish
  | dead => none

end Pc

def ClearsUntested (threads : Threads) : Label → Prop
  | .clearParent child =>
    (threads.thread child).any (fun childThread => childThread.pc.tested) = false
  | _ => True

instance (threads : Threads) (label : Label) : Decidable (ClearsUntested threads label) :=
  match label with
  | .clearParent _ => inferInstanceAs (Decidable (_ = _))
  | .other | .copyLine _ | .threadCreate _ | .readLoad _ | .takeSignal _ => isTrue trivial

def ExitsInTime (threads : Threads) (tid : ℕ) (label : Label) : Prop :=
  WaitsAlone threads tid label ∧ ClearsUntested threads label
deriving Decidable

structure ExitOwn (thread : Thread) : Prop where
  tested : thread.pc.tested = true → thread.parent ≠ none
  follows : ∀ target, thread.pc = .exitUp target → target = thread.parent

structure ExitKin (tid : ℕ) (thread : Thread) (child : ℕ) (childThread : Thread) : Prop where
  linked : childThread.parent = some tid → childThread.pc ≠ .exitFinish →
    childThread.pc ≠ .dead →
      child ∈ thread.children ∧ (thread.pc.exiting = false ∨ child ∈ thread.pc.clears) ∨
        thread.pc.awaits = some child ∨ 0 < childThread.waitBlock
  raised : 0 < childThread.waitBlock → childThread.pc.signalled = true

attribute [grind cases] ExitOwn ExitKin

variable {threads after : Threads} {tid child parent other : ℕ}
  {thread childThread parentThr otherThr moved : Thread} {label : Label}

namespace Turn

variable (turn : Turn threads thread moved)

include turn

lemma keeps_exitOwn (own : ExitOwn thread) : ExitOwn moved := by
  cases turn with
  | own moves => cases moves <;> constructor <;> grind -linarith
  | look looks => cases looks <;> constructor <;> grind -linarith
  | _ => constructor <;> grind -linarith

lemma keeps_exit_parent (notUp : ∀ stat, thread.pc ≠ .waitUp child stat)
  (notClear : ∀ rest, thread.pc ≠ .exitClear (child :: rest))
  (kin : ExitKin tid thread child childThread) : ExitKin tid moved child childThread := by
  cases turn with
  | own moves => cases moves <;> constructor <;> grind -linarith
  | look looks => cases looks <;> constructor <;> grind -linarith
  | _ => constructor <;> grind -linarith

lemma keeps_exit_child (kin : ExitKin other otherThr tid thread) :
  ExitKin other otherThr tid moved := by
  cases turn with
  | own moves => cases moves <;> constructor <;> grind -linarith
  | look looks => cases looks <;> constructor <;> grind -linarith
  | _ => constructor <;> grind -linarith

end Turn

abbrev Exiting (threads : Threads) : Prop :=
  Holds Thread.creator ExitOwn ExitKin threads.thread

namespace Exiting

lemma own_step {idx : ℕ} (untested : ∀ thread childThread rest, threads.thread tid = some thread →
    thread.pc = .exitClear (idx :: rest) → threads.thread idx = some childThread →
      childThread.pc.tested = false) (change : OwnStep threads after tid idx thread moved)
  (own : ExitOwn thread) : ExitOwn moved := by
  cases change with
  | turn isThr isMoved turn => exact turn.keeps_exitOwn own
  | cleared isThr stands isChild =>
    constructor <;> grind -linarith
  | _ => constructor <;> grind -linarith

lemma kin_step (waiting : Waiting threads) {childMoved : Thread}
  (change : PairStep threads after tid parent thread moved child childThread childMoved)
  (kin : ExitKin parent thread child childThread) : ExitKin parent moved child childMoved := by
  cases change with
  | parentTurn _ _ _ _ turn notUp notClear => exact turn.keeps_exit_parent notUp notClear kin
  | childTurn _ turn => exact turn.keeps_exit_child kin
  | waitUp isThr stands isChild isCreator =>
    have signalled := ((waiting.kin isThr isChild isCreator).read _ stands).1
    constructor <;> grind -linarith
  | _ => constructor <;> grind -linarith

lemma untested (taken : Step threads tid label after) (runs : after.fault = none)
  (inTime : ClearsUntested threads label) {rest : List ℕ}
  (isThr : threads.thread tid = some thread) (stands : thread.pc = .exitClear (child :: rest))
  (isChild : threads.thread child = some childThread) : childThread.pc.tested = false := by
  cases taken with
  | own isSame moves => cases moves <;> simp_all
  | look isSame looks => cases looks <;> simp_all
  | clear => simp_all [ClearsUntested]
  | faults => cases runs
  | _ => simp_all

lemma step (exiting : Exiting threads) (waiting : Waiting threads) (family : Family threads)
  (running : threads.fault = none) (taken : Step threads tid label after)
  (inTime : ClearsUntested threads label) : Exiting after := by
  refine family.holds_step running exiting taken (fun runs _ _ _ _ => own_step fun _ _ _ =>
    untested taken runs inTime) (fun _ _ _ _ _ _ _ => kin_step waiting) ?_ ?_
  · constructor <;> simp [initThread]
  intro thread elem isThr stands
  constructor <;> grind -linarith [initThread]

lemma of_boot : Exiting boot := by
  refine holds_boot ?_ ?_ ?_ <;> constructor <;>
    simp [mainThread, idleThread, initThread, Pc.tested, Pc.exiting]

end Exiting

lemma waitsAlone_of_reached (reached : ReachedWhere ExitsInTime threads) :
  ReachedWhere WaitsAlone threads := by
  refine reached.mono ?_
  rintro pre next ⟨running, tid, label, taken, alone, -⟩
  exact ⟨running, tid, label, taken, alone⟩

lemma Exiting.of_reached (reached : ReachedWhere ExitsInTime threads) : Exiting threads := by
  induction reached with
  | start isInitial =>
    subst isInitial
    exact of_boot
  | next pre taken ih =>
    rcases taken with ⟨running, _, _, taken, -, untested⟩
    exact ih.step (Waiting.of_reached (waitsAlone_of_reached pre)) (Family.of_reached pre)
      running taken untested

/-- No child has followed a parent pointer that is null or of a dead thread, and no
child waits to be let go by a parent that is dead. -/
structure OrphansSafe (threads : Threads) : Prop where
  notBad : threads.fault ≠ some .badParent
  notStuck : ∀ {tid thread creator creatorThread}, threads.thread tid = some thread →
    thread.pc = .exitDown → thread.waitBlock = 0 → thread.creator = some creator →
      threads.thread creator = some creatorThread → creatorThread.pc ≠ .dead

lemma ExitKin.parent_stays (kin : ExitKin tid thread child childThread)
  (hasParent : childThread.parent = some tid) (tested : childThread.pc.tested = true)
  (unraised : childThread.waitBlock = 0) : thread.pc ≠ .dead := by
  have linked := kin.linked hasParent (by grind -linarith) (by grind -linarith)
  grind -linarith

lemma Step.badParent (taken : Step threads tid label after) (running : threads.fault = none)
  (stopped : after.fault = some .badParent) : ∃ thread ptr, threads.thread tid = some thread ∧
    (thread.pc = .loading ∧ ptr = thread.parent ∨ thread.pc = .exitUp ptr) ∧
      ∀ target, ptr = some target → threads.live target = false := by
  cases taken with
  | @faults thread _ _ isThr fails =>
    cases stopped
    cases fails with
    | @pointer ptr _ follows bad =>
      refine ⟨thread, ptr, isThr, ?_, bad⟩
      unfold Thread.follows at follows
      split at follows <;> simp_all
  | created isThr stands isAdded =>
    simp_all
  | _ => simp_all

lemma Family.parent_live_of_loading (family : Family threads)
  (isThr : threads.thread tid = some thread) (stands : thread.pc = .loading) :
  ∃ parent, thread.parent = some parent ∧ threads.live parent = true := by
  rcases Option.ne_none_iff_exists'.mp ((family.holds.own isThr).points.loading stands) with
    ⟨parent, isCreator⟩
  rcases family.tree.rooted isThr isCreator with ⟨parentThr, isParent⟩
  have kin := family.holds.kin isParent isThr isCreator
  rcases Pc.running_of_creates (kin.loaded.loading stands) with ⟨executes, running⟩
  have isChild := (family.holds.own isParent).listed.executes tid executes
  refine ⟨parent, kin.held.parent isChild running, Threads.live_of_pc isParent ?_⟩
  intro dead
  rw [dead] at running
  cases running

lemma Exiting.parent_live_of_exitUp (exiting : Exiting threads) (family : Family threads)
  (isThr : threads.thread tid = some thread) {ptr : Option ℕ}
  (stands : thread.pc = .exitUp ptr) :
  ∃ parent, ptr = some parent ∧ threads.live parent = true := by
  have own := exiting.own isThr
  have tested : thread.pc.tested = true := by rw [stands]; rfl
  rcases Option.ne_none_iff_exists'.mp (own.tested tested) with ⟨parent, hasParent⟩
  have isCreator := family.isCreator_of_parent isThr hasParent
  rcases family.tree.rooted isThr isCreator with ⟨parentThr, isParent⟩
  have kin := exiting.kin isParent isThr isCreator
  refine ⟨parent, (own.follows ptr stands).trans hasParent, Threads.live_of_pc isParent ?_⟩
  refine kin.parent_stays hasParent tested ?_
  by_contra raised
  have signalled := kin.raised (Nat.pos_of_ne_zero raised)
  rw [stands] at signalled
  cases signalled

lemma notBad_of_reached (reached : ReachedWhere ExitsInTime threads) :
  threads.fault ≠ some .badParent := by
  cases reached with
  | start isInitial =>
    subst isInitial
    simp [boot]
  | next pre taken =>
    rcases taken with ⟨running, tid, label, taken, -⟩
    intro stopped
    have family := Family.of_reached pre
    rcases taken.badParent running stopped with
      ⟨thread, ptr, isThr, ⟨stands, rfl⟩ | stands, bad⟩
    · rcases family.parent_live_of_loading isThr stands with ⟨parent, isPtr, inUse⟩
      rw [bad parent isPtr] at inUse
      cases inUse
    rcases (Exiting.of_reached pre).parent_live_of_exitUp family isThr stands with
      ⟨parent, isPtr, inUse⟩
    rw [bad parent isPtr] at inUse
    cases inUse

/-- In every run in which every wait is woken by its child and every parent pointer is
cleared before the child tests it, orphans are safe in every state. -/
theorem orphansSafe_of_reached (reached : ReachedWhere ExitsInTime threads) :
    OrphansSafe threads := by
  have family := Family.of_reached reached
  have exiting := Exiting.of_reached reached
  refine ⟨notBad_of_reached reached, ?_⟩
  intro tid thread creator creatorThread isThread stands unraised isCreator isParent
  have tested : thread.pc.tested = true := by rw [stands]; rfl
  rcases Option.ne_none_iff_exists'.mp ((exiting.own isThread).tested tested) with
    ⟨parent, hasParent⟩
  cases isCreator.symm.trans (family.isCreator_of_parent isThread hasParent)
  exact (exiting.kin isParent isThread isCreator).parent_stays hasParent tested unraised

def parentAndChild : List (ℕ × Choice) :=
  executing 1 3 3 .succeed ++ (3, .succeed) :: executing 3 4 4 .succeed ++ [(4, .succeed)]

def parentEnds : List (ℕ × Choice) :=
  (3, .exit 0) :: List.replicate 6 (3, .succeed) ++
    (1, .wait 3) :: List.replicate 4 (1, .succeed) ++ List.replicate 2 (3, .succeed)

/-- A parent exits before its child does, and the child finishes as an orphan. -/
theorem orphansSafe_orphan :
    ∃ threads thread childThread, ReachedWhere ExitsInTime threads ∧
      threads.thread 3 = some thread ∧ thread.pc = .dead ∧
        threads.thread 4 = some childThread ∧ childThread.pc = .exitFinish ∧
          OrphansSafe threads := by
  rcases exists_reached ExitsInTime
    (parentAndChild ++ parentEnds ++ [(4, .exit 5), (4, .succeed), (4, .succeed)])
    (fun threads => (threads.has 3 fun thread => thread.pc = .dead) &&
      threads.has 4 fun thread => thread.pc = .exitFinish)
    (by decide +kernel) with ⟨threads, reached, passes⟩
  rw [Bool.and_eq_true] at passes
  rcases Threads.exists_of_has passes.1 with ⟨thread, isThread, stands⟩
  rcases Threads.exists_of_has passes.2 with ⟨childThread, isChild, finishes⟩
  exact ⟨threads, thread, childThread, reached, isThread, of_decide_eq_true stands, isChild,
    of_decide_eq_true finishes, orphansSafe_of_reached reached⟩

lemma reached_badParent_cleared :
  ∃ threads, Reached threads ∧ threads.fault = some .badParent := by
  rcases exists_reached (fun _ _ _ => True)
    (parentAndChild ++ [(4, .exit 5), (4, .succeed), (4, .succeed), (3, .exit 0), (3, .succeed),
      (4, .succeed), (4, .succeed)])
    (fun threads => threads.fault = some .badParent)
    (by decide +kernel) with ⟨threads, reached, stopped⟩
  exact ⟨threads, reached, of_decide_eq_true stopped⟩

lemma reached_badParent_dead :
  ∃ threads thread, Reached threads ∧ threads.thread 3 = some thread ∧ thread.pc = .dead ∧
    threads.fault = some .badParent := by
  rcases exists_reached (fun _ _ _ => True)
    (parentAndChild ++ executing 3 5 5 .succeed ++ exiting 5 0 ++
      (3, .wait 4) :: List.replicate 5 (3, .succeed) ++ parentEnds ++
      (4, .exit 0) :: List.replicate 4 (4, .succeed))
    (fun threads => (threads.has 3 fun thread => thread.pc = .dead) &&
      decide (threads.fault = some .badParent))
    (by decide +kernel) with ⟨threads, reached, passes⟩
  rw [Bool.and_eq_true] at passes
  rcases Threads.exists_of_has passes.1 with ⟨thread, isThr, stands⟩
  exact ⟨threads, thread, reached, isThr, of_decide_eq_true stands, of_decide_eq_true passes.2⟩

lemma reached_stuck :
  ∃ threads thread childThread, Reached threads ∧ threads.thread 3 = some thread ∧
    thread.pc = .dead ∧ threads.thread 4 = some childThread ∧ childThread.pc = .exitDown ∧
      childThread.waitBlock = 0 ∧ childThread.creator = some 3 := by
  rcases exists_reached (fun _ _ _ => True)
    (parentAndChild ++ (4, .exit 5) :: List.replicate 4 (4, .succeed) ++ parentEnds)
    (fun threads => (threads.has 3 fun thread => thread.pc = .dead) && threads.has 4 fun thread =>
        thread.pc = .exitDown ∧ thread.waitBlock = 0 ∧ thread.creator = some 3)
    (by decide +kernel) with ⟨threads, reached, passes⟩
  rw [Bool.and_eq_true] at passes
  rcases Threads.exists_of_has passes.1 with ⟨thread, isThr, stands⟩
  rcases Threads.exists_of_has passes.2 with ⟨childThread, isChild, waits⟩
  exact ⟨threads, thread, childThread, reached, isThr, of_decide_eq_true stands, isChild,
    of_decide_eq_true waits⟩

/-- In some runs a child follows a cleared pointer, in some the pointer of a dead
parent, and in some it waits for ever. -/
theorem not_orphansSafe_late :
    (∃ threads, Reached threads ∧ threads.fault = some .badParent ∧ ¬OrphansSafe threads) ∧
    (∃ threads thread, Reached threads ∧ threads.thread 3 = some thread ∧ thread.pc = .dead ∧
      threads.fault = some .badParent ∧ ¬OrphansSafe threads) ∧
    ∃ threads thread childThread, Reached threads ∧ threads.thread 3 = some thread ∧
      thread.pc = .dead ∧ threads.thread 4 = some childThread ∧ childThread.pc = .exitDown ∧
        childThread.waitBlock = 0 ∧ ¬OrphansSafe threads := by
  refine ⟨?_, ?_, ?_⟩
  · rcases reached_badParent_cleared with ⟨threads, reached, stopped⟩
    exact ⟨threads, reached, stopped, fun safe => safe.notBad stopped⟩
  · rcases reached_badParent_dead with ⟨threads, thread, reached, isThread, stands, stopped⟩
    exact ⟨threads, thread, reached, isThread, stands, stopped, fun safe => safe.notBad stopped⟩
  rcases reached_stuck with ⟨threads, thread, childThread, reached, isThread, stands, isChild,
    waits, unraised, isCreator⟩
  exact ⟨threads, thread, childThread, reached, isThread, stands, isChild, waits, unraised,
    fun safe => safe.notStuck isChild waits unraised isCreator isThread stands⟩

end Pintos.Process
