import Pintos.Userprog.FamilySteps
import Pintos.Userprog.Schedule

/-!
# Waiting for a child

All children of a process raise the one `sema_parent_block` of their parent, and
`process_wait` takes a raise without knowing whose it is. When no `process_wait`
takes a raise while only siblings have raised the semaphore, every wait is woken
by the child it waits for and returns that child's status.
-/

namespace Pintos.Process

@[grind]
def Pc.signalled : Pc → Bool
  | exitDown | exitFinish | dead => true
  | user | idle | execEntered | execCreate | execLookup _ _ | execAssign _ | execDown _
  | execReadLoad _ | execReturn _ _ | loading | loadReturned _ | waitSearch _ | waitDown _
  | waitReadStatus _ | waitUp _ _ | waitReturn _ _ | exitClear _ | exitNext _ _ | exitTest
  | exitReread | exitUp _ => false

@[grind →]
lemma Pc.exiting_of_signalled {pc : Pc} (signalled : pc.signalled = true) :
  pc.exiting = true := by
  cases pc <;> first | rfl | cases signalled

/-- When a `process_wait` for `child` is woken, the child has raised the semaphore or
none of the other children still to be waited for has. -/
def WaitsAlone (threads : Threads) (tid : ℕ) (label : Label) : Prop :=
  match label, threads.thread tid with
  | .takeSignal child, some thread =>
    child ∈ thread.raised ∨ ∀ sibling ∈ thread.children, sibling ∉ thread.raised
  | _, _ => True

instance (threads : Threads) (tid : ℕ) (label : Label) :
    Decidable (WaitsAlone threads tid label) :=
  match label, isThread : threads.thread tid with
  | .takeSignal child, some thread =>
    decidable_of_iff
      (child ∈ thread.raised ∨ ∀ sibling ∈ thread.children, sibling ∉ thread.raised)
      (by simp only [WaitsAlone, isThread])
  | .takeSignal _, none => isTrue (by simp only [WaitsAlone, isThread])
  | .other, _ => isTrue trivial
  | .copyLine _, _ => isTrue trivial
  | .threadCreate _, _ => isTrue trivial
  | .readLoad _, _ => isTrue trivial
  | .clearParent _, _ => isTrue trivial

structure WaitOwn (thread : Thread) : Prop where
  count : thread.semaParentBlock = thread.raised.length
  nodup : thread.raised.Nodup
  raised : ∀ child ∈ thread.raised, child ∈ thread.children ∨ thread.pc = .waitDown child
  missed : ∀ result, thread.pc = .waitReturn none result → result = -1

structure WaitKin (tid : ℕ) (thread : Thread) (child : ℕ) (childThread : Thread) : Prop where
  raised : child ∈ thread.raised → childThread.pc.signalled = true
  unraised : childThread.pc.signalled = false →
    childThread.parent = some tid ∨ childThread.pc = .exitUp (some tid) →
      child ∈ thread.children ∨ thread.pc = .waitDown child
  woken : thread.pc = .waitReadStatus child → childThread.pc.signalled = true
  read : ∀ stat, thread.pc = .waitUp child stat →
    childThread.pc.signalled = true ∧ childThread.died = some stat
  returned : ∀ result, thread.pc = .waitReturn (some child) result →
    childThread.died = some result

attribute [grind cases] WaitOwn WaitKin

variable {threads after : Threads} {tid child parent other : ℕ}
  {thread childThread otherThr moved : Thread} {label : Label}

lemma WaitOwn.mem_raised (own : WaitOwn thread) (stands : thread.pc = .waitDown child)
  (up : 0 < thread.semaParentBlock)
  (alone : child ∈ thread.raised ∨ ∀ sibling ∈ thread.children, sibling ∉ thread.raised) :
  child ∈ thread.raised := by
  rcases alone with isRaised | noSibling
  · exact isRaised
  rw [own.count] at up
  rcases List.exists_mem_of_length_pos up with ⟨raiser, isRaised⟩
  rcases own.raised raiser isRaised with isSibling | waits
  · exact absurd isRaised (noSibling raiser isSibling)
  rw [stands] at waits
  cases waits
  exact isRaised

lemma Move.takes (moves : Move thread label moved) (stands : thread.pc = .waitDown child) :
  label = .takeSignal child ∧ 0 < thread.semaParentBlock := by
  cases moves <;> simp_all

namespace Turn

variable (turn : Turn threads thread moved)

include turn

lemma keeps_waitOwn (own : WaitOwn thread)
  (takes : ∀ child, thread.pc = .waitDown child → child ∈ thread.raised) : WaitOwn moved := by
  cases turn with
  | own moves =>
    cases moves <;> constructor <;>
      grind -linarith [List.Nodup.erase, List.length_erase_of_mem]
  | look looks => cases looks <;> constructor <;> grind -linarith
  | _ => constructor <;> grind -linarith

lemma keeps_wait_parent (takes : ∀ child, thread.pc = .waitDown child → child ∈ thread.raised)
  (isChild : threads.thread child = some childThread) (ends : Ends childThread)
  (kin : WaitKin tid thread child childThread) : WaitKin tid moved child childThread := by
  cases turn with
  | own moves => cases moves <;> constructor <;> grind -linarith
  | look looks => cases looks <;> constructor <;> grind -linarith
  | _ => constructor <;> grind -linarith

lemma keeps_wait_child (ends : Ends thread) (kin : WaitKin other otherThr tid thread) :
  WaitKin other otherThr tid moved := by
  cases turn with
  | own moves => cases moves <;> constructor <;> grind -linarith
  | look looks => cases looks <;> constructor <;> grind -linarith
  | _ => constructor <;> grind -linarith

end Turn

/-- The raises of every `sema_parent_block` are those of children still to be waited
for, and every wait under way has been woken by its child. -/
abbrev Waiting (threads : Threads) : Prop :=
  Holds Thread.creator WaitOwn WaitKin threads.thread

namespace Waiting

lemma own_step (waiting : Waiting threads) {idx : ℕ}
  (takes : ∀ thread child, threads.thread tid = some thread → thread.pc = .waitDown child →
    child ∈ thread.raised) (change : OwnStep threads after tid idx thread moved)
  (own : WaitOwn thread) : WaitOwn moved := by
  cases change with
  | turn isThr isMoved turn => exact turn.keeps_waitOwn own (fun child => takes _ child isThr)
  | exitUp isParent isThr isCreator stands =>
    have kin := waiting.kin isParent isThr isCreator
    constructor <;> grind -linarith
  | _ => constructor <;> grind -linarith

lemma kin_step (family : Family threads) {childMoved : Thread}
  (takes : ∀ thread child, threads.thread tid = some thread → thread.pc = .waitDown child →
    child ∈ thread.raised)
  (change : PairStep threads after tid parent thread moved child childThread childMoved)
  (kin : WaitKin parent thread child childThread) : WaitKin parent moved child childMoved := by
  cases change with
  | parentTurn isThr _ isChild _ turn =>
    exact turn.keeps_wait_parent (fun child => takes _ child isThr) isChild
      (family.holds.own isChild).ends kin
  | childTurn isThr turn => exact turn.keeps_wait_child (family.holds.own isThr).ends kin
  | loadDone isThr stands =>
    constructor <;> grind -linarith
  | waitUp isThr stands isChild isCreator =>
    constructor <;> grind -linarith
  | exitUp isThr stands =>
    constructor <;> grind -linarith
  | _ => constructor <;> grind -linarith

lemma takes (waiting : Waiting threads) (taken : Step threads tid label after)
  (runs : after.fault = none) (alone : WaitsAlone threads tid label)
  (isThr : threads.thread tid = some thread)
  (stands : thread.pc = .waitDown child) : child ∈ thread.raised := by
  cases taken with
  | own isSame moves =>
    cases isThr.symm.trans isSame
    rcases moves.takes stands with ⟨rfl, up⟩
    simp only [WaitsAlone, isThr] at alone
    exact (waiting.own isThr).mem_raised stands up alone
  | look isSame looks => cases looks <;> simp_all
  | faults => cases runs
  | _ => simp_all

lemma step (waiting : Waiting threads) (family : Family threads) (running : threads.fault = none)
  (taken : Step threads tid label after) (alone : WaitsAlone threads tid label) :
  Waiting after := by
  refine family.holds_step running waiting taken (fun runs _ _ _ _ => waiting.own_step fun _ _ =>
    waiting.takes taken runs alone) (fun runs _ _ _ _ _ _ => kin_step family fun _ _ =>
    waiting.takes taken runs alone) ?_ ?_
  · constructor <;> simp [initThread]
  intro thread elem isThr stands
  have own := waiting.own isThr
  have isNew : threads.nextTid ∉ thread.raised := by
    intro isRaised
    rcases own.raised _ isRaised with isChild | waits
    · rcases family.tree.created isThr (Or.inl isChild) with ⟨_, isThere, -⟩
      exact Nat.lt_irrefl _ (family.tree.lt_nextTid isThere)
    rw [stands] at waits
    cases waits
  constructor <;> grind -linarith [initThread]

lemma of_boot : Waiting boot := by
  refine holds_boot ?_ ?_ ?_ <;> constructor <;> simp [mainThread, idleThread, initThread]

lemma of_reached (reached : ReachedWhere WaitsAlone threads) : Waiting threads := by
  induction reached with
  | start isInitial =>
    subst isInitial
    exact of_boot
  | next pre taken ih =>
    rcases taken with ⟨running, _, _, taken, alone⟩
    exact ih.step (Family.of_reached pre) running taken alone

end Waiting

def Unwaited (threads : Threads) (tid child : ℕ) : Prop :=
  ∃ thread childThread, threads.thread tid = some thread ∧
    threads.thread child = some childThread ∧ childThread.creator = some tid ∧
      child ∉ thread.waited

lemma Family.mem_children_iff (family : Family threads)
  (isThr : threads.thread tid = some thread) :
  child ∈ thread.children ↔ Unwaited threads tid child := by
  constructor
  · intro isChild
    rcases family.tree.created isThr (Or.inl isChild) with ⟨created, isCreated, isCreator⟩
    exact ⟨thread, created, isThr, isCreated, isCreator,
      (family.holds.own isThr).listed.apart child isChild⟩
  rintro ⟨same, created, isSame, isCreated, isCreator, notWaited⟩
  rw [isThr] at isSame
  cases isSame
  exact (family.holds.kin isThr isCreated isCreator).held.listed.resolve_right notWaited

/-- A call of `process_wait` for a child that has not been waited for waits for it and
returns only when the child has started to exit, and then what it ends with. Any other
call returns -1 at once. -/
structure WaitsRight (threads : Threads) : Prop where
  waits : ∀ {tid thread label after} {child : ℕ}, threads.thread tid = some thread →
    thread.pc = .waitSearch child → Unwaited threads tid child → Step threads tid label after →
      ∃ moved, after.thread tid = some moved ∧ moved.pc = .waitDown child
  returned : ∀ {tid thread child result}, threads.thread tid = some thread →
    thread.pc = .waitReturn (some child) result →
      ∃ childThread, threads.thread child = some childThread ∧
        childThread.pc.exiting = true ∧ childThread.died = some result
  missed : ∀ {tid thread target}, threads.thread tid = some thread →
    thread.pc = .waitSearch target →
      (∀ child, Unwaited threads tid child → (child : ℤ) ≠ target) →
        ∀ {label after}, Step threads tid label after ↔
          label = .other ∧ after = threads.put tid { thread with pc := .waitReturn none (-1) }
  failed : ∀ {tid thread result}, threads.thread tid = some thread →
    thread.pc = .waitReturn none result → result = -1

lemma Step.of_search {target : ℤ} (taken : Step threads tid label after)
  (isThr : threads.thread tid = some thread) (stands : thread.pc = .waitSearch target) :
  label = .other ∧
    ((∃ child ∈ thread.children, (child : ℤ) = target ∧
      after = threads.put tid { thread with
        children := thread.children.erase child
        waited := child :: thread.waited
        pc := .waitDown child }) ∨
    (∀ child ∈ thread.children, (child : ℤ) ≠ target) ∧
      after = threads.put tid { thread with pc := .waitReturn none (-1) }) := by
  cases taken with
  | own isThread' moves =>
    rw [isThr] at isThread'
    cases isThread'
    cases moves <;> simp_all
    all_goals grind -linarith
  | look isThread' looks =>
    rw [isThr] at isThread'
    cases isThread'
    cases looks <;> simp_all
  | faults isThread' fails =>
    rw [isThr] at isThread'
    cases isThread'
    cases fails with
    | pointer follows bad => simp [Thread.follows, stands] at follows
    | line entered bad => simp [stands] at entered
  | _ => simp_all

/-- In every run in which no `process_wait` takes a raise while only siblings of its
child have raised the semaphore, `process_wait` is right in every state. -/
theorem waitsRight_of_reached (reached : ReachedWhere WaitsAlone threads) :
    WaitsRight threads := by
  have family := Family.of_reached reached
  have waiting := Waiting.of_reached reached
  refine ⟨?_, ?_, ?_, ?_⟩
  · intro tid thread label after child isThread stands unwaited taken
    rcases taken.of_search isThread stands with
      ⟨-, ⟨found, -, isTarget, rfl⟩ | ⟨missed, -⟩⟩
    · cases Int.ofNat_inj.mp isTarget
      exact ⟨_, Function.update_self .., rfl⟩
    · exact absurd rfl (missed child ((family.mem_children_iff isThread).mpr unwaited))
  · intro tid thread child result isThread stands
    have waited := (family.holds.own isThread).listed.waitsFor child (by rw [stands]; rfl)
    rcases family.tree.created isThread (Or.inr waited) with ⟨childThread, isChild, isCreator⟩
    have died := (waiting.kin isThread isChild isCreator).returned result stands
    refine ⟨childThread, isChild, ?_, died⟩
    by_contra running
    have alive := ((family.holds.own isChild).ends.running (Bool.eq_false_iff.mpr running)).2
    rw [alive] at died
    cases died
  · intro tid thread target isThread stands noChild label after
    have missed : ∀ child ∈ thread.children, (child : ℤ) ≠ target :=
      fun child isChild => noChild child ((family.mem_children_iff isThread).mp isChild)
    constructor
    · intro taken
      rcases taken.of_search isThread stands with
        ⟨isOther, ⟨found, isChild, isTarget, -⟩ | ⟨-, isAfter⟩⟩
      · exact absurd isTarget (missed found isChild)
      · exact ⟨isOther, isAfter⟩
    rintro ⟨rfl, rfl⟩
    exact .own isThread (.waitMissed stands missed)
  intro tid thread result isThread stands
  exact (waiting.own isThread).missed result stands

/-- A parent waits for its child and gets the status the child exits with. -/
theorem waitsRight_seven :
    ∃ threads thread, ReachedWhere WaitsAlone threads ∧ threads.thread 1 = some thread ∧
      thread.pc = .waitReturn (some 3) 7 ∧ WaitsRight threads := by
  rcases exists_reached WaitsAlone
    (executing 1 3 3 .succeed ++ exiting 3 7 ++ (1, .wait 3) :: List.replicate 4 (1, .succeed))
    (fun threads => threads.has 1 fun thread => thread.pc = .waitReturn (some 3) 7)
    (by decide +kernel) with ⟨threads, reached, passes⟩
  rcases Threads.exists_of_has passes with ⟨thread, isThread, stands⟩
  exact ⟨threads, thread, reached, isThread, of_decide_eq_true stands,
    waitsRight_of_reached reached⟩

/-- A parent has two children. The younger exits; the wait for the older takes its
raise and returns while the older still runs. -/
theorem not_waitsRight_sibling :
    ∃ threads thread childThread, Reached threads ∧ threads.thread 1 = some thread ∧
      thread.pc = .waitReturn (some 3) (-1) ∧ threads.thread 3 = some childThread ∧
        childThread.pc = .user ∧ ¬WaitsRight threads := by
  rcases exists_reached (fun _ _ _ => True)
    (executing 1 3 3 .succeed ++ executing 1 4 4 .succeed ++ (3, .succeed) :: exiting 4 5 ++
      (1, .wait 3) :: List.replicate 4 (1, .succeed))
    (fun threads => (threads.has 1 fun thread => thread.pc = .waitReturn (some 3) (-1)) &&
      threads.has 3 fun thread => thread.pc = .user)
    (by decide +kernel) with ⟨threads, reached, passes⟩
  rw [Bool.and_eq_true] at passes
  rcases Threads.exists_of_has passes.1 with ⟨thread, isThread, stands⟩
  rcases Threads.exists_of_has passes.2 with ⟨childThread, isChild, runs⟩
  rw [decide_eq_true_eq] at stands runs
  refine ⟨threads, thread, childThread, reached, isThread, stands, isChild, runs, ?_⟩
  intro right
  rcases right.returned isThread stands with ⟨same, isSame, exits, -⟩
  rw [isChild] at isSame
  cases isSame
  rw [runs] at exits
  cases exits

end Pintos.Process
