import Pintos.Library.Reachability
import Pintos.Threads.Scheduler

/-!
# The ready list

In every run of the operations of the scheduler the ready list holds exactly the
threads that are ready, apart from the idle thread, in the order in which they
are to run, and no thread on it waits for a semaphore. So `next_thread_to_run`
always finds the thread of highest priority that has been ready for longest.

`Queued` is what every section with interrupts off keeps, whether it runs between
two operations or right before `schedule`. `Permitted` says who calls what: the
idle thread does not exit and does not wait for semaphores, `thread_unblock` is
called for a thread that is not in `sema_down` and not for the idle thread, and
`palloc_get_page` returns a page that is not in use. A thread that runs again
inside `sema_down` first tests the value again.
-/

namespace Pintos.Threads

open Pintos.Computation Function

variable {Sema : Type} {first address : ℕ} {rest : List ℕ} {schedules : Bool} {sema : Sema}

lemma pairwise_orderedInsert {Element : Type} {precedes less : Element → Element → Prop}
  [DecidableRel less] [IsTrans Element precedes] {new : Element} {list : List Element}
  (pairwise : list.Pairwise precedes) (pre : ∀ old ∈ list, less new old → precedes new old)
  (behind : ∀ old ∈ list, ¬ less new old → precedes old new) :
  (list.orderedInsert less new).Pairwise precedes := by
  induction list with
  | nil => exact List.pairwise_singleton _ _
  | cons head tail ih =>
    rw [List.orderedInsert_cons]
    split
    · next isLess =>
        grind [List.pairwise_cons]
    next notLess =>
      grind [List.pairwise_cons, List.mem_orderedInsert]

namespace Scheduler

def HasStatus (state : Scheduler Sema) (address : ℕ) (status : Status) : Prop :=
  ∃ thread, state.threads address = some thread ∧ thread.status = status

/-- One thread is to run before another: it has a higher priority, or the same and has been
inserted earlier. -/
def Precedes (state : Scheduler Sema) (one two : ℕ) : Prop :=
  state.priority two < state.priority one ∨
    state.priority two = state.priority one ∧ state.enqueued one < state.enqueued two

instance (state : Scheduler Sema) : IsTrans ℕ state.Precedes where
  trans one two three first second := by
    unfold Precedes at *
    omega

structure Queued (state : Scheduler Sema) : Prop where
  ordered : state.readyList.Pairwise state.Precedes
  mem_iff : ∀ address, address ∈ state.readyList ↔
    state.HasStatus address .ready ∧ some address ≠ state.idleThread
  stamped : ∀ address ∈ state.readyList, state.enqueued address < state.clock
  waiting : ∀ sema, ∀ address ∈ (state.semas sema).waiters, ∃ thread,
    state.threads address = some thread ∧ thread.status = .blocked ∧ thread.inDown = some sema
  once : ∀ sema, (state.semas sema).waiters.Nodup
  idle : ∃ address thread, state.idleThread = some address ∧
    state.threads address = some thread ∧ thread.status ≠ .dying ∧ thread.inDown = none

variable {changed : Semaphore ℕ}

section Lookups

variable {state : Scheduler Sema} {other : ℕ} {thread : Option (Thread Sema)}

lemma setThread_threads_self : (state.setThread address thread).threads address = thread :=
  update_self ..

lemma setThread_threads_of_ne (ne : other ≠ address) :
  (state.setThread address thread).threads other = state.threads other :=
  update_of_ne ne ..

@[grind =]
lemma setThread_threads : (state.setThread address thread).threads other =
  if other = address then thread else state.threads other :=
  update_apply ..

@[grind =]
lemma setThread_running : (state.setThread address thread).running = state.running := rfl

@[grind =]
lemma setThread_readyList : (state.setThread address thread).readyList = state.readyList := rfl

@[grind =]
lemma setThread_idleThread : (state.setThread address thread).idleThread = state.idleThread := rfl

@[grind =]
lemma setThread_semas (sema : Sema) :
  (state.setThread address thread).semas sema = state.semas sema := rfl

@[grind =]
lemma setSema_semas [DecidableEq Sema] (sema other : Sema) (changed : Semaphore ℕ) :
  (state.setSema sema changed).semas other = if other = sema then changed else state.semas other :=
  update_apply ..

@[grind =]
lemma setSema_threads [DecidableEq Sema] (sema : Sema) (changed : Semaphore ℕ) :
  (state.setSema sema changed).threads other = state.threads other := rfl

lemma setSema_running [DecidableEq Sema] :
  (state.setSema sema changed).running = state.running := rfl

lemma setThread_setThread {changed : Option (Thread Sema)} :
  (state.setThread address thread).setThread address changed =
    state.setThread address changed := by
  simp [setThread]

lemma setThread_priority_of_ne (ne : other ≠ address) :
  (state.setThread address thread).priority other = state.priority other := by
  rw [priority, setThread_threads_of_ne ne]
  rfl

lemma setThread_precedes {one two : ℕ} (left : one ≠ address) (right : two ≠ address) :
  (state.setThread address thread).Precedes one two ↔ state.Precedes one two := by
  unfold Precedes
  rw [setThread_priority_of_ne left, setThread_priority_of_ne right]
  rfl

end Lookups

namespace Queued

variable {state : Scheduler Sema} {thread : Thread Sema}

section

variable (queued : state.Queued)
include queued

lemma not_mem (isThr : state.threads address = some thread) (notReady : thread.status ≠ .ready) :
  address ∉ state.readyList := by
  have mem := queued.mem_iff address
  grind [HasStatus]

lemma not_waiting (isThr : state.threads address = some thread)
  (notBlocked : thread.status ≠ .blocked) (sema : Sema) :
  address ∉ (state.semas sema).waiters := by
  have waiting := queued.waiting sema address
  grind

lemma not_waiting_of_outside (isThr : state.threads address = some thread)
  (outside : thread.inDown = none) (sema : Sema) : address ∉ (state.semas sema).waiters := by
  have waiting := queued.waiting sema address
  grind

lemma idle_outside (isIdle : some address = state.idleThread)
  (isThr : state.threads address = some thread) : thread.inDown = none := by
  have idle := queued.idle
  grind

lemma nodup : state.readyList.Nodup := by
  refine queued.ordered.imp ?_
  grind [Precedes]

lemma set {changed : Option (Thread Sema)} (notListed : address ∉ state.readyList)
  (notWaiting : ∀ sema, address ∉ (state.semas sema).waiters)
  (notReady : some address ≠ state.idleThread → ∀ record, changed = some record →
    record.status ≠ .ready)
  (idleKept : some address = state.idleThread → ∃ record, changed = some record ∧
    record.status ≠ .dying ∧ record.inDown = none) :
  (state.setThread address changed).Queued := by
  rcases queued with ⟨ordered, mem_iff, stamped, waiting, once, idle⟩
  refine ⟨?_, ?_, stamped, ?_, once, ?_⟩
  · refine List.Pairwise.imp_of_mem ?_ ordered
    intro one two left right
    exact (setThread_precedes (ne_of_mem_of_not_mem left notListed)
      (ne_of_mem_of_not_mem right notListed)).mpr
  · grind [HasStatus]
  · grind
  · grind

lemma enqueued_ready (isThr : state.threads address = some thread)
  (notListed : address ∉ state.readyList)
  (notWaiting : ∀ sema, address ∉ (state.semas sema).waiters)
  (notIdle : some address ≠ state.idleThread) :
  ((state.enqueue address).setThread address (some { thread with status := .ready })).Queued := by
  set after := (state.enqueue address).setThread address (some { thread with status := .ready })
    with isAfter
  have threads : ∀ other, after.threads other =
      if other = address then some { thread with status := .ready } else state.threads other :=
    fun other => setThread_threads
  have priority_eq : ∀ other, after.priority other = state.priority other := by
    intro other
    grind [priority]
  have enqueued_eq : ∀ other, after.enqueued other =
      if other = address then state.clock else state.enqueued other :=
    fun other => update_apply ..
  have readyList : after.readyList = state.readyList.orderedInsert state.prioritycmp address := rfl
  have clock : after.clock = state.clock + 1 := rfl
  have semas : ∀ sema, after.semas sema = state.semas sema := fun _ => rfl
  have idleThread : after.idleThread = state.idleThread := rfl
  rcases queued with ⟨ordered, mem_iff, stamped, waiting, once, idle⟩
  refine ⟨?_, ?_, ?_, ?_, once, ?_⟩
  · have kept : state.readyList.Pairwise after.Precedes := by
      refine List.Pairwise.imp_of_mem ?_ ordered
      grind [Precedes]
    refine pairwise_orderedInsert kept ?_ ?_ <;> grind [Precedes, prioritycmp]
  · grind [HasStatus, List.mem_orderedInsert]
  · grind [List.mem_orderedInsert]
  · grind
  · grind

lemma dequeued (isList : state.readyList = first :: rest)
  (isThr : state.threads first = some thread) :
  (Scheduler.setThread { state with readyList := rest, running := first } first
    (some { thread with status := .running })).Queued := by
  have nodup := queued.nodup
  rcases queued with ⟨ordered, mem_iff, stamped, waiting, once, idle⟩
  rw [isList] at nodup ordered
  have notLater : first ∉ rest := (List.nodup_cons.mp nodup).1
  have isReady := ((mem_iff first).mp (isList ▸ List.mem_cons_self)).1
  refine ⟨?_, ?_, ?_, ?_, once, ?_⟩
  · refine List.Pairwise.imp_of_mem ?_ (List.pairwise_cons.mp ordered).2
    intro one two left right
    exact (setThread_precedes (ne_of_mem_of_not_mem left notLater)
      (ne_of_mem_of_not_mem right notLater)).mpr
  · grind [HasStatus]
  · intro other mem
    exact stamped other (isList ▸ List.mem_cons_of_mem _ mem)
  · grind [HasStatus]
  · grind [HasStatus]

end

section Semaphores

variable [DecidableEq Sema]

lemma setSema (queued : state.Queued)
  (fewer : changed.waiters.Sublist (state.semas sema).waiters) :
  (state.setSema sema changed).Queued := by
  have once := queued.once
  have waiting := queued.waiting
  refine ⟨queued.ordered, queued.mem_iff, queued.stamped, ?_, ?_, queued.idle⟩
  · grind [List.Sublist.subset]
  · grind [List.Nodup.sublist]

lemma blocked_on (queued : state.Queued) (notListed : address ∉ state.readyList)
  (notWaiting : ∀ other, address ∉ (state.semas other).waiters)
  (notIdle : some address ≠ state.idleThread)
  (pushed : changed.waiters = (state.semas sema).waiters ++ [address]) :
  ((state.setSema sema changed).setThread address
    (some { thread with status := .blocked, inDown := some sema })).Queued := by
  have queuedThr : (state.setThread address
      (some { thread with status := .blocked, inDown := some sema })).Queued :=
    queued.set notListed notWaiting (by simp) fun isIdle => absurd isIdle notIdle
  refine ⟨queuedThr.ordered, queuedThr.mem_iff, queuedThr.stamped, ?_, ?_,
    queuedThr.idle⟩
  · have waiting := queued.waiting
    intro other waiter mem
    grind
  have once := queued.once
  grind [List.nodup_append, List.nodup_singleton]

end Semaphores

end Queued

structure Resting (state : Scheduler Sema) : Prop where
  queued : state.Queued
  isRunning : state.HasStatus state.running .running

structure Leaving (state : Scheduler Sema) : Prop where
  queued : state.Queued
  notRunning : ∃ thread, state.threads state.running = some thread ∧ thread.status ≠ .running

def Entered (schedules : Bool) (state : Scheduler Sema) : Prop :=
  if schedules then state.Leaving else state.Resting

end Scheduler

section Entering

open Scheduler

variable {state after : Scheduler Sema} {thread : Thread Sema} {val : Unit} {priority : ℤ}

lemma getThread_eq_ok {record : Thread Sema}
  (ran : getThread address state = .ok (record, after)) :
  state.threads address = some record ∧ after = state := by
  unfold getThread at ran
  rw [reads_bind_apply] at ran
  cases isThr : state.threads address with
  | none =>
    rw [isThr] at ran
    cases ran
  | some found =>
    rw [isThr] at ran
    cases ran
    exact ⟨rfl, rfl⟩

lemma getThread_of_some (isThr : state.threads address = some thread) :
  getThread address state = .ok (thread, state) := by
  unfold getThread
  rw [reads_bind_apply, isThr]
  rfl

lemma threadCurrent_of_running (isThr : state.threads state.running = some thread)
  (isRunning : thread.status = .running) :
  threadCurrent state = .ok ((state.running, thread), state) := by
  unfold threadCurrent
  rw [reads_bind_apply, bind_of_ok (getThread_of_some isThr), if_pos isRunning]
  rfl

lemma threadBlock_of_running (isThr : state.threads state.running = some thread)
  (isRunning : thread.status = .running) : threadBlock state =
    .ok (true, state.setThread state.running (some { thread with status := .blocked })) := by
  unfold threadBlock
  rw [bind_of_ok (threadCurrent_of_running isThr isRunning)]
  rfl

section

variable (resting : state.Resting)
include resting

lemma threadCurrent_of_resting :
  ∃ thread, threadCurrent state = .ok ((state.running, thread), state) ∧
    state.threads state.running = some thread ∧ thread.status = .running := by
  rcases resting.isRunning with ⟨thread, isThr, isRunning⟩
  exact ⟨thread, threadCurrent_of_running isThr isRunning, isThr, isRunning⟩

lemma Scheduler.Resting.apart :
  state.running ∉ state.readyList ∧ ∀ sema, state.running ∉ (state.semas sema).waiters := by
  rcases resting.isRunning with ⟨thread, isThr, isRunning⟩
  exact ⟨resting.queued.not_mem isThr (by simp [isRunning]),
    resting.queued.not_waiting isThr (by simp [isRunning])⟩

lemma Scheduler.Resting.set {changed : Thread Sema}
  (isThr : state.threads state.running = some thread)
  (notReady : some state.running ≠ state.idleThread → changed.status ≠ .ready)
  (idleKept : some state.running = state.idleThread → thread.inDown = none →
    changed.status ≠ .dying ∧ changed.inDown = none) :
  (state.setThread state.running (some changed)).Queued := by
  refine resting.queued.set resting.apart.1 resting.apart.2 ?_ ?_
  · grind
  intro isIdle
  exact ⟨changed, rfl, idleKept isIdle (resting.queued.idle_outside isIdle isThr)⟩

lemma threadUnblock_rests_of (isThr : state.threads address = some thread)
  (notWaiting : ∀ sema, address ∉ (state.semas sema).waiters)
  (notIdle : some address ≠ state.idleThread)
  (ran : threadUnblock address state = .ok (val, after)) : after.Resting := by
  unfold threadUnblock at ran
  rw [bind_of_ok (getThread_of_some isThr)] at ran
  split at ran
  · next isBlocked =>
      cases ran
      have notListed := resting.queued.not_mem isThr (by simp [isBlocked])
      refine ⟨resting.queued.enqueued_ready isThr notListed notWaiting notIdle, ?_⟩
      rcases resting.isRunning with ⟨running, isRunning, status⟩
      have ne : state.running ≠ address := by
        grind
      exact ⟨running, (setThread_threads_of_ne ne).trans isRunning, status⟩
  · cases ran

lemma threadBlock_leaves (ran : threadBlock state = .ok (schedules, after)) :
  after.Entered schedules := by
  rcases threadCurrent_of_resting resting with ⟨thread, cur, isThr, isRunning⟩
  rw [threadBlock_of_running isThr isRunning] at ran
  cases ran
  exact ⟨resting.set isThr (by simp) (by simp), _, setThread_threads_self, by simp⟩

lemma threadExit_leaves (notIdle : some state.running ≠ state.idleThread)
  (ran : threadExit state = .ok (schedules, after)) : after.Entered schedules := by
  rcases threadCurrent_of_resting resting with ⟨thread, cur, isThr, isRunning⟩
  unfold threadExit at ran
  rw [bind_of_ok cur] at ran
  cases ran
  exact ⟨resting.set isThr (by simp) (fun isIdle => absurd isIdle notIdle), _,
    setThread_threads_self, by simp⟩

lemma threadYieldOff_leaves (ran : threadYieldOff state = .ok (schedules, after)) :
  after.Entered schedules := by
  rcases threadCurrent_of_resting resting with ⟨thread, cur, isThr, isRunning⟩
  unfold threadYieldOff at ran
  rw [bind_of_ok cur] at ran
  simp only [reads_bind_apply] at ran
  split at ran
  · next notIdle =>
      cases ran
      exact ⟨resting.queued.enqueued_ready isThr resting.apart.1 resting.apart.2 notIdle, _,
        setThread_threads_self, by simp⟩
  next isIdle =>
    cases ran
    exact ⟨resting.set isThr (fun notIdle => absurd notIdle isIdle) (by simp), _,
      setThread_threads_self, by simp⟩

lemma threadYield_enters {higher : Bool} (ran : threadYield higher state = .ok (schedules, after)) :
  after.Entered schedules := by
  rcases threadCurrent_of_resting resting with ⟨thread, cur, _⟩
  unfold threadYield at ran
  rw [bind_of_ok cur] at ran
  simp only [reads_bind_apply] at ran
  split at ran
  · cases ran
    exact resting
  · exact threadYieldOff_leaves resting ran

lemma setPriority_rests {newPriority : ℤ} (ran : setPriority newPriority state = .ok (val, after)) :
  after.Resting := by
  rcases threadCurrent_of_resting resting with ⟨thread, cur, isThr, isRunning⟩
  unfold setPriority at ran
  rw [bind_of_ok cur] at ran
  cases ran
  exact ⟨resting.set isThr (by simp [isRunning]) (by simp [isRunning]), _,
    setThread_threads_self, isRunning⟩

lemma initThread_rests (isFree : state.threads address = none)
  (ran : initThread address priority state = .ok (val, after)) :
  after.Resting ∧ after.idleThread = state.idleThread ∧ ∃ thread,
    after.threads address = some thread ∧ thread.inDown = none := by
  unfold initThread at ran
  split at ran
  · cases ran
    rcases resting.isRunning with ⟨thread, isThr, isRunning⟩
    have mem := resting.queued.mem_iff address
    have waiting := resting.queued.waiting
    have ne : state.running ≠ address := by
      grind
    refine ⟨⟨resting.queued.set ?_ ?_ (by simp) (by simp), ?_⟩, rfl, _, setThread_threads_self, rfl⟩
    · grind [HasStatus]
    · grind
    · exact ⟨thread, (setThread_threads_of_ne ne).trans isThr, isRunning⟩
  · cases ran

lemma threadUnblock_rests (notIdle : some address ≠ state.idleThread)
  (outside : ∀ thread, state.threads address = some thread → thread.inDown = none)
  (ran : threadUnblock address state = .ok (val, after)) : after.Resting := by
  rcases bind_eq_ok ran with ⟨thread, _, gets, _⟩
  rcases getThread_eq_ok gets with ⟨isThr, _⟩
  have notWaiting := resting.queued.not_waiting_of_outside isThr (outside thread isThr)
  exact threadUnblock_rests_of resting isThr notWaiting notIdle ran

lemma threadCreate_rests {page : Option ℕ}
  (isFree : ∀ address, page = some address → state.threads address = none)
  (ran : threadCreate page priority state = .ok (val, after)) : after.Resting := by
  cases page with
  | none =>
    cases ran
    exact resting
  | some address =>
    rcases bind_eq_ok ran with ⟨_, mid, inits, unblocks⟩
    rcases initThread_rests resting (isFree address rfl) inits with
      ⟨restingMid, sameIdle, thread, isThr, outside⟩
    refine threadUnblock_rests restingMid ?_ ?_ unblocks
    · have idle := resting.queued.idle
      grind
    · grind

end

section Semaphores

variable [DecidableEq Sema]

lemma semaDown_enters (resting : state.Resting) (notIdle : some state.running ≠ state.idleThread)
  (ran : semaDown sema state = .ok (schedules, after)) : after.Entered schedules := by
  rcases threadCurrent_of_resting resting with ⟨thread, cur, isThr, isRunning⟩
  unfold semaDown at ran
  rw [bind_of_ok cur] at ran
  simp only [reads_bind_apply, Semaphore.down] at ran
  by_cases zero : (state.semas sema).value = 0
  · simp only [if_pos zero, Bool.false_eq_true, if_false, updates_bind_apply] at ran
    set mid := (state.setSema sema _).setThread state.running _ with isMid
    have inside : mid.threads mid.running = some { thread with inDown := some sema } :=
      setThread_threads_self
    rw [threadBlock_of_running inside isRunning] at ran
    cases ran
    refine ⟨?_, _, setThread_threads_self, by simp⟩
    rw [setThread_running, setSema_running, setThread_setThread]
    exact resting.queued.blocked_on resting.apart.1 resting.apart.2 notIdle rfl
  simp only [if_neg zero, if_true] at ran
  cases ran
  have rested : (state.setSema sema
      { state.semas sema with value := (state.semas sema).value - 1 }).Resting :=
    ⟨resting.queued.setSema (List.Sublist.refl _), resting.isRunning⟩
  exact ⟨rested.set isThr (by simp [isRunning]) (by simp [isRunning]), _,
    setThread_threads_self, isRunning⟩

lemma semaUp_rests (resting : state.Resting) {val : Unit}
  (ran : semaUp sema state = .ok (val, after)) : after.Resting := by
  unfold semaUp at ran
  simp only [reads_bind_apply, Semaphore.up] at ran
  have fewer : ((state.semas sema).waiters.tail).Sublist (state.semas sema).waiters :=
    List.tail_sublist _
  have rested : (state.setSema sema
      { value := (state.semas sema).value + 1,
        waiters := (state.semas sema).waiters.tail }).Resting :=
    ⟨resting.queued.setSema fewer, resting.isRunning⟩
  cases isList : (state.semas sema).waiters with
  | nil =>
    simp only [isList] at ran rested
    cases ran
    exact rested
  | cons waiter rest =>
    simp only [isList, List.head?_cons, List.tail_cons] at ran rested
    have mem := isList ▸ List.mem_cons_self
    rcases resting.queued.waiting sema waiter mem with ⟨thread, isThr, isBlocked, inside⟩
    refine threadUnblock_rests_of rested isThr ?_ ?_ ran
    · have nodup := resting.queued.once sema
      have waiting := resting.queued.waiting
      grind
    intro isIdle
    rw [resting.queued.idle_outside isIdle isThr] at inside
    cases inside

end Semaphores

end Entering

section Scheduling

open Scheduler

variable {state after : Scheduler Sema} {thread : Thread Sema}

/-- `next_thread_to_run` returns a thread that is alive, and if threads are on the ready list, the
one that precedes all others. -/
def PicksRight (state : Scheduler Sema) : Prop :=
  ∃ next after thread, nextThreadToRun state = .ok (some next, after) ∧
    state.threads next = some thread ∧ thread.status ≠ .dying ∧
    (state.readyList ≠ [] → next ∈ state.readyList ∧
      ∀ other ∈ state.readyList, other ≠ next → state.Precedes next other)

lemma nextThreadToRun_nil (isNil : state.readyList = []) :
  nextThreadToRun state = .ok (state.idleThread, state) := by
  unfold nextThreadToRun
  rw [reads_bind_apply, isNil]
  rfl

lemma nextThreadToRun_cons (isCons : state.readyList = first :: rest) :
  nextThreadToRun state = .ok (some first, { state with readyList := rest }) := by
  unfold nextThreadToRun
  rw [reads_bind_apply, isCons]
  rfl

lemma picksRight_of_queued (queued : state.Queued) : PicksRight state := by
  cases isList : state.readyList with
  | nil =>
    rcases queued.idle with ⟨idle, thread, isIdle, isThr, alive, _⟩
    refine ⟨idle, state, thread, ?_, isThr, alive, fun notNil => absurd isList notNil⟩
    rw [nextThreadToRun_nil isList, isIdle]
  | cons first rest =>
    have listed := isList ▸ List.mem_cons_self
    have ordered := queued.ordered
    rw [isList] at ordered
    rcases ((queued.mem_iff first).mp listed).1 with ⟨thread, isThr, isReady⟩
    refine ⟨first, _, thread, nextThreadToRun_cons isList, isThr, ?_, ?_⟩
    · rw [isReady]
      decide
    intro _
    refine ⟨listed, ?_⟩
    intro other mem ne
    rw [isList] at mem
    exact (List.pairwise_cons.mp ordered).1 other ((List.mem_cons.mp mem).resolve_left ne)

lemma Scheduler.Resting.freed (resting : state.Resting)
  (isThr : state.threads address = some thread) (isDying : thread.status = .dying)
  (ne : state.running ≠ address) : (state.setThread address none).Resting := by
  refine ⟨resting.queued.set (resting.queued.not_mem isThr (by simp [isDying]))
    (resting.queued.not_waiting isThr (by simp [isDying])) (by simp) ?_, ?_⟩
  · have idle := resting.queued.idle
    grind
  rcases resting.isRunning with ⟨running, isRunning, status⟩
  exact ⟨running, (setThread_threads_of_ne ne).trans isRunning, status⟩

lemma threadScheduleTail_rests {prev : Option ℕ}
  (isThr : state.threads state.running = some thread)
  (queued : (state.setThread state.running (some { thread with status := .running })).Queued)
  (leaves : ∀ address, prev = some address →
    address ≠ state.running ∧ state.threads address ≠ none) :
  ∃ after, threadScheduleTail prev state = .ok ((), after) ∧ after.Resting := by
  have resting : (state.setThread state.running
      (some { thread with status := .running })).Resting :=
    ⟨queued, _, setThread_threads_self, rfl⟩
  unfold threadScheduleTail
  rw [reads_bind_apply, bind_of_ok (getThread_of_some isThr), updates_bind_apply]
  cases prev with
  | none => exact ⟨_, rfl, resting⟩
  | some address =>
    rcases leaves address rfl with ⟨ne, isSome⟩
    rcases Option.ne_none_iff_exists'.mp isSome with ⟨record, isRecord⟩
    have stillRecord : (state.setThread state.running
        (some { thread with status := .running })).threads address = some record :=
      (setThread_threads_of_ne ne).trans isRecord
    simp only
    rw [bind_of_ok (getThread_of_some stillRecord), reads_bind_apply]
    split
    · next freed =>
        exact ⟨_, rfl, resting.freed stillRecord freed.1 ne.symm⟩
    · exact ⟨_, rfl, resting⟩

lemma schedule_rests_of {next : ℕ} {popped : Scheduler Sema} (leaving : state.Leaving)
  (picks : nextThreadToRun state = .ok (some next, popped))
  (same : popped.threads = state.threads) (isThr : state.threads next = some thread)
  (queued : (Scheduler.setThread { popped with running := next } next
    (some { thread with status := .running })).Queued) :
  ∃ after, schedule state = .ok ((), after) ∧ after.Resting := by
  rcases leaving.notRunning with ⟨cur, isCur, notRunning⟩
  have isTail : schedule state = threadScheduleTail
      (if state.running ≠ next then some state.running else none)
      { popped with running := next } := by
    rw [← same] at isCur isThr
    unfold schedule
    rw [reads_bind_apply, bind_of_ok picks, bind_of_ok (getThread_of_some isCur),
      if_neg notRunning]
    simp only
    rw [bind_of_ok (getThread_of_some isThr), updates_bind_apply]
  rw [isTail]
  refine threadScheduleTail_rests (by rw [same]; exact isThr) queued ?_
  intro address isPrev
  split at isPrev
  · next ne =>
      cases isPrev
      refine ⟨ne, ?_⟩
      rw [same, isCur]
      exact Option.some_ne_none _
  · cases isPrev

lemma schedule_rests (leaving : state.Leaving) :
  ∃ after, schedule state = .ok ((), after) ∧ after.Resting := by
  cases isList : state.readyList with
  | nil =>
    rcases leaving.queued.idle with ⟨idle, thread, isIdle, isThr, alive, outside⟩
    have notListed : idle ∉ state.readyList := by
      rw [isList]
      exact List.not_mem_nil
    have picks := nextThreadToRun_nil isList
    rw [isIdle] at picks
    refine schedule_rests_of leaving picks rfl isThr ?_
    have queued : ({ state with running := idle } : Scheduler Sema).Queued :=
      ⟨leaving.queued.ordered, leaving.queued.mem_iff, leaving.queued.stamped,
        leaving.queued.waiting, leaving.queued.once, leaving.queued.idle⟩
    exact queued.set notListed (queued.not_waiting_of_outside isThr outside) (by simp)
      fun _ => ⟨_, rfl, by simp, outside⟩
  | cons first rest =>
    have listed := isList ▸ List.mem_cons_self
    rcases ((leaving.queued.mem_iff first).mp listed).1 with ⟨thread, isThr, _⟩
    exact schedule_rests_of leaving (nextThreadToRun_cons isList) rfl isThr
      (leaving.queued.dequeued isList isThr)

end Scheduling

section Runs

open Scheduler

variable [DecidableEq Sema] {state after : Scheduler Sema} {operation : Operation Sema}

/-- The running thread may perform the operation: `palloc_get_page` returns a page that is not in
use, `thread_unblock` is for a thread that has blocked itself by `thread_block` or is new, and the
idle thread neither exits nor waits. -/
def Fits (state : Scheduler Sema) : Operation Sema → Prop
  | .threadCreate page _ => ∀ address, page = some address → state.threads address = none
  | .initThread page _ => state.threads page = none
  | .threadUnblock address => some address ≠ state.idleThread ∧
      ∀ thread, state.threads address = some thread → thread.inDown = none
  | .threadExit | .semaDown _ => some state.running ≠ state.idleThread
  | .threadBlock | .threadYield _ | .threadYieldOff | .threadSetPriority _ _ | .setPriority _
  | .semaUp _ => True

/-- The operation fits, and a thread inside `sema_down` does nothing else. -/
def Permitted (state : Scheduler Sema) (operation : Operation Sema) : Prop :=
  Fits state operation ∧ ∀ thread sema, state.threads state.running = some thread →
    thread.inDown = some sema → operation = .semaDown sema

/-- The threads as `thread_start` leaves them: the initial thread runs, and the idle thread is
blocked or was preempted before it blocked. -/
structure Started (state : Scheduler Sema) : Prop where
  isRunning : ∃ priority, state.threads state.running = some ⟨.running, priority, none⟩
  isInitial : state.running = state.initialThread
  isIdle : ∃ address status priority, state.idleThread = some address ∧
    state.threads address = some ⟨status, priority, none⟩ ∧ address ≠ state.running ∧
    (status = .blocked ∨ status = .ready)
  alone : ∀ address, address ≠ state.running → some address ≠ state.idleThread →
    state.threads address = none
  readyList_eq : state.readyList = []
  waiters_eq : ∀ sema, (state.semas sema).waiters = []

def Step (state after : Scheduler Sema) : Prop :=
  ∃ operation, Permitted state operation ∧ Operation.perform operation state = .ok ((), after)

def Reached : Scheduler Sema → Prop := Reachable Started Step

omit [DecidableEq Sema] in
lemma staying_eq_ok {function : System Sema Unit}
  (ran : staying function state = .ok (schedules, after)) :
  schedules = false ∧ ∃ val, function state = .ok (val, after) := by
  rcases bind_eq_ok ran with ⟨val, mid, runs, done⟩
  cases done
  exact ⟨rfl, val, runs⟩

lemma enter_enters (resting : state.Resting) (permitted : Permitted state operation)
  (ran : operation.enter state = .ok (schedules, after)) : after.Entered schedules := by
  rcases permitted with ⟨fits, _⟩
  cases operation with
  | threadCreate page priority =>
    rcases staying_eq_ok ran with ⟨rfl, val, creates⟩
    exact threadCreate_rests resting fits creates
  | initThread page priority =>
    rcases staying_eq_ok ran with ⟨rfl, val, inits⟩
    exact (initThread_rests resting fits inits).1
  | threadBlock => exact threadBlock_leaves resting ran
  | threadUnblock address =>
    rcases staying_eq_ok ran with ⟨rfl, val, unblocks⟩
    exact threadUnblock_rests resting fits.1 fits.2 unblocks
  | threadYield higher => exact threadYield_enters resting ran
  | threadYieldOff => exact threadYieldOff_leaves resting ran
  | threadSetPriority newPriority higher =>
    rcases bind_eq_ok ran with ⟨_, mid, sets, yields⟩
    exact threadYield_enters (setPriority_rests resting sets) yields
  | setPriority newPriority =>
    rcases staying_eq_ok ran with ⟨rfl, val, sets⟩
    exact setPriority_rests resting sets
  | threadExit => exact threadExit_leaves resting fits ran
  | semaDown sema => exact semaDown_enters resting fits ran
  | semaUp sema =>
    rcases staying_eq_ok ran with ⟨rfl, val, ups⟩
    exact semaUp_rests resting ups

lemma Step.resting (taken : Step state after) (resting : state.Resting) : after.Resting := by
  rcases taken with ⟨operation, permitted, performed⟩
  rcases bind_eq_ok performed with ⟨schedules, mid, enters, goesOn⟩
  have entered := enter_enters resting permitted enters
  cases schedules with
  | false =>
    cases goesOn
    exact entered
  | true =>
    rcases schedule_rests entered with ⟨last, schedules, rests⟩
    rw [if_pos rfl, schedules] at goesOn
    cases goesOn
    exact rests

omit [DecidableEq Sema] in
lemma Started.resting (started : Started state) : state.Resting := by
  rcases started with ⟨⟨priority, isRunning⟩, _, ⟨idle, status, idlePriority, isIdle, isThr,
    ne, cases⟩, alone, readyList_eq, waiters_eq⟩
  refine ⟨⟨?_, ?_, ?_, ?_, ?_, idle, _, isIdle, isThr, ?_, rfl⟩, _, isRunning, rfl⟩ <;>
    grind [HasStatus]

lemma Reached.resting (reached : Reached state) : state.Resting :=
  Reachable.invariant (fun _ started => Started.resting started)
    (fun _ _ resting taken => Step.resting taken resting) reached

/-- The ready list is sorted by priority and holds exactly the threads that are ready, but not the
idle thread, each once, and none of them is on the list of a semaphore. -/
structure WellQueued (state : Scheduler Sema) : Prop where
  sorted : state.readyList.Pairwise fun one two => state.priority two ≤ state.priority one
  exactly : ∀ address, address ∈ state.readyList ↔
    state.HasStatus address .ready ∧ some address ≠ state.idleThread
  once : state.readyList.Nodup
  apart : ∀ address ∈ state.readyList, ∀ sema, address ∉ (state.semas sema).waiters

omit [DecidableEq Sema] in
lemma Scheduler.Queued.wellQueued (queued : state.Queued) : WellQueued state where
  sorted := by
    refine queued.ordered.imp ?_
    rintro one two (lower | ⟨same, _⟩)
    · exact lower.le
    · exact same.le
  exactly := queued.mem_iff
  once := queued.nodup
  apart address mem sema := by
    rcases ((queued.mem_iff address).mp mem).1 with ⟨thread, isThr, isReady⟩
    refine queued.not_waiting isThr ?_ sema
    rw [isReady]
    decide

/-- In every state that is reached the queues are well formed, and whenever an operation then
calls `schedule`, `next_thread_to_run` picks the right thread. -/
theorem wellQueued_of_reached (reached : Reached state) :
    WellQueued state ∧ ∀ operation middle, Permitted state operation →
      Operation.enter operation state = .ok (true, middle) →
        PicksRight middle ∧ ∃ after, schedule middle = .ok ((), after) := by
  refine ⟨reached.resting.queued.wellQueued, ?_⟩
  intro operation middle permitted enters
  have leaving : middle.Leaving := enter_enters reached.resting permitted enters
  rcases schedule_rests leaving with ⟨after, schedules, _⟩
  exact ⟨picksRight_of_queued leaving.queued, after, schedules⟩

end Runs

section Boot

variable [DecidableEq Sema]

def threadInit (main : ℕ) (semas : Sema → Semaphore ℕ) : Scheduler Sema where
  threads := update (fun _ => none) main (some ⟨.running, 31, none⟩)
  running := main
  readyList := []
  idleThread := none
  initialThread := main
  semas := semas
  clock := 0
  enqueued _ := 0

def threadStart (idle : ℕ) (idleStarted : Sema) : System Sema Unit := do
  updates fun state => state.setSema idleStarted (.init 0)
  (Operation.threadCreate (some idle) priMin).perform
  (Operation.semaDown idleStarted).perform
  updates fun state => { state with idleThread := some state.running }
  (Operation.semaUp idleStarted).perform
  Operation.threadBlock.perform
  (Operation.semaDown idleStarted).perform

lemma threadStart_started : ∃ after,
  threadStart 1 () (threadInit 0 fun _ => .init 0) = .ok ((), after) ∧ Started after := by
  refine ⟨_, rfl, ⟨31, rfl⟩, rfl, ⟨1, .blocked, 0, rfl, rfl, by decide, Or.inl rfl⟩, ?_, rfl,
    fun _ => rfl⟩
  intro address notMain notIdle
  have notFirst : address ≠ 0 := notMain
  have notSecond : address ≠ 1 := by
    intro same
    exact notIdle (by rw [same]; rfl)
  simp [Scheduler.setThread, Scheduler.setSema, Scheduler.enqueue, threadInit, notFirst, notSecond]

omit [DecidableEq Sema] in
lemma permitted_of_outside {state : Scheduler Sema} {operation : Operation Sema}
  (fits : Fits state operation)
  (outside : (state.threads state.running).bind Thread.inDown = none) :
  Permitted state operation := by
  refine ⟨fits, ?_⟩
  intro thread sema isThread inside
  rw [isThread, Option.bind_some, inside] at outside
  cases outside

lemma reached_created {start created : Scheduler Unit}
  (boots : threadStart 1 () (threadInit 0 fun _ => .init 0) = .ok ((), start))
  (creates : (Operation.threadCreate (some 2) 31).perform start = .ok ((), created))
  (isFree : start.threads 2 = none)
  (outside : (start.threads start.running).bind Thread.inDown = none) : Reached created := by
  rcases threadStart_started with ⟨same, booted, started⟩
  rw [boots] at booted
  cases booted
  have permitted : Permitted start (.threadCreate (some 2) 31) := by
    refine permitted_of_outside ?_ outside
    intro address isPage
    cases isPage
    exact isFree
  exact .next (.start started) ⟨_, permitted, creates⟩

/-- The initial thread creates another one. -/
theorem wellQueued_created : ∃ state : Scheduler Unit, state.readyList = [2] ∧ WellQueued state ∧
    ∀ operation middle, Permitted state operation →
      Operation.enter operation state = .ok (true, middle) →
        PicksRight middle ∧ ∃ after, schedule middle = .ok ((), after) := by
  have creating : ∃ start after, threadStart 1 () (threadInit 0 fun _ => .init 0) =
      .ok ((), start) ∧ (Operation.threadCreate (some 2) 31).perform start = .ok ((), after) ∧
        start.threads 2 = none ∧ (start.threads start.running).bind Thread.inDown = none ∧
          after.readyList = [2] := ⟨_, _, rfl, rfl, rfl, rfl, rfl⟩
  rcases creating with ⟨start, state, boots, creates, isFree, outside, isList⟩
  exact ⟨state, isList, wellQueued_of_reached (reached_created boots creates isFree outside)⟩

/-- The other thread waits for a semaphore, and the initial thread calls `thread_unblock` for it
instead of `sema_up`. The thread is then on both lists. -/
theorem not_wellQueued_unblocked : ∃ state after : Scheduler Unit, Reached state ∧
    Operation.perform (.threadUnblock 2) state = .ok ((), after) ∧ ¬WellQueued after := by
  have running : ∃ start created yielded waiting after,
      threadStart 1 () (threadInit 0 fun _ => .init 0) = .ok ((), start) ∧
      (Operation.threadCreate (some 2) 31).perform start = .ok ((), created) ∧
      (Operation.threadYield false).perform created = .ok ((), yielded) ∧
      (Operation.semaDown ()).perform yielded = .ok ((), waiting) ∧
      (Operation.threadUnblock 2).perform waiting = .ok ((), after) ∧
      start.threads 2 = none ∧ some yielded.running ≠ yielded.idleThread ∧
      (start.threads start.running).bind Thread.inDown = none ∧
      (created.threads created.running).bind Thread.inDown = none ∧
      (yielded.threads yielded.running).bind Thread.inDown = none ∧
      after.readyList = [2] ∧ (after.semas ()).waiters = [2] :=
    ⟨_, _, _, _, _, rfl, rfl, rfl, rfl, rfl, rfl, by decide, rfl, rfl, rfl, rfl, rfl⟩
  rcases running with ⟨start, created, yielded, waiting, after, boots, creates, yields, waits,
    unblocks, isFree, notIdle, atStart, atCreated, atYielded, isList, isWaiting⟩
  have reached : Reached waiting :=
    .next (.next (reached_created boots creates isFree atStart)
      ⟨.threadYield false, permitted_of_outside trivial atCreated, yields⟩)
      ⟨.semaDown (), permitted_of_outside notIdle atYielded, waits⟩
  refine ⟨waiting, after, reached, unblocks, ?_⟩
  intro queued
  refine queued.apart 2 ?_ () ?_
  · rw [isList]
    exact List.mem_singleton_self 2
  · rw [isWaiting]
    exact List.mem_singleton_self 2

end Boot

end Pintos.Threads
