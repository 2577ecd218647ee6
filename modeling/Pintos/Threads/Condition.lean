import Pintos.Threads.Lock

/-!
# Condition variables

`struct condition` of `threads/synch.h` with `cond_init`, `cond_wait`,
`cond_signal` and `cond_broadcast` of `threads/synch.c`. Any number of threads use
one condition with one lock, in any interleaving: a step is an assertion, one
statement of these functions, or a step of the lock functions they call. They
are called as their comments demand, by a thread that owns the lock.

A `struct semaphore_elem` lives in the frame of one `cond_wait`, so the list of
the condition is a list of threads and the private semaphores are given by
thread. Some fields record history. `tickets` counts the waits that were queued,
and `ticket` is the number of a thread's last wait. `signals` counts the waits
taken off the list, and `raised` those whose semaphore has been raised;
`queuedAt` is the value of `signals` when the thread was queued last. A broadcast
remembers which threads were queued when it began and which it has released.
-/

namespace Pintos

open Function

structure Broadcast (Thread : Type) where
  queued : List Thread
  released : List Thread
deriving DecidableEq

inductive CondStage (Thread : Type)
  /-- Outside of the condition functions. -/
  | free
  /-- Before `list_push_back` of `cond_wait`. -/
  | queueing
  /-- In `lock_release` of `cond_wait`. -/
  | leaving
  /-- In `sema_down` of `cond_wait`. -/
  | sleeping
  /-- In `lock_acquire` of `cond_wait`. -/
  | returning
  /-- Before the test of `cond_signal`, called by `cond_broadcast` or not. -/
  | signalling (broadcast : Option (Broadcast Thread))
  /-- Before `sema_up` of `cond_signal`. -/
  | raising (waiter : Thread) (broadcast : Option (Broadcast Thread))
  /-- Before the test of the loop of `cond_broadcast`. -/
  | broadcasting (broadcast : Broadcast Thread)
deriving DecidableEq

structure CondLocal (Thread : Type) where
  lockPc : LockPc
  stage : CondStage Thread
deriving DecidableEq

structure CondShared (Thread : Type) where
  lock : Lock Thread
  waiters : List Thread
  sema : Thread → Semaphore Thread
  tickets : ℕ
  ticket : Thread → ℕ
  queuedAt : Thread → ℕ
  signals : ℕ
  raised : ℕ

inductive CondCall
  | lock (call : LockCall)
  | wait
  | signal
  | broadcast
  | proceed
deriving DecidableEq

abbrev CondSystem (Thread : Type) := Concurrent Thread (CondLocal Thread) (CondShared Thread)

section Steps

variable {Thread : Type} [DecidableEq Thread]

def lockStep (thread : Thread) (call : LockCall) (place : CondLocal Thread)
    (shared : CondShared Thread) (stage : LockPc → CondStage Thread) :
    Option (CondLocal Thread × CondShared Thread) :=
  (lockAction thread call place.lockPc shared.lock).map fun next =>
    ({ lockPc := next.1, stage := stage next.1 }, { shared with lock := next.2 })

def CondLocal.at (place : CondLocal Thread) (stage : CondStage Thread) : CondLocal Thread :=
  { place with stage := stage }

def Owns (thread : Thread) (place : CondLocal Thread) (shared : CondShared Thread) : Prop :=
  place.lockPc = .owner ∧ shared.lock.heldByCurrentThread thread = true
deriving Decidable

def condCall (thread : Thread) (call : CondCall) (place : CondLocal Thread)
    (shared : CondShared Thread) : Option (CondLocal Thread × CondShared Thread) :=
  match call with
  | .lock call => lockStep thread call place shared fun _ => .free
  | .wait =>
    if Owns thread place shared then
      some (place.at .queueing,
        { shared with sema := update shared.sema thread (.init 0) })
    else none
  | .signal => if Owns thread place shared then some (place.at (.signalling none), shared) else none
  | .broadcast =>
    if Owns thread place shared then
      some (place.at (.broadcasting { queued := shared.waiters, released := [] }), shared)
    else none
  | .proceed => none

/-- The next statement of a thread inside the condition functions; `none` while it is blocked. -/
def condProceed (thread : Thread) (place : CondLocal Thread) (shared : CondShared Thread) :
    Option (CondLocal Thread × CondShared Thread) :=
  match place.stage with
  | .free => none
  | .queueing =>
    some (place.at .leaving,
      { shared with
        waiters := shared.waiters ++ [thread]
        tickets := shared.tickets + 1
        ticket := update shared.ticket thread shared.tickets
        queuedAt := update shared.queuedAt thread shared.signals })
  | .leaving =>
    lockStep thread (if place.lockPc = .owner then .release else .proceed) place shared fun pc =>
      if pc = .outside then .sleeping else .leaving
  | .sleeping =>
    if thread ∈ (shared.sema thread).waiters then none
    else
      let (passed, sema) := (shared.sema thread).down thread
      some (place.at (if passed then .returning else .sleeping),
        { shared with sema := update shared.sema thread sema })
  | .returning =>
    lockStep thread (if place.lockPc = .outside then .acquire else .proceed) place shared fun pc =>
      if pc = .owner then .free else .returning
  | .signalling broadcast =>
    match shared.waiters with
    | [] => some (place.at (broadcast.elim .free .broadcasting), shared)
    | waiter :: rest =>
      some (place.at (.raising waiter broadcast),
        { shared with waiters := rest, signals := shared.signals + 1 })
  | .raising waiter broadcast =>
    some (place.at (broadcast.elim .free fun broadcast =>
        .broadcasting { broadcast with released := broadcast.released ++ [waiter] }),
      { shared with
        sema := update shared.sema waiter (shared.sema waiter).up.2
        raised := shared.raised + 1 })
  | .broadcasting broadcast =>
    match shared.waiters with
    | [] => some (place.at .free, shared)
    | _ :: _ =>
      if Owns thread place shared then some (place.at (.signalling (some broadcast)), shared)
      else none

def condAction : Action Thread CondCall (CondLocal Thread) (CondShared Thread) :=
  fun thread call place shared =>
    if place.stage = .free then condCall thread call place shared
    else if call = .proceed then condProceed thread place shared
    else none

def CondStarts (state : CondSystem Thread) : Prop :=
  (∀ thread, state.locals thread = { lockPc := .outside, stage := .free }) ∧
    state.shared.lock = .init ∧ state.shared.waiters = [] ∧ state.shared.tickets = 0 ∧
    state.shared.signals = 0 ∧ state.shared.raised = 0

def CondReached : CondSystem Thread → Prop :=
  Reachable CondStarts (Concurrent.Step condAction Concurrent.anyStep)

/-- The thread is on its way from `list_push_back` to the end of `sema_down` in `cond_wait`. -/
def CondLocal.Waits (place : CondLocal Thread) : Prop :=
  place.stage = .leaving ∨ place.stage = .sleeping

/-- The thread is in `cond_wait` and can pass its `sema_down`: the value is not 0, and the thread
is not blocked. -/
def Able (state : CondSystem Thread) (thread : Thread) : Prop :=
  (state.locals thread).Waits ∧ (state.shared.sema thread).value ≠ 0 ∧
    thread ∉ (state.shared.sema thread).waiters

structure StepsRight (state after : CondSystem Thread) (thread : Thread) : Prop where
  /-- A signal that finds threads on the list takes the one that has been queued for longest of
  those that cannot pass. -/
  picks : ∀ broadcast, (state.locals thread).stage = .signalling broadcast →
    state.shared.waiters ≠ [] → ∃ waiter,
      (after.locals thread).stage = .raising waiter broadcast ∧
      (state.locals waiter).Waits ∧ ¬ Able state waiter ∧
      ∀ other, (state.locals other).Waits → ¬ Able state other → other ≠ waiter →
        state.shared.ticket waiter < state.shared.ticket other
  /-- It makes this thread able to pass, and no other. -/
  wakes : ∀ waiter broadcast, (state.locals thread).stage = .raising waiter broadcast →
    (state.locals waiter).Waits ∧ ¬ Able state waiter ∧
      ∀ other, Able after other ↔ Able state other ∨ other = waiter
  /-- Nothing else makes a thread able to pass. -/
  strangers : (∀ waiter broadcast, (state.locals thread).stage ≠ .raising waiter broadcast) →
    ∀ other, Able after other → Able state other
  /-- A thread stays able to pass until it does. -/
  keeps : ∀ other, Able state other →
    Able after other ∨ other = thread ∧ (after.locals thread).stage = .returning
  /-- A thread that passes has been signalled after it was queued. -/
  passes : (state.locals thread).stage = .sleeping → (after.locals thread).stage = .returning →
    Able state thread ∧ state.shared.queuedAt thread ≤ state.shared.ticket thread ∧
      state.shared.ticket thread < state.shared.raised
  /-- A broadcast ends when it has released the threads that were queued when it began. -/
  releases : ∀ broadcast, (state.locals thread).stage = .broadcasting broadcast →
    (after.locals thread).stage = .free → broadcast.released = broadcast.queued
  /-- A wait returns holding the lock. -/
  returns : (state.locals thread).stage = .returning → (after.locals thread).stage = .free →
    after.shared.lock.heldByCurrentThread thread = true

/-- A signal and a broadcast go on to their end without failing an assertion, and a thread that can
pass its `sema_down` does so by its next step. -/
structure GoesOn (state : CondSystem Thread) : Prop where
  signals : ∀ thread broadcast, (state.locals thread).stage = .signalling broadcast →
    (state.move condAction thread .proceed).isSome
  raises : ∀ thread waiter broadcast, (state.locals thread).stage = .raising waiter broadcast →
    (state.move condAction thread .proceed).isSome
  broadcasts : ∀ thread broadcast, (state.locals thread).stage = .broadcasting broadcast →
    (state.move condAction thread .proceed).isSome
  passes : ∀ thread, Able state thread → (state.locals thread).stage = .sleeping →
    ∃ after, state.move condAction thread .proceed = some after ∧
      (after.locals thread).stage = .returning

end Steps

end Pintos
