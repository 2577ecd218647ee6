import Pintos.Kernel.Stop
import Pintos.Threads.Semaphore

/-!
# The scheduler

The functions of `threads/thread.c` that move threads between the processor, the
ready list and the lists of semaphores, and `sema_down` and `sema_up` as they use
them. A thread is known by its address, the page of its `struct thread`.

A function that gives up the processor does so by a call of `schedule` after which
another thread runs. The model cuts it there: the function returns `true` where
it goes on with `schedule`. A thread that has been blocked in the loop of
`sema_down` tests the value again when it runs next; until then `inDown` names the
semaphore.

No thread ever has a lock on its list `locksAq`, so `thread_set_priority` always
sets the priority. Two fields record history for later statements: `clock` counts
insertions into the ready list, and `enqueued` is the count at which a thread was
inserted last.
-/

namespace Pintos.Threads

open Pintos.Computation

inductive Status
  | running
  | ready
  | blocked
  | dying
deriving DecidableEq

def priMin : ℤ := 0

def priMax : ℤ := 63

/-- The members of `struct thread` the scheduler uses, and the semaphore in whose `sema_down` the
thread is. -/
structure Thread (Sema : Type) where
  status : Status
  priority : ℤ
  inDown : Option Sema

/-- The variables of `threads/thread.c`, the threads by address, and the semaphores. -/
structure Scheduler (Sema : Type) where
  threads : ℕ → Option (Thread Sema)
  running : ℕ
  readyList : List ℕ
  idleThread : Option ℕ
  initialThread : ℕ
  semas : Sema → Semaphore ℕ
  clock : ℕ
  enqueued : ℕ → ℕ

abbrev System (Sema Value : Type) := Computation Stop (Scheduler Sema) Value

variable {Sema : Type}

namespace Scheduler

def priority (state : Scheduler Sema) (thread : ℕ) : ℤ :=
  (state.threads thread).elim 0 Thread.priority

def prioritycmp (state : Scheduler Sema) (one two : ℕ) : Prop :=
  ¬ state.priority one ≤ state.priority two

instance (state : Scheduler Sema) : DecidableRel state.prioritycmp :=
  fun _ _ => inferInstanceAs (Decidable (¬ _))

def setThread (state : Scheduler Sema) (address : ℕ) (thread : Option (Thread Sema)) :
    Scheduler Sema :=
  { state with threads := Function.update state.threads address thread }

/-- `list_insert_ordered` into the ready list, which puts a thread before the first one of lower
priority. -/
def enqueue (state : Scheduler Sema) (address : ℕ) : Scheduler Sema :=
  { state with
    readyList := state.readyList.orderedInsert state.prioritycmp address
    clock := state.clock + 1
    enqueued := Function.update state.enqueued address state.clock }

def setSema [DecidableEq Sema] (state : Scheduler Sema) (sema : Sema) (changed : Semaphore ℕ) :
    Scheduler Sema :=
  { state with semas := Function.update state.semas sema changed }

end Scheduler

def getThread (address : ℕ) : System Sema (Thread Sema) := do
  let thread ← reads fun state => state.threads address
  match thread with
  | none => stop .panic
  | some thread => pure thread

def threadCurrent : System Sema (ℕ × Thread Sema) := do
  let running ← reads Scheduler.running
  let thread ← getThread running
  if thread.status = .running then pure (running, thread) else stop .panic

def initThread (address : ℕ) (priority : ℤ) : System Sema Unit :=
  if priMin ≤ priority ∧ priority ≤ priMax then
    updates fun state =>
      state.setThread address (some { status := .blocked, priority := priority, inDown := none })
  else
    stop .panic

def threadUnblock (address : ℕ) : System Sema Unit := do
  let thread ← getThread address
  if thread.status = .blocked then do
    updates fun state => state.enqueue address
    updates fun state => state.setThread address (some { thread with status := .ready })
  else
    stop .panic

def threadCreate (page : Option ℕ) (priority : ℤ) : System Sema Unit :=
  match page with
  | none => pure ()
  | some address => do
    initThread address priority
    threadUnblock address

def threadBlock : System Sema Bool := do
  let (current, thread) ← threadCurrent
  updates fun state => state.setThread current (some { thread with status := .blocked })
  pure true

def threadExit : System Sema Bool := do
  let (current, thread) ← threadCurrent
  updates fun state => state.setThread current (some { thread with status := .dying })
  pure true

/-- The part of `thread_yield` that runs with interrupts off, up to its call of `schedule`. -/
def threadYieldOff : System Sema Bool := do
  let (current, thread) ← threadCurrent
  let idleThread ← reads Scheduler.idleThread
  if some current ≠ idleThread then updates fun state => state.enqueue current else pure ()
  updates fun state => state.setThread current (some { thread with status := .ready })
  pure true

/-- `thread_yield`. The first comparison reads past an empty ready list; `higher` is its outcome
in this case. -/
def threadYield (higher : Bool) : System Sema Bool := do
  let (_, thread) ← threadCurrent
  let first ← reads fun state => state.readyList.head?.map state.priority
  if first.elim higher fun other => thread.priority > other then pure false else threadYieldOff

def setPriority (newPriority : ℤ) : System Sema Unit := do
  let (current, thread) ← threadCurrent
  updates fun state => state.setThread current (some { thread with priority := newPriority })

def threadSetPriority (newPriority : ℤ) (higher : Bool) : System Sema Bool := do
  setPriority newPriority
  threadYield higher

section Semaphores

variable [DecidableEq Sema]

/-- One pass through the loop of `sema_down`, up to the call of `schedule` in `thread_block`. -/
def semaDown (sema : Sema) : System Sema Bool := do
  let (current, thread) ← threadCurrent
  let (passed, changed) ← reads fun state => (state.semas sema).down current
  updates fun state => state.setSema sema changed
  if passed then do
    updates fun state => state.setThread current (some { thread with inDown := none })
    pure false
  else do
    updates fun state => state.setThread current (some { thread with inDown := some sema })
    threadBlock

def semaUp (sema : Sema) : System Sema Unit := do
  let (waiter, changed) ← reads fun state => (state.semas sema).up
  match waiter with
  | none => updates fun state => state.setSema sema changed
  | some waiter => do
    updates fun state => state.setSema sema changed
    threadUnblock waiter

end Semaphores

def nextThreadToRun : System Sema (Option ℕ) := do
  let readyList ← reads Scheduler.readyList
  match readyList with
  | [] => reads Scheduler.idleThread
  | first :: rest => do
    updates fun state => { state with readyList := rest }
    pure (some first)

def threadScheduleTail (prev : Option ℕ) : System Sema Unit := do
  let cur ← reads Scheduler.running
  let thread ← getThread cur
  updates fun state => state.setThread cur (some { thread with status := .running })
  match prev with
  | none => pure ()
  | some prev => do
    let thread ← getThread prev
    let initialThread ← reads Scheduler.initialThread
    if thread.status = .dying ∧ prev ≠ initialThread then
      if prev = cur then stop .panic else updates fun state => state.setThread prev none
    else
      pure ()

def schedule : System Sema Unit := do
  let cur ← reads Scheduler.running
  let next ← nextThreadToRun
  let thread ← getThread cur
  if thread.status = .running then stop .panic
  else
    match next with
    | none => stop .panic
    | some next => do
      let _next ← getThread next
      updates fun state => { state with running := next }
      threadScheduleTail (if cur ≠ next then some cur else none)

/-- What the running thread does. Three operations are the parts of a function between which other
threads may run: `initThread` of `thread_create`, `setPriority` of `thread_set_priority`, and
`threadYieldOff` of `thread_yield`. -/
inductive Operation (Sema : Type)
  | threadCreate (page : Option ℕ) (priority : ℤ)
  | initThread (page : ℕ) (priority : ℤ)
  | threadBlock
  | threadUnblock (address : ℕ)
  | threadYield (higher : Bool)
  | threadYieldOff
  | threadSetPriority (newPriority : ℤ) (higher : Bool)
  | setPriority (newPriority : ℤ)
  | threadExit
  | semaDown (sema : Sema)
  | semaUp (sema : Sema)

section Operations

variable [DecidableEq Sema]

def staying (function : System Sema Unit) : System Sema Bool := do
  function
  pure false

def Operation.enter : Operation Sema → System Sema Bool
  | threadCreate page priority => staying (Threads.threadCreate page priority)
  | initThread page priority => staying (Threads.initThread page priority)
  | threadBlock => Threads.threadBlock
  | threadUnblock address => staying (Threads.threadUnblock address)
  | threadYield higher => Threads.threadYield higher
  | threadYieldOff => Threads.threadYieldOff
  | threadSetPriority newPriority higher => Threads.threadSetPriority newPriority higher
  | setPriority newPriority => staying (Threads.setPriority newPriority)
  | threadExit => Threads.threadExit
  | semaDown sema => Threads.semaDown sema
  | semaUp sema => staying (Threads.semaUp sema)

def Operation.perform (operation : Operation Sema) : System Sema Unit := do
  let schedules ← operation.enter
  if schedules then schedule else pure ()

end Operations

end Pintos.Threads
