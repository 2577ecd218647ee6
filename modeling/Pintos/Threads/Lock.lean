import Pintos.Library.Interleaving
import Pintos.Threads.Semaphore

/-!
# Locks

`struct lock` of `threads/synch.h` with `lock_init`, `lock_acquire`,
`lock_try_acquire`, `lock_release` and `lock_held_by_current_thread` of
`threads/synch.c`. Any number of threads call them as their comments demand: a
thread acquires a lock that it does not own and releases one that it owns. A step
is one statement: an assertion, one section of a semaphore function with
interrupts off, or an assignment to `holder`. Other threads may run between any
two of them.

The semaphore has the value 1 exactly as long as no thread is between a successful
semaphore operation of an acquire and the one of its release; the invariant that
says so is stated for any table of places in the code, so that code which uses
locks can share it.
-/

namespace Pintos

open Function

structure Lock (Thread : Type) where
  holder : Option Thread
  semaphore : Semaphore Thread
deriving DecidableEq

inductive LockPc
  /-- The thread neither owns the lock nor executes a lock function. -/
  | outside
  /-- In `sema_down` of `lock_acquire`. -/
  | acquiring
  /-- Before `sema_try_down` of `lock_try_acquire`. -/
  | trying
  /-- Before `lock->holder = thread_current ()`. -/
  | taken
  /-- An acquire has returned, and the release has not started. -/
  | owner
  /-- Before `lock->holder = NULL`. -/
  | releasing
  /-- Before `sema_up` of `lock_release`. -/
  | cleared
deriving DecidableEq

inductive LockCall
  | acquire
  | tryAcquire
  | release
  | proceed
deriving DecidableEq

section Steps

variable {Thread : Type} [DecidableEq Thread]

namespace Lock

def init : Lock Thread where
  holder := none
  semaphore := .init 1

def heldByCurrentThread (lock : Lock Thread) (current : Thread) : Bool :=
  lock.holder = some current

end Lock

def lockProceed (thread : Thread) (pc : LockPc) (lock : Lock Thread) :
    Option (LockPc × Lock Thread) :=
  match pc with
  | .outside | .owner => none
  | .acquiring =>
    if thread ∈ lock.semaphore.waiters then none
    else
      let (passed, semaphore) := lock.semaphore.down thread
      some (if passed then .taken else .acquiring, { lock with semaphore := semaphore })
  | .trying =>
    let (success, semaphore) := lock.semaphore.tryDown
    some (if success then .taken else .outside, { lock with semaphore := semaphore })
  | .taken => some (.owner, { lock with holder := some thread })
  | .releasing => some (.cleared, { lock with holder := none })
  | .cleared => some (.outside, { lock with semaphore := lock.semaphore.up.2 })

def lockAction : Action Thread LockCall LockPc (Lock Thread) :=
  fun thread call pc lock =>
    match call with
    | .acquire =>
      if pc = .outside ∧ lock.heldByCurrentThread thread = false then some (.acquiring, lock)
      else none
    | .tryAcquire =>
      if pc = .outside ∧ lock.heldByCurrentThread thread = false then some (.trying, lock)
      else none
    | .release =>
      if pc = .owner ∧ lock.heldByCurrentThread thread = true then some (.releasing, lock)
      else none
    | .proceed => lockProceed thread pc lock

end Steps

def LockPc.Inside : LockPc → Prop
  | taken | owner | releasing | cleared => True
  | outside | acquiring | trying => False

structure LockInvariant {Thread : Type} (pcs : Thread → LockPc) (lock : Lock Thread) : Prop where
  alone : ∀ one two, (pcs one).Inside → (pcs two).Inside → one = two
  down : ∀ thread, (pcs thread).Inside → lock.semaphore.value = 0
  up : (∀ thread, ¬ (pcs thread).Inside) → lock.semaphore.value = 1
  holder_iff : ∀ thread, lock.holder = some thread ↔
    pcs thread = .owner ∨ pcs thread = .releasing

section Invariant

variable {Thread : Type} [DecidableEq Thread] {pcs : Thread → LockPc} {lock after : Lock Thread}
  {thr : Thread} {call : LockCall} {next pc : LockPc}

inductive LockMove (thread : Thread) (lock : Lock Thread) : LockPc → LockPc → Lock Thread → Prop
  | stay {pc next : LockPc} {after : Lock Thread} (notBefore : ¬ pc.Inside)
      (notBehind : ¬ next.Inside) (sameHolder : after.holder = lock.holder)
      (sameValue : after.semaphore.value = lock.semaphore.value) :
      LockMove thread lock pc next after
  | take {pc : LockPc} (notBefore : ¬ pc.Inside) (positive : lock.semaphore.value ≠ 0) :
      LockMove thread lock pc .taken
        { lock with semaphore := { lock.semaphore with value := lock.semaphore.value - 1 } }
  | hold : LockMove thread lock .taken .owner { lock with holder := some thread }
  | release : LockMove thread lock .owner .releasing lock
  | clear : LockMove thread lock .releasing .cleared { lock with holder := none }
  | raise : LockMove thread lock .cleared .outside { lock with semaphore := lock.semaphore.up.2 }

lemma lockProceed_moves (proceeded : lockProceed thr pc lock = some (next, after)) :
  LockMove thr lock pc next after := by
  unfold lockProceed at proceeded
  cases pc with
  | outside | owner => cases proceeded
  | acquiring =>
    rcases Option.ite_none_left_eq_some.mp proceeded with ⟨_, proceeded⟩
    by_cases zero : lock.semaphore.value = 0
    · rw [Semaphore.down_of_zero zero] at proceeded
      cases proceeded
      exact .stay id id rfl rfl
    rw [Semaphore.down_of_ne_zero zero] at proceeded
    cases proceeded
    exact .take id zero
  | trying =>
    by_cases zero : lock.semaphore.value = 0
    · simp only [Semaphore.tryDown_of_zero zero] at proceeded
      cases proceeded
      exact .stay id id rfl rfl
    simp only [Semaphore.tryDown_of_ne_zero zero] at proceeded
    cases proceeded
    exact .take id zero
  | taken =>
    cases proceeded
    exact .hold
  | releasing =>
    cases proceeded
    exact .clear
  | cleared =>
    cases proceeded
    exact .raise

lemma lockAction_moves (acted : lockAction thr call pc lock = some (next, after)) :
  LockMove thr lock pc next after := by
  cases call with
  | acquire | tryAcquire =>
    rcases Option.ite_none_right_eq_some.mp acted with ⟨⟨rfl, _⟩, isNext⟩
    cases isNext
    exact .stay id id rfl rfl
  | release =>
    rcases Option.ite_none_right_eq_some.mp acted with ⟨⟨rfl, _⟩, isNext⟩
    cases isNext
    exact .release
  | proceed => exact lockProceed_moves acted

lemma LockInvariant.step (inv : LockInvariant pcs lock)
  (moves : LockMove thr lock (pcs thr) next after) :
  LockInvariant (update pcs thr next) after := by
  rcases inv with ⟨alone, down, up, holder_iff⟩
  generalize isPc : pcs thr = pc at moves
  cases moves with
  | stay notBefore notBehind sameHolder sameVal =>
    refine ⟨by grind, by grind, fun nobody => sameVal.trans (up fun other => ?_),
      by grind [update_apply, LockPc.Inside]⟩
    have := nobody other
    grind
  | take notBefore pos =>
    refine ⟨by grind, by grind, fun nobody => absurd (nobody thr) ?_,
      by grind [update_apply, LockPc.Inside]⟩
    grind [LockPc.Inside]
  | hold | release | clear =>
    refine ⟨?_, ?_, fun nobody => absurd (nobody thr) ?_, ?_⟩ <;>
      grind [update_apply, LockPc.Inside]
  | raise =>
    refine ⟨?_, ?_, ?_, ?_⟩ <;>
      grind [update_apply, LockPc.Inside, Semaphore.up]

end Invariant

section Runs

variable {Thread : Type} [DecidableEq Thread] {state : Concurrent Thread LockPc (Lock Thread)}

def LockStarts (state : Concurrent Thread LockPc (Lock Thread)) : Prop :=
  (∀ thread, state.locals thread = .outside) ∧ state.shared = .init

def LockReached : Concurrent Thread LockPc (Lock Thread) → Prop :=
  Reachable LockStarts (Concurrent.Step lockAction Concurrent.anyStep)

omit [DecidableEq Thread] in
lemma LockInvariant.of_init {pcs : Thread → LockPc} {lock : Lock Thread}
  (outside : ∀ thr, ¬ (pcs thr).Inside) (isInit : lock = .init) :
  LockInvariant pcs lock := by
  subst isInit
  refine ⟨by grind, by grind, fun _ => rfl, fun thr => ?_⟩
  grind [LockPc.Inside, Lock.init]

lemma LockReached.invariant (reached : LockReached state) :
  LockInvariant state.locals state.shared := by
  have atStart : ∀ state : Concurrent Thread LockPc (Lock Thread), LockStarts state →
      LockInvariant state.locals state.shared := by
    intro state starts
    refine .of_init ?_ starts.2
    intro thr
    rw [starts.1 thr]
    exact id
  refine Concurrent.invariant atStart ?_ reached
  intro state thr call next shared inv _ acted
  exact inv.step (lockAction_moves acted)

/-- The lock excludes and knows its owner. A thread that has passed the assertion of `lock_release`
is the one place where the answer of `lock_held_by_current_thread` cannot be asked for. -/
structure LockSound (state : Concurrent Thread LockPc (Lock Thread)) : Prop where
  exclusive : ∀ one two, state.locals one = .owner → state.locals two = .owner → one = two
  held_iff : ∀ thread, state.locals thread ≠ .releasing →
    (state.shared.heldByCurrentThread thread = true ↔ state.locals thread = .owner)
  value_cases : state.shared.semaphore.value = 0 ∨ state.shared.semaphore.value = 1
  one : state.shared.semaphore.value = 1 →
    (∀ thread, state.locals thread ≠ .owner) ∧ state.shared.holder = none

/-- In every state that is reached, at most one thread owns the lock, and the lock knows which. -/
theorem lockSound_of_reached (reached : LockReached state) : LockSound state := by
  rcases reached.invariant with ⟨alone, down, up, holder_iff⟩
  refine ⟨?_, ?_, ?_, ?_⟩
  · grind [LockPc.Inside]
  · grind [Lock.heldByCurrentThread]
  · by_cases someone : ∃ thread, (state.locals thread).Inside
    · rcases someone with ⟨thread, inside⟩
      exact Or.inl (down thread inside)
    · exact Or.inr (up fun thread inside => someone ⟨thread, inside⟩)
  intro isOne
  have nobody : ∀ thread, ¬ (state.locals thread).Inside := by grind
  refine ⟨fun thread => ?_, ?_⟩
  · have := nobody thread
    grind [LockPc.Inside]
  cases isHolder : state.shared.holder with
  | none => rfl
  | some thread =>
    grind [LockPc.Inside]

/-- At most one thread is between its down and its up, and the lock is free if there is none. -/
theorem window_sound (reached : LockReached state) :
    (∀ one two, (state.locals one).Inside → (state.locals two).Inside → one = two) ∧
      (state.shared.semaphore.value = 1 ↔ ∀ thread, ¬(state.locals thread).Inside) := by
  rcases reached.invariant with ⟨alone, down, up, _⟩
  exact ⟨alone, by grind⟩

/-- One thread owns the lock while another one waits for it. -/
lemma exists_waiting : ∃ state : Concurrent Bool LockPc (Lock Bool), LockReached state ∧
  state.shared = { holder := some false, semaphore := { value := 0, waiters := [true] } } ∧
    state.locals false = .owner := by
  have starts : LockStarts (Concurrent.mk (fun _ : Bool => LockPc.outside) Lock.init) :=
    ⟨fun _ => rfl, rfl⟩
  have ran : ((Concurrent.mk (fun _ : Bool => LockPc.outside) Lock.init).run lockAction
      Concurrent.anyStep [(false, .acquire), (false, .proceed), (true, .acquire), (true, .proceed),
        (false, .proceed)]).any (fun state => decide (state.shared =
          { holder := some false, semaphore := { value := 0, waiters := [true] } } ∧
            state.locals false = .owner)) = true := by
    decide +kernel
  rcases Concurrent.reaches_of_run _ starts ran with ⟨state, reached, checks⟩
  exact ⟨state, reached, of_decide_eq_true checks⟩

/-- The owner is the only thread inside, and the value is zero. -/
theorem window_waiting : ∃ state : Concurrent Bool LockPc (Lock Bool), LockReached state ∧
    (∀ one, (state.locals one).Inside → one = false) ∧ state.shared.semaphore.value ≠ 1 := by
  rcases exists_waiting with ⟨state, reached, _, isOwner⟩
  have inside : (state.locals false).Inside := by
    rw [isOwner]
    trivial
  rcases window_sound reached with ⟨alone, free⟩
  exact ⟨state, reached, fun one isInside => alone one false isInside inside,
    fun isFree => free.mp isFree false inside⟩

theorem lockSound_waiting : ∃ state : Concurrent Bool LockPc (Lock Bool),
    state.shared = { holder := some false, semaphore := { value := 0, waiters := [true] } } ∧
      LockSound state := by
  rcases exists_waiting with ⟨state, reached, isShared, _⟩
  exact ⟨state, isShared, lockSound_of_reached reached⟩

end Runs

end Pintos
