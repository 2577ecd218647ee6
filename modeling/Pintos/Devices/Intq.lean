import Pintos.Kernel.Stop
import Pintos.Threads.Lock

/-!
# Interrupt queues

`devices/intq.c`: a circular buffer shared by threads, which call with interrupts off, and interrupt
handlers. A thread runs from one place where it sleeps to the next without interruption. It may
sleep in `lock_acquire` and in `wait`; between the two it does not look at the queue again, and
`wait` asserts what the thread had seen before it slept.
-/

namespace Pintos

open Function

def intqBufsize : ℕ := 64

structure Intq (Thread : Type) where
  lock : Lock Thread
  notFull : Option Thread
  notEmpty : Option Thread
  buf : ℕ → Byte
  head : ℕ
  tail : ℕ

inductive IntqSide
  | notEmpty
  | notFull
deriving DecidableEq

inductive IntqRequest
  | get
  | put (byte : Byte)
deriving DecidableEq

def IntqRequest.side : IntqRequest → IntqSide
  | get => .notEmpty
  | put _ => .notFull

inductive IntqPc
  | outside
  /-- In `lock_acquire`. -/
  | locking (request : IntqRequest)
  /-- In `wait`. -/
  | waiting (request : IntqRequest)
deriving DecidableEq

inductive IntqChoice
  | call (request : IntqRequest)
  | resume
  /-- The call of an interrupt handler. -/
  | interrupt (request : IntqRequest)

namespace Intq

def next (pos : ℕ) : ℕ := (pos + 1) % intqBufsize

variable {Thread : Type} [DecidableEq Thread]

def init : Intq Thread := ⟨.init, none, none, fun _ => 0, 0, 0⟩

def intqEmpty (q : Intq Thread) : Bool := q.head = q.tail

def intqFull (q : Intq Thread) : Bool := next q.head = q.tail

def holdsUp (q : Intq Thread) : IntqSide → Bool
  | .notEmpty => q.intqEmpty
  | .notFull => q.intqFull

def waiter (q : Intq Thread) : IntqSide → Option Thread
  | .notEmpty => q.notEmpty
  | .notFull => q.notFull

def setWaiter (q : Intq Thread) (thread : Option Thread) : IntqSide → Intq Thread
  | .notEmpty => { q with notEmpty := thread }
  | .notFull => { q with notFull := thread }

def setLock (q : Intq Thread) (lock : Lock Thread) : Intq Thread := { q with lock := lock }

def wait (q : Intq Thread) (thread : Thread) (side : IntqSide) : Except Stop (Intq Thread) :=
  if q.holdsUp side then .ok (q.setWaiter (some thread) side) else .error .panic

def signal (q : Intq Thread) (side : IntqSide) : Except Stop (Intq Thread) :=
  if q.holdsUp side then .error .panic else .ok (q.setWaiter none side)

def perform (q : Intq Thread) : IntqRequest → Except Stop (Intq Thread)
  | .get => { q with tail := next q.tail }.signal .notFull
  | .put byte =>
    { q with buf := Function.update q.buf q.head byte, head := next q.head }.signal .notEmpty

/-- From a pass through `sema_down` of `lock_acquire` to the next place where the thread sleeps. -/
def acquire (thread : Thread) (request : IntqRequest) (q : Intq Thread) :
    Except Stop (IntqPc × Intq Thread) :=
  let (passed, semaphore) := q.lock.semaphore.down thread
  if passed then
    ((q.setLock ⟨some thread, semaphore⟩).wait thread request.side).map fun q =>
      (.waiting request, q)
  else .ok (.locking request, q.setLock { q.lock with semaphore := semaphore })

def loop (thread : Thread) (request : IntqRequest) (q : Intq Thread) :
    Except Stop (IntqPc × Intq Thread) :=
  if q.holdsUp request.side then
    if q.lock.heldByCurrentThread thread then .error .panic else acquire thread request q
  else (q.perform request).map fun q => (.outside, q)

def resume (thread : Thread) (q : Intq Thread) :
    IntqPc → Option (Except Stop (IntqPc × Intq Thread))
  | .outside => none
  | .locking request =>
    if thread ∈ q.lock.semaphore.waiters then none else some (acquire thread request q)
  | .waiting request =>
    if q.waiter request.side = some thread then none
    else if q.lock.heldByCurrentThread thread then
      some (loop thread request (q.setLock ⟨none, q.lock.semaphore.up.2⟩))
    else some (.error .panic)

/-- What a step leads to. Handlers only get from a queue that is not empty and only put into one
that is not full. -/
def outcome (thread : Thread) (choice : IntqChoice) (pc : IntqPc) (q : Intq Thread) :
    Option (Except Stop (IntqPc × Intq Thread)) :=
  match choice with
  | .call request => if pc = .outside then some (loop thread request q) else none
  | .resume => resume thread q pc
  | .interrupt request =>
    if q.holdsUp request.side then none
    else some ((q.perform request).map fun q => (pc, q))

def action : Action Thread IntqChoice IntqPc (Intq Thread) :=
  fun thread choice pc q => (outcome thread choice pc q).bind Except.toOption

abbrev State (Thread : Type) := Concurrent Thread IntqPc (Intq Thread)

def Starts (state : State Thread) : Prop :=
  (∀ thread, state.locals thread = .outside) ∧ state.shared = .init

def KeepsWaiters (q after : Intq Thread) : Prop :=
  ∀ side waiter, q.waiter side = some waiter →
    after.waiter side = some waiter ∨ after.waiter side = none

/-- No assertion fails, and no waiting thread is forgotten. -/
def SafeStep (state : State Thread) (thread : Thread) (choice : IntqChoice) : Prop :=
  ∀ result, outcome thread choice (state.locals thread) state.shared = some result →
    ∃ pc after, result = .ok (pc, after) ∧ state.shared.KeepsWaiters after

/-- A thread that has slept in `lock_acquire` and gets the lock finds the queue as it was when it
called `lock_acquire`: empty for `intq_getc`, full for `intq_putc`. -/
def StillTrue (state : State Thread) (thread : Thread) (choice : IntqChoice) : Prop :=
  choice = .resume → ∀ request, state.locals thread = .locking request →
    thread ∉ state.shared.lock.semaphore.waiters → state.shared.lock.semaphore.value ≠ 0 →
      state.shared.holdsUp request.side = true

section Invariant

def waitsFor : IntqPc → Option IntqSide
  | .waiting request => some request.side
  | _ => none

structure Invariant (locals : Thread → IntqPc) (q : Intq Thread) : Prop where
  held : ∀ thread, q.lock.holder = some thread ↔ waitsFor (locals thread) ≠ none
  value : q.lock.semaphore.value = if q.lock.holder = none then 1 else 0
  recorded : ∀ side thread, q.waiter side = some thread → waitsFor (locals thread) = some side
  inside : q.head < intqBufsize ∧ q.tail < intqBufsize

variable {locals : Thread → IntqPc} {q after : Intq Thread} {thr : Thread}
  {req : IntqRequest} {pc : IntqPc} {choice : IntqChoice} {st : State Thread}

section

omit [DecidableEq Thread]

@[grind =]
lemma waiter_setWaiter (thr : Option Thread) (side other : IntqSide) :
  (q.setWaiter thr side).waiter other = if other = side then thr else q.waiter other := by
  cases side <;> cases other <;> rfl

@[grind =]
lemma waiter_setLock (lock : Lock Thread) (side : IntqSide) :
  (q.setLock lock).waiter side = q.waiter side := by
  cases side <;> rfl

@[grind =]
lemma holdsUp_setLock (lock : Lock Thread) (side : IntqSide) :
  (q.setLock lock).holdsUp side = q.holdsUp side := by
  cases side <;> rfl

@[grind =]
lemma setWaiter_lock (thr : Option Thread) (side : IntqSide) :
  (q.setWaiter thr side).lock = q.lock := by
  cases side <;> rfl

@[grind =]
lemma setWaiter_head (thr : Option Thread) (side : IntqSide) :
  (q.setWaiter thr side).head = q.head := by
  cases side <;> rfl

@[grind =]
lemma setWaiter_tail (thr : Option Thread) (side : IntqSide) :
  (q.setWaiter thr side).tail = q.tail := by
  cases side <;> rfl

lemma perform_eq (inside : q.head < intqBufsize ∧ q.tail < intqBufsize)
  (isTrue : q.holdsUp req.side = false) : ∃ (changed : Intq Thread) (side : IntqSide),
    q.perform req = .ok (changed.setWaiter none side) ∧ changed.lock = q.lock ∧
    (∀ side, changed.waiter side = q.waiter side) ∧ changed.head < intqBufsize ∧
    changed.tail < intqBufsize := by
  unfold intqBufsize at inside ⊢
  cases req with
  | get =>
    refine ⟨{ q with tail := next q.tail }, .notFull, if_neg ?_, rfl, ?_, inside.1, ?_⟩
    · have ne : q.head ≠ q.tail := by
        simpa [IntqRequest.side, holdsUp, intqEmpty] using isTrue
      rw [holdsUp, intqFull, decide_eq_true_iff]
      change ¬(q.head + 1) % 64 = (q.tail + 1) % 64
      omega
    · rintro (_ | _) <;> rfl
    · exact Nat.mod_lt _ (by decide)
  | put byte =>
    refine ⟨{ q with buf := update q.buf q.head byte, head := next q.head }, .notEmpty,
      if_neg ?_, rfl, ?_, ?_, inside.2⟩
    · simpa [IntqRequest.side, holdsUp, intqEmpty, intqFull] using isTrue
    · rintro (_ | _) <;> rfl
    · exact Nat.mod_lt _ (by decide)

end

def Fine (locals : Thread → IntqPc) (thread : Thread) (q : Intq Thread)
    (result : Except Stop (IntqPc × Intq Thread)) : Prop :=
  ∃ pc after, result = .ok (pc, after) ∧ Invariant (Function.update locals thread pc) after ∧
    q.KeepsWaiters after

section

variable (inv : Invariant locals q)
include inv

lemma perform_fine (isTrue : q.holdsUp req.side = false)
  (same : waitsFor pc = waitsFor (locals thr)) :
  Fine locals thr q ((q.perform req).map fun q => (pc, q)) := by
  rcases inv with ⟨held, val, recorded, inside⟩
  rcases perform_eq inside isTrue with ⟨changed, side, ran, sameLock, sameWaiter, bounds⟩
  refine ⟨pc, _, by rw [ran]; rfl, ⟨?_, ?_, ?_, ?_⟩, ?_⟩
  · grind [update_apply]
  · grind
  · grind [update_apply]
  · grind
  unfold KeepsWaiters
  grind

lemma acquire_fine (notWaiting : waitsFor (locals thr) = none)
  (isTrue : q.lock.semaphore.value ≠ 0 → q.holdsUp req.side = true) :
  Fine locals thr q (acquire thr req q) := by
  rcases inv with ⟨held, val, recorded, inside⟩
  unfold acquire
  by_cases isZero : q.lock.semaphore.value = 0
  · rw [Semaphore.down_of_zero isZero]
    refine ⟨.locking req, _, rfl, ⟨?_, val, ?_, inside⟩, fun side _ isWaiter =>
      Or.inl ((waiter_setLock _ side).trans isWaiter)⟩
    · intro other
      change q.lock.holder = some other ↔ _
      grind [update_apply, waitsFor]
    · grind [update_apply, waitsFor]
  rw [Semaphore.down_of_ne_zero isZero]
  have isNone : q.lock.holder = none := by
    by_contra isHeld
    exact isZero (val.trans (if_neg isHeld))
  have isOne := val.trans (if_pos isNone)
  refine ⟨.waiting req, (q.setLock ⟨some thr, { q.lock.semaphore with
    value := q.lock.semaphore.value - 1 }⟩).setWaiter (some thr) req.side,
    ?_, ⟨?_, ?_, ?_, ?_⟩, ?_⟩
  · simp only [wait, holdsUp_setLock, isTrue isZero]
    rfl
  · intro other
    rw [setWaiter_lock]
    change some thr = some other ↔ _
    grind [update_apply, waitsFor]
  · rw [setWaiter_lock]
    simp [setLock, isOne]
  · grind [update_apply, waitsFor]
  · rw [setWaiter_head, setWaiter_tail]
    exact inside
  intro side other isWaiter
  grind

lemma loop_fine (notWaiting : waitsFor (locals thr) = none) :
  Fine locals thr q (loop thr req q) := by
  unfold loop
  split
  · next holds =>
      have notHeld : ¬q.lock.heldByCurrentThread thr = true := by
        rw [Lock.heldByCurrentThread, decide_eq_true_iff, inv.held thr, notWaiting]
        simp
      rw [if_neg notHeld]
      exact acquire_fine inv notWaiting fun _ => holds
  next isTrue =>
    exact perform_fine inv (by simpa using isTrue) notWaiting.symm

lemma Invariant.released (isHolder : q.lock.holder = some thr)
  (woken : ∀ side, waitsFor (locals thr) = some side → q.waiter side ≠ some thr) :
  Invariant (update locals thr .outside) (q.setLock ⟨none, q.lock.semaphore.up.2⟩) := by
  rcases inv with ⟨held, val, recorded, inside⟩
  refine ⟨?_, ?_, ?_, inside⟩
  · intro other
    change none = some other ↔ _
    grind [update_apply, waitsFor]
  · change q.lock.semaphore.value + 1 = _
    rw [val, isHolder]
    rfl
  intro side other isWaiter
  grind [update_apply]

end

lemma outcome_fine (invariant : Invariant locals q) {result : Except Stop (IntqPc × Intq Thread)}
  (isRes : outcome thr choice (locals thr) q = some result)
  (stillTrue : choice = .resume → ∀ req, locals thr = .locking req →
    thr ∉ q.lock.semaphore.waiters → q.lock.semaphore.value ≠ 0 →
      q.holdsUp req.side = true) : Fine locals thr q result := by
  cases choice with
  | call req =>
    rcases Option.ite_none_right_eq_some.mp isRes with ⟨isOutside, returned⟩
    cases returned
    exact loop_fine invariant (by rw [isOutside]; rfl)
  | interrupt req =>
    rcases Option.ite_none_left_eq_some.mp isRes with ⟨isTrue, returned⟩
    cases returned
    exact perform_fine invariant (by simpa using isTrue) rfl
  | resume =>
    cases here : locals thr with
    | outside =>
      rw [here] at isRes
      cases isRes
    | locking req =>
      rw [here] at isRes
      rcases Option.ite_none_left_eq_some.mp isRes with ⟨isWoken, returned⟩
      cases returned
      exact acquire_fine invariant (by rw [here]; rfl) (stillTrue rfl req here isWoken)
    | waiting req =>
      rw [here] at isRes
      rcases Option.ite_none_left_eq_some.mp isRes with ⟨isWoken, returned⟩
      have isHolder : q.lock.holder = some thr := by
        rw [invariant.held thr, here]
        simp [waitsFor]
      rw [if_pos (by simpa [Lock.heldByCurrentThread] using isHolder)] at returned
      cases returned
      have released := invariant.released isHolder fun side isSide => by
        rw [here] at isSide
        cases isSide
        exact isWoken
      rcases @loop_fine _ _ _ _ thr req released (by simp [waitsFor]) with
        ⟨pc, after, returned, kept, keeps⟩
      rw [update_idem] at kept
      refine ⟨pc, after, returned, kept, ?_⟩
      intro side waiter isWaiter
      exact keeps side waiter (by rw [waiter_setLock, isWaiter])

lemma stillTrue_of_ok {res : IntqPc × Intq Thread}
  (ran : outcome thr choice (st.locals thr) st.shared = some (.ok res)) :
  StillTrue st thr choice := by
  rintro rfl req here isWoken notZero
  rw [outcome, here, resume, acquire, Semaphore.down_of_ne_zero notZero] at ran
  by_contra isFalse
  simp [wait, holdsUp_setLock, isFalse, Except.map] at ran

end Invariant

/-- A step is safe exactly if it does not give the lock to a thread that has slept too long. -/
theorem safeStep_iff_of_reached {state : State Thread} {thread : Thread} {choice : IntqChoice}
    (reached : Reachable Starts (Concurrent.Step action Concurrent.anyStep) state) :
    SafeStep state thread choice ↔ StillTrue state thread choice := by
  have invariant : Invariant state.locals state.shared := by
    refine @Concurrent.invariant _ _ _ _ _ _ _ _ _
      (fun state => Invariant state.locals state.shared) ?_ ?_ reached
    · intro state ⟨outside, isInit⟩
      rw [isInit]
      refine ⟨?_, rfl, ?_, Nat.succ_pos _, Nat.succ_pos _⟩
      · intro thread
        simp [outside, waitsFor, init, Lock.init]
      · rintro (_ | _) thread isWaiter <;> cases isWaiter
    intro state thread choice next shared invariant _ acted
    rcases Option.bind_eq_some_iff.mp acted with ⟨result, isResult, isOk⟩
    cases result with
    | error reason => cases isOk
    | ok result =>
      cases isOk
      rcases outcome_fine invariant isResult (stillTrue_of_ok isResult) with
        ⟨pc, after, returned, kept, -⟩
      cases returned
      exact kept
  constructor
  · rintro safe rfl request here isWoken notZero
    have isResult : outcome thread .resume (state.locals thread) state.shared =
        some (acquire thread request state.shared) := by
      rw [outcome, here, resume, if_neg isWoken]
    rcases safe _ isResult with ⟨pc, after, isOk, -⟩
    exact stillTrue_of_ok (isResult.trans (congrArg some isOk)) rfl request here isWoken notZero
  intro stillTrue result isResult
  rcases outcome_fine invariant isResult stillTrue with ⟨pc, after, returned, -, keeps⟩
  exact ⟨pc, after, returned, keeps⟩

def twoReaders : List (Bool × IntqChoice) :=
  [(false, .call .get), (true, .call .get), (true, .interrupt (.put 1)),
    (true, .interrupt (.put 2)), (false, .resume)]

/-- The two bytes have arrived, and the first thread can go on. -/
theorem safeStep_iff_first : ∃ state : State Bool,
    Reachable Starts (Concurrent.Step action Concurrent.anyStep) state ∧
      (outcome false .resume (state.locals false) state.shared).isSome = true ∧
      (SafeStep state false .resume ↔ StillTrue state false .resume) := by
  rcases @Concurrent.reaches_of_run _ _ _ _ _ action ⟨fun _ => .outside, .init⟩ Starts
    Concurrent.anyStep _ (twoReaders.take 4)
    (fun state => (outcome false .resume (state.locals false) state.shared).isSome)
    ⟨fun _ => rfl, rfl⟩ (by decide) with
    ⟨state, reached, enabled⟩
  exact ⟨state, reached, enabled, safeStep_iff_of_reached reached⟩

/-- Two bytes arrive. The first thread takes one of them, and the second one gets the lock while
the other byte is still there: the assertion of `wait` fails. -/
theorem not_safeStep_second : ∃ state : State Bool,
    Reachable Starts (Concurrent.Step action Concurrent.anyStep) state ∧
      ¬SafeStep state true .resume := by
  rcases @Concurrent.reaches_of_run _ _ _ _ _ action ⟨fun _ => .outside, .init⟩ Starts
    Concurrent.anyStep _ twoReaders
    (fun state => (outcome true .resume (state.locals true) state.shared).any
      fun result => result.toOption.isNone) ⟨fun _ => rfl, rfl⟩ (by decide) with
    ⟨state, reached, fails⟩
  refine ⟨state, reached, ?_⟩
  intro safe
  rcases (Option.any_eq_true ..).mp fails with ⟨result, isResult, isError⟩
  rcases safe result isResult with ⟨pc, after, rfl, -⟩
  cases isError

end Intq

end Pintos
