import Pintos.Devices.Intq
import Pintos.Library.Runs

/-!
# The serial port

`devices/serial.c` in queued mode. Bytes are put into the transmit queue by `serial_putc` and leave
it in the interrupt handler, in `serial_flush`, and in `serial_putc` itself when the queue is full
and the caller has interrupts off. A writer may sleep in `intq_putc`. What the status register
shows and whether the input buffer is full is given with every step.
-/

namespace Pintos

namespace Intq

variable {Thread : Type} [DecidableEq Thread]

def contents (q : Intq Thread) : List Byte :=
  (List.range ((q.head + intqBufsize - q.tail) % intqBufsize)).map fun index =>
    q.buf ((q.tail + index) % intqBufsize)

def getc (q : Intq Thread) : Except Stop (Byte × Intq Thread) :=
  if q.intqEmpty then .error .panic else (q.perform .get).map fun after => (q.buf q.tail, after)

end Intq

namespace Serial

/-- The port: the transmit queue and the interrupt enable register. Ghost: the bytes written to the
transmit register, and those put into the queue. -/
structure Port (Thread : Type) where
  txq : Intq Thread
  ier : Byte
  sent : List Byte
  enqueued : List Byte

def ierRecv : Byte := 0x01

def ierXmit : Byte := 0x02

variable {Thread : Type} [DecidableEq Thread] {next : IntqPc} {byte : Byte}

def writeIer (inputFull : Bool) (port : Port Thread) : Port Thread :=
  { port with ier := (if port.txq.intqEmpty then 0 else ierXmit) |||
      (if inputFull then 0 else ierRecv) }

def transmit (port : Port Thread) : Except Stop (Port Thread) :=
  port.txq.getc.map fun (byte, txq) => { port with txq := txq, sent := port.sent ++ [byte] }

def queued (inputFull : Bool) (byte : Byte) (port : Port Thread)
    (result : IntqPc × Intq Thread) : IntqPc × Port Thread :=
  if result.1 = .outside then
    (result.1,
      writeIer inputFull { port with txq := result.2, enqueued := port.enqueued ++ [byte] })
  else (result.1, { port with txq := result.2 })

def makeRoom (interruptsOn : Bool) (port : Port Thread) : Except Stop (Port Thread) :=
  if !interruptsOn && port.txq.intqFull then transmit port else .ok port

def serialPutc (thread : Thread) (interruptsOn inputFull : Bool) (byte : Byte)
    (port : Port Thread) : Except Stop (IntqPc × Port Thread) := do
  let port ← makeRoom interruptsOn port
  (Intq.loop thread (.put byte) port.txq).map (queued inputFull byte port)

def flushLoop : ℕ → Port Thread → Except Stop (Port Thread)
  | 0, port => if port.txq.intqEmpty then .ok port else .error .running
  | fuel + 1, port => if port.txq.intqEmpty then .ok port else transmit port >>= flushLoop fuel

def serialFlush (port : Port Thread) : Except Stop (Port Thread) := flushLoop intqBufsize port

def transmitLoop : List Bool → Port Thread → Except Stop (Port Thread)
  | true :: ready, port =>
    if port.txq.intqEmpty then .ok port else transmit port >>= transmitLoop ready
  | _, port => .ok port

/-- `serial_interrupt`. Every byte that is received leads to a call of `serial_notify`. -/
def serialInterrupt (received ready : List Bool) (inputFull : Bool) (port : Port Thread) :
    Except Stop (Port Thread) :=
  (transmitLoop ready (received.foldl (fun port inputFull => writeIer inputFull port) port)).map
    (writeIer inputFull)

inductive SerialChoice
  | putc (interruptsOn inputFull : Bool) (byte : Byte)
  | resume (inputFull : Bool)
  | interrupt (received ready : List Bool) (inputFull : Bool)
  | flush
  | notify (inputFull : Bool)

def outcome (thread : Thread) (choice : SerialChoice) (pc : IntqPc) (port : Port Thread) :
    Option (Except Stop (IntqPc × Port Thread)) :=
  match choice with
  | .putc interruptsOn inputFull byte =>
    if pc = .outside then some (serialPutc thread interruptsOn inputFull byte port) else none
  | .resume inputFull =>
    match pc with
    | .locking (.put byte) | .waiting (.put byte) =>
      (Intq.resume thread port.txq pc).map fun result =>
        result.map (queued inputFull byte port)
    | _ => none
  | .interrupt received ready inputFull =>
    some ((serialInterrupt received ready inputFull port).map fun port => (pc, port))
  | .flush => if pc = .outside then some ((serialFlush port).map fun port => (pc, port)) else none
  | .notify inputFull => if pc = .outside then some (.ok (pc, writeIer inputFull port)) else none

def action : Action Thread SerialChoice IntqPc (Port Thread) :=
  fun thread choice pc port => (outcome thread choice pc port).bind Except.toOption

abbrev State (Thread : Type) := Concurrent Thread IntqPc (Port Thread)

def Starts (state : State Thread) : Prop :=
  (∀ thread, state.locals thread = .outside) ∧
    ∃ inputFull, state.shared = writeIer inputFull ⟨.init, 0, [], []⟩

/-- What has been sent and what is in the queue is what was put into it, in order, and the
transmit interrupt is enabled as long as there is something to transmit. -/
structure Complete (port : Port Thread) : Prop where
  inOrder : port.sent ++ port.txq.contents = port.enqueued
  enabled : port.txq.contents ≠ [] → port.ier &&& ierXmit = ierXmit

section Contents

open Intq

def Holds (q : Intq Thread) (bytes : List Byte) : Prop :=
  q.contents = bytes ∧ q.head < intqBufsize ∧ q.tail < intqBufsize

variable {q after : Intq Thread} {bytes : List Byte} {thr : Thread} {pc : IntqPc}

section

omit [DecidableEq Thread]

lemma Holds.setWaiter (holds : Holds q bytes) (waiter : Option Thread) (side : IntqSide) :
  Holds (q.setWaiter waiter side) bytes := by
  cases side <;> exact holds

lemma Holds.setLock (holds : Holds q bytes) (lock : Lock Thread) : Holds (q.setLock lock) bytes :=
  holds

lemma Holds.nil_iff (holds : Holds q bytes) : bytes = [] ↔ q.intqEmpty = true := by
  rcases holds with ⟨rfl, headInside, tailInside⟩
  unfold contents intqEmpty intqBufsize at *
  rw [List.map_eq_nil_iff, List.range_eq_nil, decide_eq_true_iff]
  omega

lemma signal_eq_ok {side : IntqSide} (ran : q.signal side = .ok after) :
  after = q.setWaiter none side := by
  unfold signal at ran
  split at ran
  · cases ran
  · exact (Except.ok.inj ran).symm

lemma Holds.put (holds : Holds q bytes) (notFull : q.intqFull = false)
  (ran : q.perform (.put byte) = .ok after) : Holds after (bytes ++ [byte]) := by
  rw [signal_eq_ok ran]
  refine Holds.setWaiter ?_ _ _
  rcases holds with ⟨rfl, headInside, tailInside⟩
  have room := of_decide_eq_false notFull
  unfold Holds contents next intqBufsize at *
  have longer : ((q.head + 1) % 64 + 64 - q.tail) % 64 = (q.head + 64 - q.tail) % 64 + 1 := by
    omega
  have last : (q.tail + (q.head + 64 - q.tail) % 64) % 64 = q.head := by
    omega
  refine ⟨?_, Nat.mod_lt _ (by decide), tailInside⟩
  simp only [longer, List.range_succ, List.map_append, List.map_cons, List.map_nil, last,
    Function.update_self]
  congr 1
  refine List.map_congr_left fun idx isIdx => Function.update_of_ne ?_ _ _
  have inRange := List.mem_range.mp isIdx
  omega

lemma Holds.getc (holds : Holds q bytes) (ran : q.getc = .ok (byte, after)) :
  ∃ rest, bytes = byte :: rest ∧ Holds after rest := by
  unfold Intq.getc at ran
  split at ran
  · cases ran
  next notEmpty =>
    rcases Performs.map_eq_ok ran with ⟨res, done, isRes⟩
    cases isRes
    rw [signal_eq_ok done]
    rcases holds with ⟨rfl, headInside, tailInside⟩
    have holdsRest : Holds { q with tail := next q.tail }
        { q with tail := next q.tail }.contents :=
      ⟨rfl, headInside, Nat.mod_lt _ (by decide)⟩
    refine ⟨_, ?_, holdsRest.setWaiter _ _⟩
    have ne : q.head ≠ q.tail := by
      simpa [intqEmpty] using notEmpty
    unfold contents next intqBufsize at *
    have shorter : (q.head + 64 - q.tail) % 64 = (q.head + 64 - (q.tail + 1) % 64) % 64 + 1 := by
      omega
    simp only [shorter, List.range_succ_eq_map, List.map_cons, List.map_map, Nat.add_zero,
      Nat.mod_eq_of_lt tailInside]
    congr 1
    refine List.map_congr_left fun idx _ => congrArg q.buf ?_
    omega

lemma Holds.acquire (holds : Holds q bytes)
  (ran : acquire thr (.put byte) q = .ok (pc, after)) :
  pc ≠ .outside ∧ Holds after bytes := by
  unfold Intq.acquire Intq.wait at ran
  by_cases isZero : q.lock.semaphore.value = 0
  · rw [Semaphore.down_of_zero isZero] at ran
    cases ran
    exact ⟨by simp, holds⟩
  rw [Semaphore.down_of_ne_zero isZero] at ran
  simp only [if_true] at ran
  split at ran
  · cases ran
    exact ⟨by simp, (holds.setLock _).setWaiter _ _⟩
  · cases ran

end

lemma Holds.loop (holds : Holds q bytes) (ran : loop thr (.put byte) q = .ok (pc, after)) :
  Holds after (if pc = .outside then bytes ++ [byte] else bytes) := by
  unfold Intq.loop at ran
  split at ran
  · split at ran
    · cases ran
    rcases holds.acquire ran with ⟨sleeps, stillHolds⟩
    rwa [if_neg sleeps]
  next notFull =>
    rcases Performs.map_eq_ok ran with ⟨res, done, isRes⟩
    cases isRes
    rw [if_pos rfl]
    exact holds.put (by simpa [holdsUp, IntqRequest.side] using notFull) done

lemma Holds.resume (holds : Holds q bytes)
  (isPut : pc = .locking (.put byte) ∨ pc = .waiting (.put byte))
  (ran : resume thr q pc = some (.ok (next, after))) :
  Holds after (if next = .outside then bytes ++ [byte] else bytes) := by
  rcases isPut with rfl | rfl
  · simp only [Intq.resume, Option.ite_none_left_eq_some, Option.some.injEq] at ran
    rcases holds.acquire ran.2 with ⟨sleeps, stillHolds⟩
    rwa [if_neg sleeps]
  simp only [Intq.resume, Option.ite_none_left_eq_some] at ran
  rcases ran with ⟨_, ran⟩
  split at ran
  · exact (holds.setLock _).loop (Option.some.inj ran)
  · cases ran

end Contents

section Invariant

variable {port after : Port Thread} {inputFull : Bool} {bytes : List Byte} {pc : IntqPc}
  {thr : Thread}

def Ordered (port : Port Thread) (bytes : List Byte) : Prop :=
  Holds port.txq bytes ∧ port.sent ++ bytes = port.enqueued

def Invariant (port : Port Thread) : Prop :=
  ∃ bytes, Ordered port bytes ∧ (bytes ≠ [] → port.ier &&& ierXmit = ierXmit)

section

omit [DecidableEq Thread]

lemma Ordered.writeIer {bytes : List Byte} (ordered : Ordered port bytes) (inputFull : Bool) :
  Invariant (writeIer inputFull port) := by
  refine ⟨bytes, ordered, ?_⟩
  intro notNil
  have notEmpty : ¬port.txq.intqEmpty = true :=
    fun isEmpty => notNil (ordered.1.nil_iff.mpr isEmpty)
  change ((if port.txq.intqEmpty then 0 else ierXmit) ||| _) &&& ierXmit = ierXmit
  rw [if_neg notEmpty]
  cases inputFull <;> rfl

lemma Invariant.writeIer (inv : Invariant port) (inputFull : Bool) :
  Invariant (writeIer inputFull port) := by
  rcases inv with ⟨bytes, ordered, -⟩
  exact ordered.writeIer inputFull

lemma Invariant.transmit (inv : Invariant port) (ran : transmit port = .ok after) :
  Invariant after := by
  rcases inv with ⟨bytes, ⟨holds, inOrder⟩, enabled⟩
  rcases Performs.map_eq_ok ran with ⟨res, got, isAfter⟩
  rcases holds.getc got with ⟨rest, rfl, holdsRest⟩
  rw [← isAfter]
  refine ⟨rest, ⟨holdsRest, ?_⟩, fun _ => enabled (List.cons_ne_nil _ _)⟩
  rw [← inOrder, List.append_assoc]
  rfl

lemma Invariant.flushLoop {fuel : ℕ} (inv : Invariant port)
  (ran : flushLoop fuel port = .ok after) : Invariant after := by
  induction fuel generalizing port with
  | zero =>
    rw [Serial.flushLoop] at ran
    split at ran
    · cases ran
      exact inv
    · cases ran
  | succ fuel ih =>
    rw [Serial.flushLoop] at ran
    split at ran
    · cases ran
      exact inv
    rcases Performs.bind_eq_ok ran with ⟨next, sent, ran⟩
    exact ih (inv.transmit sent) ran

lemma Invariant.transmitLoop {ready : List Bool} (inv : Invariant port)
  (ran : transmitLoop ready port = .ok after) : Invariant after := by
  induction ready generalizing port with
  | nil =>
    cases ran
    exact inv
  | cons isReady ready ih =>
    cases isReady with
    | false =>
      cases ran
      exact inv
    | true =>
      rw [Serial.transmitLoop] at ran
      split at ran
      · cases ran
        exact inv
      rcases Performs.bind_eq_ok ran with ⟨next, sent, ran⟩
      exact ih (inv.transmit sent) ran

lemma Invariant.notified (inv : Invariant port) (received : List Bool) : Invariant
  (received.foldl (fun port inputFull => Serial.writeIer inputFull port) port) := by
  induction received generalizing port with
  | nil => exact inv
  | cons inputFull received ih => exact ih (inv.writeIer inputFull)

lemma Invariant.serialInterrupt {received ready : List Bool} (inv : Invariant port)
  (ran : serialInterrupt received ready inputFull port = .ok after) : Invariant after := by
  rcases Performs.map_eq_ok ran with ⟨next, sent, isAfter⟩
  rw [← isAfter]
  exact ((inv.notified received).transmitLoop sent).writeIer inputFull

lemma Ordered.queued {res : IntqPc × Intq Thread} (ordered : Ordered port bytes)
  (enabled : bytes ≠ [] → port.ier &&& ierXmit = ierXmit)
  (holds : Holds res.2 (if res.1 = .outside then bytes ++ [byte] else bytes))
  (isAfter : queued inputFull byte port res = (pc, after)) : Invariant after := by
  unfold Serial.queued at isAfter
  split at isAfter
  · next isOutside =>
      cases isAfter
      rw [if_pos isOutside] at holds
      refine @Ordered.writeIer _ _ (bytes ++ [byte]) ⟨holds, ?_⟩ _
      rw [← List.append_assoc, ordered.2]
  next sleeps =>
    cases isAfter
    rw [if_neg sleeps] at holds
    exact ⟨bytes, ⟨holds, ordered.2⟩, enabled⟩

end

lemma Invariant.serialPutc {interruptsOn : Bool} (inv : Invariant port)
  (ran : serialPutc thr interruptsOn inputFull byte port = .ok (pc, after)) :
  Invariant after := by
  rcases Performs.bind_eq_ok ran with ⟨next, sent, ran⟩
  have invNext : Invariant next := by
    unfold makeRoom at sent
    split at sent
    · exact inv.transmit sent
    cases sent
    exact inv
  rcases Performs.map_eq_ok ran with ⟨res, looped, isAfter⟩
  rcases invNext with ⟨bytes, ordered, enabled⟩
  exact ordered.queued enabled (ordered.1.loop looped) isAfter

lemma Invariant.outcome {choice : SerialChoice} (inv : Invariant port)
  (ran : outcome thr choice pc port = some (.ok (next, after))) : Invariant after := by
  cases choice with
  | putc interruptsOn inputFull byte =>
    rcases Option.ite_none_right_eq_some.mp ran with ⟨_, ran⟩
    exact inv.serialPutc (Option.some.inj ran)
  | resume inputFull =>
    have kept : ∀ byte, pc = .locking (.put byte) ∨ pc = .waiting (.put byte) →
        (Intq.resume thr port.txq pc).map (fun res =>
          res.map (queued inputFull byte port)) = some (.ok (next, after)) →
        Invariant after := by
      intro byte isPut ran
      rcases Option.map_eq_some_iff.mp ran with ⟨res, resumed, ran⟩
      rcases Performs.map_eq_ok ran with ⟨res, rfl, isAfter⟩
      rcases inv with ⟨bytes, ordered, enabled⟩
      exact ordered.queued enabled (ordered.1.resume isPut resumed) isAfter
    unfold Serial.outcome at ran
    dsimp only at ran
    split at ran
    · next byte => exact kept byte (Or.inl rfl) ran
    · next byte => exact kept byte (Or.inr rfl) ran
    · cases ran
  | interrupt received ready inputFull =>
    rcases Performs.map_eq_ok (Option.some.inj ran) with ⟨_, handled, isAfter⟩
    cases isAfter
    exact inv.serialInterrupt handled
  | flush =>
    rcases Option.ite_none_right_eq_some.mp ran with ⟨_, ran⟩
    rcases Performs.map_eq_ok (Option.some.inj ran) with ⟨_, flushed, isAfter⟩
    cases isAfter
    exact inv.flushLoop flushed
  | notify inputFull =>
    rcases Option.ite_none_right_eq_some.mp ran with ⟨_, ran⟩
    cases ran
    exact inv.writeIer inputFull

end Invariant

section Flush

omit [DecidableEq Thread]

lemma Ordered.transmits {byte : Byte} (ordered : Ordered port (byte :: bytes)) :
    ∃ after, transmit port = .ok after ∧ Ordered after bytes ∧ after.enqueued = port.enqueued := by
  have notEmpty : port.txq.intqEmpty = false := by
    rw [← Bool.not_eq_true, ← ordered.1.nil_iff]
    exact List.cons_ne_nil _ _
  rcases @Intq.perform_eq _ port.txq .get ordered.1.2 notEmpty with ⟨changed, side, performed, -⟩
  have got : port.txq.getc = .ok (port.txq.buf port.txq.tail, changed.setWaiter none side) := by
    rw [Intq.getc, notEmpty, performed]
    rfl
  rcases ordered.1.getc got with ⟨rest, isBytes, holdsRest⟩
  cases isBytes
  refine ⟨_, by rw [transmit, got]; rfl, ⟨holdsRest, ?_⟩, ?_⟩
  · rw [← ordered.2, List.append_assoc]
    rfl
  · rfl

lemma flushLoop_returns {fuel : ℕ} (ordered : Ordered port bytes)
    (enough : bytes.length ≤ fuel) : ∃ after, flushLoop fuel port = .ok after ∧
      Ordered after [] ∧ after.enqueued = port.enqueued := by
  induction bytes generalizing port fuel with
  | nil => exact ⟨port, by cases fuel <;> exact if_pos (ordered.1.nil_iff.mp rfl), ordered, rfl⟩
  | cons byte bytes ih =>
    rcases Nat.exists_eq_add_of_le' (Nat.le_of_add_left_le enough) with ⟨fuel, rfl⟩
    rcases ordered.transmits with ⟨next, sent, orderedNext, sameNext⟩
    rcases ih orderedNext (Nat.le_of_succ_le_succ enough) with ⟨after, flushed, isEmpty, same⟩
    refine ⟨after, ?_, isEmpty, same.trans sameNext⟩
    have notEmpty : ¬port.txq.intqEmpty = true := fun isEmpty =>
      List.cons_ne_nil _ _ (ordered.1.nil_iff.mpr isEmpty)
    rw [flushLoop, if_neg notEmpty, sent]
    exact flushed

/-- A flush ends, and everything that was queued has been sent then, in order. -/
theorem serialFlush_returns (ordered : Ordered port bytes) : ∃ after,
    serialFlush port = .ok after ∧ after.sent = port.enqueued ∧ after.txq.contents = [] := by
  have enough : bytes.length ≤ intqBufsize := by
    rw [← ordered.1.1, Intq.contents, List.length_map, List.length_range]
    exact (Nat.mod_lt _ (by decide)).le
  rcases flushLoop_returns ordered enough with ⟨after, flushed, ⟨isEmpty, isSent⟩, same⟩
  exact ⟨after, flushed, by rwa [List.append_nil, same] at isSent, isEmpty.1⟩

theorem serialFlush_two : ∃ after : Port Bool,
    serialFlush ⟨{ Intq.init with head := 2 }, 0, [7], [7, 0, 0]⟩ = .ok after ∧
      after.sent = [7, 0, 0] ∧ after.txq.contents = [] :=
  @serialFlush_returns _ _ [0, 0] ⟨⟨by decide, by decide, by decide⟩, rfl⟩

end Flush

/-- In every run the bytes leave the port in the order in which they were put into the queue. -/
theorem complete_of_reached {state : State Thread}
    (reached : Reachable Starts (Concurrent.Step action Concurrent.anyStep) state) :
    Complete state.shared := by
  have invariant : Invariant state.shared := by
    refine @Concurrent.invariant _ _ _ _ _ _ _ _ _ (fun state => Invariant state.shared) ?_ ?_
      reached
    · intro state ⟨_, inputFull, isStart⟩
      rw [isStart]
      have isNil : (Intq.init : Intq Thread).contents = [] := by
        simp [Intq.contents, Intq.init]
      have ordered : Ordered (⟨.init, 0, [], []⟩ : Port Thread) [] :=
        ⟨⟨isNil, Nat.succ_pos _, Nat.succ_pos _⟩, rfl⟩
      exact ordered.writeIer inputFull
    intro state thread choice next shared invariant _ acted
    rcases Option.bind_eq_some_iff.mp acted with ⟨result, isResult, isOk⟩
    cases result with
    | error reason => cases isOk
    | ok result =>
      cases isOk
      exact invariant.outcome isResult
  rcases invariant with ⟨bytes, ⟨⟨isContents, -⟩, inOrder⟩, enabled⟩
  subst isContents
  exact ⟨inOrder, enabled⟩

/-- A byte is put, the handler sends it, and two more are put. -/
theorem complete_three : ∃ state : State Bool,
    Reachable Starts (Concurrent.Step action Concurrent.anyStep) state ∧
      state.shared.sent = [1] ∧ state.shared.enqueued = [1, 2, 3] ∧ Complete state.shared := by
  rcases @Concurrent.reaches_of_run _ _ _ _ _ action
    ⟨fun _ => .outside, writeIer false ⟨.init, 0, [], []⟩⟩ Starts Concurrent.anyStep _
    [(false, .putc true false 1), (true, .interrupt [] [true, true] false),
      (true, .putc false false 2), (false, .putc true true 3)]
    (fun state => decide (state.shared.sent = [1] ∧ state.shared.enqueued = [1, 2, 3]))
    ⟨fun _ => rfl, false, rfl⟩ (by decide) with ⟨state, reached, values⟩
  rcases of_decide_eq_true values with ⟨isSent, isEnqueued⟩
  exact ⟨state, reached, isSent, isEnqueued, complete_of_reached reached⟩

end Serial

end Pintos
