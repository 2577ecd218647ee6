import Pintos.Library.Interleaving
import Pintos.Threads.Semaphore

/-!
# Disk commands and their interrupts

`ide_read`, `ide_write`, `issue_pio_command` and `interrupt_handler` of `devices/ide.c` on one
channel. A step is a statement of a request, or the handler of an interrupt on the channel's line
in the context of any thread. The lock of the channel is taken as a whole. What the disk answers
through its registers is left out: a request that fails stops the kernel.

Nothing ever clears `expecting_interrupt`. After the first command an interrupt that no command has
caused raises `completion_wait` as any other, and the next request does not wait for its disk.
-/

namespace Pintos.Ide

open Function

inductive IdePc
  | outside
  | locking (write : Bool)
  | selecting (write : Bool)
  /-- Before the flag is set in `issue_pio_command`. -/
  | flagging (write : Bool)
  /-- Before the command is written to the register. -/
  | issuing (write : Bool)
  /-- Before `wait_while_busy` and `output_sector` of `ide_write`. -/
  | sending
  | downing (write : Bool)
  /-- Before `wait_while_busy` and `input_sector` of `ide_read`. -/
  | receiving
  | releasing
deriving DecidableEq

/-- `struct channel`. Ghost: whether an interrupt has come since a command was issued. -/
structure Channel (Thread : Type) where
  holder : Option Thread
  expectingInterrupt : Bool
  completionWait : Semaphore Thread
  answered : Bool

inductive IdeChoice
  | read
  | write
  | proceed
  | interrupt
deriving DecidableEq

variable {Thread : Type} [DecidableEq Thread] {pc : IdePc}

def interruptHandler (channel : Channel Thread) : Channel Thread :=
  if channel.expectingInterrupt then
    { channel with completionWait := channel.completionWait.up.2, answered := true }
  else { channel with answered := true }

def proceed (thread : Thread) (channel : Channel Thread) : IdePc → Option (IdePc × Channel Thread)
  | .outside => none
  | .locking write =>
    if channel.holder = none then
      some (.selecting write, { channel with holder := some thread })
    else none
  | .selecting write => some (.flagging write, channel)
  | .flagging write => some (.issuing write, { channel with expectingInterrupt := true })
  | .issuing write =>
    some (if write then .sending else .downing false, { channel with answered := false })
  | .sending => some (.downing true, channel)
  | .downing write =>
    if thread ∈ channel.completionWait.waiters then none
    else
      let (passed, semaphore) := channel.completionWait.down thread
      some (if passed then (if write then .releasing else .receiving) else .downing write,
        { channel with completionWait := semaphore })
  | .receiving => some (.releasing, channel)
  | .releasing => some (.outside, { channel with holder := none })

def ideAction : Action Thread IdeChoice IdePc (Channel Thread) :=
  fun thread choice pc channel =>
    match choice with
    | .read => if pc = .outside then some (.locking false, channel) else none
    | .write => if pc = .outside then some (.locking true, channel) else none
    | .proceed => proceed thread channel pc
    | .interrupt => some (pc, interruptHandler channel)

def IdePc.inFlight : IdePc → Bool
  | .sending | .downing _ => true
  | _ => false

def IdePc.passed : IdePc → Bool
  | .receiving | .releasing => true
  | _ => false

def IdePc.inside : IdePc → Bool
  | .outside | .locking _ => false
  | _ => true

@[grind →]
lemma IdePc.inside_of_inFlight (isInFlight : pc.inFlight = true) : pc.inside = true := by
  cases pc <;> first | rfl | cases isInFlight

@[grind →]
lemma IdePc.inside_of_passed (isPassed : pc.passed = true) : pc.inside = true := by
  cases pc <;> first | rfl | cases isPassed

abbrev IdeState (Thread : Type) := Concurrent Thread IdePc (Channel Thread)

def Starts (state : IdeState Thread) : Prop :=
  (∀ thread, state.locals thread = .outside) ∧ state.shared.holder = none ∧
    state.shared.completionWait.value = 0

/-- A request that has passed its `sema_down` has been answered, and the semaphore is at zero
as long as no request is between its command and its `sema_down`. -/
def CompletesRight (state : IdeState Thread) : Prop :=
  (∀ thread, (state.locals thread).passed = true → state.shared.answered = true) ∧
  ((∀ thread, (state.locals thread).inFlight = false) → state.shared.completionWait.value = 0)

/-- An expected interrupt comes while its request is in flight. -/
def InTime (state : IdeState Thread) (_thread : Thread) (choice : IdeChoice) : Prop :=
  choice = .interrupt → state.shared.expectingInterrupt = true →
    state.shared.completionWait.value = 0 ∧
      (state.shared.holder.any fun holder => (state.locals holder).inFlight) = true
deriving Decidable

structure IdeInvariant (locals : Thread → IdePc) (channel : Channel Thread) : Prop where
  held : ∀ thread, (locals thread).inside = true → channel.holder = some thread
  owed : channel.completionWait.value ≠ 0 → channel.completionWait.value = 1 ∧
    channel.answered = true ∧ channel.holder ≠ none
  waiting : channel.completionWait.value ≠ 0 → ∀ thread, channel.holder = some thread →
    (locals thread).inFlight = true
  answered : ∀ thread, (locals thread).passed = true → channel.answered = true

variable {state : IdeState Thread} {thread : Thread} {channel after : Channel Thread}
  {locals : Thread → IdePc} {next : IdePc}

section Steps

attribute [local grind] IdePc.inFlight IdePc.passed IdePc.inside

lemma IdeInvariant.down (inv : IdeInvariant locals channel) {write : Bool}
  (here : locals thread = .downing write)
  (proceeded : proceed thread channel (.downing write) = some (next, after)) :
  IdeInvariant (update locals thread next) after := by
  rcases inv with ⟨held, owed, waiting, answered⟩
  simp only [proceed, Semaphore.down] at proceeded
  refine ⟨?_, ?_, ?_, ?_⟩ <;> grind [update_apply]

lemma IdeInvariant.proceed (inv : IdeInvariant locals channel)
  (proceeded : proceed thread channel (locals thread) = some (next, after)) :
  IdeInvariant (update locals thread next) after := by
  cases here : locals thread with
  | downing write => exact inv.down here (here ▸ proceeded)
  | outside => simp [here, Ide.proceed] at proceeded
  | _ =>
    rcases inv with ⟨held, owed, waiting, answered⟩
    simp only [here, Ide.proceed] at proceeded
    refine ⟨?_, ?_, ?_, ?_⟩ <;> grind [update_apply]

end Steps

/-- As long as interrupts come in time, requests and interrupts match. -/
theorem completesRight_of_reached
    (reached : Reachable Starts (Concurrent.Step ideAction InTime) state) :
    CompletesRight state := by
  have invariant : IdeInvariant state.locals state.shared := by
    refine @Concurrent.invariant _ _ _ _ _ _ _ _ _
      (fun state => IdeInvariant state.locals state.shared) ?_ ?_ reached
    · intro state ⟨outside, _, zero⟩
      refine ⟨?_, ?_, ?_, ?_⟩ <;> simp [outside, zero, IdePc.passed, IdePc.inside]
    intro state thread choice next shared invariant inTime acted
    cases choice with
    | proceed => exact invariant.proceed acted
    | read | write =>
      rcases invariant with ⟨held, owed, waiting, answered⟩
      change IdeInvariant (update state.locals thread next) shared
      simp only [ideAction] at acted
      refine ⟨?_, ?_, ?_, ?_⟩ <;>
        grind [update_apply, IdePc.inFlight, IdePc.passed, IdePc.inside]
    | interrupt =>
      rcases invariant with ⟨held, owed, waiting, answered⟩
      have isInTime := inTime rfl
      simp only [ideAction, interruptHandler, Semaphore.up, Option.some.injEq,
        Prod.mk.injEq] at acted
      rw [Concurrent.put]
      refine ⟨?_, ?_, ?_, ?_⟩ <;> grind
  rcases invariant with ⟨held, owed, waiting, answered⟩
  refine ⟨answered, ?_⟩
  intro noneInFlight
  by_contra raised
  rcases Option.ne_none_iff_exists'.mp (owed raised).2.2 with ⟨thread, isHolder⟩
  have inFlight := waiting raised thread isHolder
  simp [noneInFlight thread] at inFlight

def idle : IdeState Unit := ⟨fun _ => .outside, ⟨none, false, .init 0, false⟩⟩

def readUntilDown : List (Unit × IdeChoice) := ((), .read) :: .replicate 4 ((), .proceed)

/-- A thread reads, the disk answers in time, and the thread has passed its `sema_down`. -/
theorem completesRight_read : ∃ state : IdeState Unit,
    Reachable Starts (Concurrent.Step ideAction InTime) state ∧
      (state.locals ()).passed = true ∧ CompletesRight state := by
  rcases @Concurrent.reaches_of_run _ _ _ _ _ ideAction idle Starts InTime _
    (readUntilDown ++ [((), .interrupt), ((), .proceed)]) (fun state => (state.locals ()).passed)
    ⟨fun _ => rfl, rfl, rfl⟩ (by decide) with ⟨state, reached, passed⟩
  exact ⟨state, reached, passed, completesRight_of_reached reached⟩

/-- A request is completed, an interrupt comes that no command has caused, and the next request
passes its `sema_down` before the disk has answered. -/
theorem not_completesRight_spurious : ∃ state : IdeState Unit,
    Reachable Starts (Concurrent.Step ideAction Concurrent.anyStep) state ∧
      ¬CompletesRight state := by
  rcases @Concurrent.reaches_of_run _ _ _ _ _ ideAction idle Starts Concurrent.anyStep _
    (readUntilDown ++ ((), .interrupt) :: .replicate 3 ((), .proceed) ++ [((), .interrupt)] ++
      readUntilDown ++ [((), .proceed)])
    (fun state => (state.locals ()).passed && !state.shared.answered)
    ⟨fun _ => rfl, rfl, rfl⟩ (by decide) with ⟨state, reached, early⟩
  refine ⟨state, reached, ?_⟩
  intro right
  rw [Bool.and_eq_true] at early
  simp [right.1 () early.1] at early

end Pintos.Ide
