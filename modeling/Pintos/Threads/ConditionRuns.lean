import Pintos.Threads.Condition

/-!
# Signals and waits match

The n-th wait that is queued on a condition is released by the n-th signal that
finds the list not empty. The invariant says which numbers are on the list, and
that the private semaphore of a waiting thread has been raised exactly if its
number is below the number of raises. From it follows what every single step of
a thread may do.
-/

namespace Pintos

open Function

variable {Thread : Type} [DecidableEq Thread] {stage : CondStage Thread}
  {broadcast : Option (Broadcast Thread)} {waiter : Thread} {place : CondLocal Thread}

def CondStage.Exclusive : CondStage Thread → Prop
  | queueing | signalling _ | raising _ _ | broadcasting _ => True
  | free | leaving | sleeping | returning => False

def CondStage.Plain : CondStage Thread → Prop
  | free | returning | signalling _ | broadcasting _ => True
  | queueing | leaving | sleeping | raising _ _ => False

def CondStage.turn (stage : CondStage Thread) (pc : LockPc) : CondStage Thread :=
  match stage with
  | leaving => if pc = .outside then .sleeping else .leaving
  | returning => if pc = .owner then .free else .returning
  | stage => stage

inductive CondTurn (waiters : List Thread) : CondLocal Thread → CondStage Thread → Prop
  | signal {place : CondLocal Thread} (isFree : place.stage = .free)
      (isOwner : place.lockPc = .owner) : CondTurn waiters place (.signalling none)
  | broadcast {place : CondLocal Thread} (isFree : place.stage = .free)
      (isOwner : place.lockPc = .owner) :
      CondTurn waiters place (.broadcasting { queued := waiters, released := [] })
  | nobody {place : CondLocal Thread} {broadcast : Option (Broadcast Thread)}
      (isSignalling : place.stage = .signalling broadcast) (isNil : waiters = []) :
      CondTurn waiters place (broadcast.elim .free .broadcasting)
  | finish {place : CondLocal Thread} {broadcast : Broadcast Thread}
      (isBroadcasting : place.stage = .broadcasting broadcast) (isNil : waiters = []) :
      CondTurn waiters place .free
  | again {place : CondLocal Thread} {broadcast : Broadcast Thread}
      (isBroadcasting : place.stage = .broadcasting broadcast) :
      CondTurn waiters place (.signalling (some broadcast))

inductive CondMove (thread : Thread) (place : CondLocal Thread) (shared : CondShared Thread) :
    CondLocal Thread → CondShared Thread → Prop
  | lock {pc : LockPc} {lock : Lock Thread}
      (turns : place.stage = .free ∨ place.stage = .leaving ∨ place.stage = .returning)
      (moves : LockMove thread shared.lock place.lockPc pc lock) :
      CondMove thread place shared { lockPc := pc, stage := place.stage.turn pc }
        { shared with lock := lock }
  | turn {stage : CondStage Thread} (turns : CondTurn shared.waiters place stage) :
      CondMove thread place shared (place.at stage) shared
  | init (isFree : place.stage = .free) (isOwner : place.lockPc = .owner) :
      CondMove thread place shared (place.at .queueing)
        { shared with sema := update shared.sema thread (.init 0) }
  | push (isQueueing : place.stage = .queueing) :
      CondMove thread place shared (place.at .leaving)
        { shared with
          waiters := shared.waiters ++ [thread]
          tickets := shared.tickets + 1
          ticket := update shared.ticket thread shared.tickets
          queuedAt := update shared.queuedAt thread shared.signals }
  | block (isSleeping : place.stage = .sleeping)
      (notBlocked : thread ∉ (shared.sema thread).waiters)
      (zero : (shared.sema thread).value = 0) :
      CondMove thread place shared (place.at .sleeping)
        { shared with
          sema := update shared.sema thread
            { shared.sema thread with waiters := (shared.sema thread).waiters ++ [thread] } }
  | pass (isSleeping : place.stage = .sleeping) (notBlocked : thread ∉ (shared.sema thread).waiters)
      (positive : (shared.sema thread).value ≠ 0) :
      CondMove thread place shared (place.at .returning)
        { shared with
          sema := update shared.sema thread
            { shared.sema thread with value := (shared.sema thread).value - 1 } }
  | pop {broadcast : Option (Broadcast Thread)} {waiter : Thread} {rest : List Thread}
      (isSignalling : place.stage = .signalling broadcast)
      (isCons : shared.waiters = waiter :: rest) :
      CondMove thread place shared (place.at (.raising waiter broadcast))
        { shared with waiters := rest, signals := shared.signals + 1 }
  | raise {broadcast : Option (Broadcast Thread)} {waiter : Thread}
      (isRaising : place.stage = .raising waiter broadcast) :
      CondMove thread place shared (place.at (broadcast.elim .free fun broadcast =>
          .broadcasting { broadcast with released := broadcast.released ++ [waiter] }))
        { shared with
          sema := update shared.sema waiter (shared.sema waiter).up.2
          raised := shared.raised + 1 }

section Inversion

variable {thr : Thread} {call : CondCall} {next : CondLocal Thread}
  {shared after : CondShared Thread}

omit [DecidableEq Thread] in
lemma CondTurn.plain {waiters : List Thread} (turns : CondTurn waiters place stage) :
  place.stage.Plain ∧ stage.Plain := by
  cases turns with
  | @nobody broadcast isSignalling isNil => cases broadcast <;> grind [CondStage.Plain]
  | _ => grind [CondStage.Plain]

lemma lockStep_moves {lockCall : LockCall} {stage : LockPc → CondStage Thread}
  (turns : place.stage = .free ∨ place.stage = .leaving ∨ place.stage = .returning)
  (isTurn : ∀ pc, stage pc = place.stage.turn pc)
  (stepped : lockStep thr lockCall place shared stage = some (next, after)) :
  CondMove thr place shared next after := by
  rcases Option.map_eq_some_iff.mp stepped with ⟨⟨pc, lock⟩, acted, isNext⟩
  cases isNext
  simp only [isTurn]
  exact .lock turns (lockAction_moves acted)

lemma condCall_moves (isFree : place.stage = .free)
  (called : condCall thr call place shared = some (next, after)) :
  CondMove thr place shared next after := by
  cases call with
  | lock lockCall =>
    simp only [condCall] at called
    exact lockStep_moves (Or.inl isFree) (fun pc => by rw [isFree]; rfl) called
  | wait =>
    rcases Option.ite_none_right_eq_some.mp called with ⟨owns, isNext⟩
    cases isNext
    exact .init isFree owns.1
  | signal =>
    rcases Option.ite_none_right_eq_some.mp called with ⟨owns, isNext⟩
    cases isNext
    exact .turn (.signal isFree owns.1)
  | broadcast =>
    rcases Option.ite_none_right_eq_some.mp called with ⟨owns, isNext⟩
    cases isNext
    exact .turn (.broadcast isFree owns.1)
  | proceed => cases called

lemma condProceed_moves (proceeded : condProceed thr place shared = some (next, after)) :
  CondMove thr place shared next after := by
  unfold condProceed at proceeded
  cases isStage : place.stage with
  | free => simp [isStage] at proceeded
  | queueing =>
    rw [isStage] at proceeded
    cases proceeded
    exact .push isStage
  | leaving =>
    rw [isStage] at proceeded
    exact lockStep_moves (Or.inr (Or.inl isStage)) (fun pc => by rw [isStage]; rfl) proceeded
  | sleeping =>
    rw [isStage] at proceeded
    rcases Option.ite_none_left_eq_some.mp proceeded with ⟨notBlocked, proceeded⟩
    by_cases zero : (shared.sema thr).value = 0
    · rw [Semaphore.down_of_zero zero] at proceeded
      cases proceeded
      exact .block isStage notBlocked zero
    rw [Semaphore.down_of_ne_zero zero] at proceeded
    cases proceeded
    exact .pass isStage notBlocked zero
  | returning =>
    rw [isStage] at proceeded
    exact lockStep_moves (Or.inr (Or.inr isStage)) (fun pc => by rw [isStage]; rfl) proceeded
  | signalling broadcast =>
    cases isList : shared.waiters with
    | nil =>
      simp only [isStage, isList] at proceeded
      cases proceeded
      exact .turn (.nobody isStage isList)
    | cons waiter rest =>
      simp only [isStage, isList] at proceeded
      cases proceeded
      exact .pop isStage isList
  | raising waiter broadcast =>
    rw [isStage] at proceeded
    cases proceeded
    exact .raise isStage
  | broadcasting broadcast =>
    cases isList : shared.waiters with
    | nil =>
      simp only [isStage, isList] at proceeded
      cases proceeded
      exact .turn (.finish isStage isList)
    | cons waiter rest =>
      simp only [isStage, isList] at proceeded
      rcases Option.ite_none_right_eq_some.mp proceeded with ⟨_, isNext⟩
      cases isNext
      exact .turn (.again isStage)

lemma condAction_moves (acted : condAction thr call place shared = some (next, after)) :
  CondMove thr place shared next after := by
  unfold condAction at acted
  split at acted
  · next isFree => exact condCall_moves isFree acted
  split at acted
  · exact condProceed_moves acted
  · cases acted

end Inversion

/-- The numbers of the waits on the list follow one another, and the private semaphore of a
waiting thread has been raised exactly if its number is below the number of raises. -/
structure QueueInvariant (locals : Thread → CondLocal Thread) (shared : CondShared Thread) :
    Prop where
  total : shared.signals + shared.waiters.length = shared.tickets
  ordered : shared.waiters.map shared.ticket =
    List.range' shared.signals shared.waiters.length
  listed : ∀ thread ∈ shared.waiters, (locals thread).Waits
  member : ∀ thread, (locals thread).Waits → shared.signals ≤ shared.ticket thread →
    thread ∈ shared.waiters
  distinct : ∀ one two, (locals one).Waits → (locals two).Waits →
    shared.ticket one = shared.ticket two → one = two
  pending : ∀ signaller waiter broadcast, (locals signaller).stage = .raising waiter broadcast →
    shared.raised + 1 = shared.signals ∧ (locals waiter).Waits ∧
      shared.ticket waiter = shared.raised
  settled : (∀ signaller waiter broadcast,
    (locals signaller).stage ≠ .raising waiter broadcast) → shared.raised = shared.signals
  fresh : ∀ thread, (locals thread).stage = .queueing → shared.sema thread = .init 0
  awake : ∀ thread, (locals thread).Waits → shared.ticket thread < shared.raised →
    shared.sema thread = { value := 1, waiters := [] }
  asleep : ∀ thread, (locals thread).Waits → shared.raised ≤ shared.ticket thread →
    (shared.sema thread).value = 0 ∧
      ((shared.sema thread).waiters = [] ∨ (shared.sema thread).waiters = [thread])
  queued : ∀ thread, (locals thread).Waits → shared.queuedAt thread ≤ shared.ticket thread

namespace QueueInvariant

variable {locals : Thread → CondLocal Thread} {shared : CondShared Thread} {thr : Thread}
  {next : CondLocal Thread}

section

omit [DecidableEq Thread]

lemma raised_le (queue : QueueInvariant locals shared) : shared.raised ≤ shared.signals := by
  by_cases someone : ∃ signaller waiter broadcast,
      (locals signaller).stage = .raising waiter broadcast
  · rcases someone with ⟨signaller, waiter, broadcast, isRaising⟩
    have := (queue.pending _ _ _ isRaising).1
    omega
  refine (queue.settled ?_).le
  intro signaller waiter broadcast isRaising
  exact someone ⟨signaller, waiter, broadcast, isRaising⟩

lemma signals_le (queue : QueueInvariant locals shared) (listed : thr ∈ shared.waiters) :
  shared.signals ≤ shared.ticket thr := by
  have mem : shared.ticket thr ∈ shared.waiters.map shared.ticket :=
    List.mem_map_of_mem listed
  rw [queue.ordered, List.mem_range'_1] at mem
  exact mem.1

lemma ticket_lt (queue : QueueInvariant locals shared) (waits : (locals thr).Waits) :
  shared.ticket thr < shared.tickets := by
  have total := queue.total
  by_cases later : shared.signals ≤ shared.ticket thr
  · have mem : shared.ticket thr ∈ shared.waiters.map shared.ticket :=
      List.mem_map_of_mem (queue.member thr waits later)
    rw [queue.ordered, List.mem_range'_1] at mem
    omega
  · omega

end

lemma relocated (queue : QueueInvariant locals shared)
  (waitsBefore : next.Waits → (locals thr).Waits)
  (waitsBehind : (locals thr).Waits → next.Waits ∨ shared.ticket thr < shared.raised)
  (notBefore : ∀ waiter broadcast, (locals thr).stage ≠ .raising waiter broadcast)
  (notBehind : ∀ waiter broadcast, next.stage ≠ .raising waiter broadcast)
  (freshBehind : next.stage = .queueing → shared.sema thr = .init 0) :
  QueueInvariant (update locals thr next) shared := by
  have signals_le : ∀ other ∈ shared.waiters, shared.signals ≤ shared.ticket other :=
    fun _ => queue.signals_le
  rcases queue with ⟨total, ordered, listed, mem, distinct, pending, settled, fresh, awake,
    asleep, queued⟩
  refine ⟨total, ordered, ?_, ?_, ?_, ?_, fun nobody => settled fun signaller => ?_, ?_, ?_, ?_, ?_⟩
  case refine_5 =>
      have := nobody signaller
      grind [update_apply]
  all_goals grind [update_apply]

omit [DecidableEq Thread] in
lemma not_waits_of_plain (plain : place.stage.Plain) : ¬ place.Waits := by
  grind [CondLocal.Waits, CondStage.Plain]

omit [DecidableEq Thread] in
lemma not_raising_of_plain (plain : stage.Plain) (waiter : Thread)
  (broadcast : Option (Broadcast Thread)) : stage ≠ .raising waiter broadcast := by
  grind [CondStage.Plain]

section

variable (queue : QueueInvariant locals shared)

include queue

lemma plain (pre : (locals thr).stage.Plain) (behind : next.stage.Plain) :
  QueueInvariant (update locals thr next) shared := by
  refine queue.relocated ?_ ?_ (not_raising_of_plain pre) (not_raising_of_plain behind) ?_
  · exact fun waits => absurd waits (not_waits_of_plain behind)
  · exact fun waits => absurd waits (not_waits_of_plain pre)
  intro isQueueing
  rw [isQueueing] at behind
  exact behind.elim

lemma sema_written (plain : (locals thr).stage.Plain) (sema : Semaphore Thread) :
  QueueInvariant locals { shared with sema := update shared.sema thr sema } := by
  have notWaits := not_waits_of_plain plain
  have notQueueing : (locals thr).stage ≠ .queueing := by
    intro isQueueing
    rw [isQueueing] at plain
    exact plain
  rcases queue with ⟨total, ordered, listed, mem, distinct, pending, settled, fresh, awake,
    asleep, queued⟩
  refine ⟨total, ordered, listed, mem, distinct, pending, settled, ?_, ?_, ?_, queued⟩ <;>
    grind [update_apply]

lemma blocked (waits : (locals thr).Waits) (zero : (shared.sema thr).value = 0)
  (notBlocked : thr ∉ (shared.sema thr).waiters) :
  QueueInvariant locals
    { shared with
      sema := update shared.sema thr
        { shared.sema thr with waiters := (shared.sema thr).waiters ++ [thr] } } := by
  have notQueueing : (locals thr).stage ≠ .queueing := by
    grind [CondLocal.Waits]
  rcases queue with ⟨total, ordered, listed, mem, distinct, pending, settled, fresh, awake,
    asleep, queued⟩
  refine ⟨total, ordered, listed, mem, distinct, pending, settled, ?_, ?_, ?_, queued⟩ <;>
    grind [update_apply]

lemma pushed (isQueueing : (locals thr).stage = .queueing) (isLeaving : next.stage = .leaving) :
  QueueInvariant (update locals thr next)
    { shared with
      waiters := shared.waiters ++ [thr]
      tickets := shared.tickets + 1
      ticket := update shared.ticket thr shared.tickets
      queuedAt := update shared.queuedAt thr shared.signals } := by
  have notWaits : ¬ (locals thr).Waits := by
    rw [CondLocal.Waits, isQueueing]
    simp
  have waits : next.Waits := Or.inl isLeaving
  have ticket_lt : ∀ other, (locals other).Waits → shared.ticket other < shared.tickets :=
    fun _ => queue.ticket_lt
  rcases queue with ⟨total, ordered, listed, mem, distinct, pending, settled, fresh, awake,
    asleep, queued⟩
  refine ⟨?_, ?_, ?_, ?_, ?_, ?_, fun nobody => settled fun signaller => ?_, ?_, ?_, ?_, ?_⟩
  case refine_2 =>
      have pre : shared.waiters.map (update shared.ticket thr shared.tickets) =
          shared.waiters.map shared.ticket :=
        List.map_congr_left fun other isListed => update_of_ne (by grind) _ _
      simp only [List.map_append, List.map_singleton, update_self, pre,
        ordered, List.length_append, List.length_singleton, List.range'_concat, one_mul, total]
  case refine_7 =>
      have := nobody signaller
      grind [update_apply]
  all_goals grind [update_apply, Semaphore.init]

lemma popped {rest : List Thread} (isCons : shared.waiters = waiter :: rest)
  (nobody : ∀ signaller waiter broadcast,
    (locals signaller).stage ≠ .raising waiter broadcast) (notWaits : ¬ (locals thr).Waits)
  (isRaising : next.stage = .raising waiter broadcast) :
  QueueInvariant (update locals thr next)
    { shared with waiters := rest, signals := shared.signals + 1 } := by
  have notNext : ¬ next.Waits := by
    rw [CondLocal.Waits, isRaising]
    simp
  rcases queue with ⟨total, ordered, listed, mem, distinct, pending, settled, fresh, awake,
    asleep, queued⟩
  rw [isCons, List.map_cons, List.length_cons, List.range'_succ, List.cons.injEq] at ordered
  refine ⟨?_, ordered.2, ?_, ?_, ?_, ?_, fun none => ?_, ?_, ?_, ?_, ?_⟩
  case refine_6 =>
      have := none thr waiter broadcast
      grind [update_apply]
  all_goals grind [update_apply]

end

omit [DecidableEq Thread] in
lemma up_sema (queue : QueueInvariant locals shared)
  (isRaising : (locals thr).stage = .raising waiter broadcast) :
  (shared.sema waiter).up.2 = { value := 1, waiters := [] } := by
  rcases queue.pending _ _ _ isRaising with ⟨_, waits, ticket⟩
  rcases queue.asleep waiter waits ticket.ge with ⟨zero, isNil | isSelf⟩
  · simp [Semaphore.up, zero, isNil]
  · simp [Semaphore.up, zero, isSelf]

lemma lifted (queue : QueueInvariant locals shared)
  (isRaising : (locals thr).stage = .raising waiter broadcast)
  (onlyThr : ∀ signaller waiter broadcast,
    (locals signaller).stage = .raising waiter broadcast → signaller = thr)
  (plain : next.stage.Plain) : QueueInvariant (update locals thr next)
    { shared with
      sema := update shared.sema waiter (shared.sema waiter).up.2
      raised := shared.raised + 1 } := by
  have isOne := queue.up_sema isRaising
  have notNext := not_waits_of_plain plain
  have notRaising := not_raising_of_plain plain
  have notWaits : ¬ (locals thr).Waits := by
    rw [CondLocal.Waits, isRaising]
    simp
  have notQueueing : next.stage ≠ .queueing := by
    intro isQueueing
    rw [isQueueing] at plain
    exact plain
  rcases queue.pending _ _ _ isRaising with ⟨cnt, waits, ticket⟩
  have waiterNotQueueing : (locals waiter).stage ≠ .queueing := by
    grind [CondLocal.Waits]
  rcases queue with ⟨total, ordered, listed, mem, distinct, pending, settled, fresh, awake,
    asleep, queued⟩
  refine ⟨total, ordered, ?_, ?_, ?_, ?_, fun _ => cnt, ?_, ?_, ?_, ?_⟩ <;>
    grind [update_apply]
end QueueInvariant

/-- The threads between which a broadcast stands: those it has released, the one it has taken off
the list, and those on the list. -/
def CondStage.Matches (waiters : List Thread) : CondStage Thread → Prop
  | broadcasting broadcast | signalling (some broadcast) =>
    broadcast.queued = broadcast.released ++ waiters
  | raising waiter (some broadcast) =>
    broadcast.queued = broadcast.released ++ waiter :: waiters
  | _ => True

structure CondInvariant (locals : Thread → CondLocal Thread) (shared : CondShared Thread) :
    Prop where
  lock : LockInvariant (fun thread => (locals thread).lockPc) shared.lock
  owners : ∀ thread, (locals thread).stage.Exclusive → (locals thread).lockPc = .owner
  queue : QueueInvariant locals shared
  broadcasts : ∀ thread, (locals thread).stage.Matches shared.waiters

namespace CondInvariant

variable {locals : Thread → CondLocal Thread} {shared after : CondShared Thread} {thr : Thread}
  {next : CondLocal Thread}

section

omit [DecidableEq Thread]

lemma exclusive (inv : CondInvariant locals shared) {other : Thread}
  (exclusive : (locals thr).stage.Exclusive)
  (exclusiveOther : (locals other).stage.Exclusive) : other = thr := by
  refine inv.lock.alone other thr ?_ ?_
  · simp only [inv.owners other exclusiveOther]
    trivial
  simp only [inv.owners thr exclusive]
  trivial

lemma matches_of_not_exclusive (notExclusive : ¬ stage.Exclusive) (waiters : List Thread) :
  stage.Matches waiters := by
  cases stage <;> simp_all [CondStage.Exclusive, CondStage.Matches]

lemma nobody_raising (inv : CondInvariant locals shared)
  (isSignalling : (locals thr).stage = .signalling broadcast) (signaller waiter : Thread)
  (other : Option (Broadcast Thread)) : (locals signaller).stage ≠ .raising waiter other := by
  have alone := @inv.exclusive _ _ _ thr signaller
  grind [CondStage.Exclusive]

lemma raising_alone (inv : CondInvariant locals shared)
  (isRaising : (locals thr).stage = .raising waiter broadcast) (signaller other : Thread)
  (otherBroadcast : Option (Broadcast Thread))
  (isRaisingOther : (locals signaller).stage = .raising other otherBroadcast) :
  signaller = thr := by
  have alone := @inv.exclusive _ _ _ thr signaller
  grind [CondStage.Exclusive]

lemma ticket_lt_of_positive (inv : CondInvariant locals shared) (waits : (locals thr).Waits)
  (pos : (shared.sema thr).value ≠ 0) : shared.ticket thr < shared.raised := by
  by_contra later
  exact pos (inv.queue.asleep thr waits (not_lt.mp later)).1

end

section

variable (inv : CondInvariant locals shared) (moves : CondMove thr (locals thr) shared next after)

include inv moves

lemma lock_step :
  LockInvariant (fun other => (update locals thr next other).lockPc) after.lock := by
  have pcs : (fun other => (update locals thr next other).lockPc) =
      update (fun other => (locals other).lockPc) thr next.lockPc := by
    grind [update_apply]
  rw [pcs]
  cases moves with
  | lock turns moves => exact inv.lock.step moves
  | _ =>
    have same : update (fun other => (locals other).lockPc) thr
        (locals thr).lockPc = fun other => (locals other).lockPc := update_eq_self ..
    simp only [CondLocal.at, same]
    exact inv.lock

lemma owner_step (exclusive : next.stage.Exclusive) :
  next.lockPc = .owner := by
  have owners := inv.owners thr
  cases moves with
  | turn turns => cases turns <;> grind [CondStage.Exclusive, CondLocal.at]
  | _ => grind [CondStage.Exclusive, CondStage.turn, CondLocal.at]

lemma matches_step :
  next.stage.Matches after.waiters := by
  have broadcasts := inv.broadcasts thr
  cases moves with
  | turn turns =>
    cases turns with
    | @nobody broadcast => cases broadcast <;> grind [CondStage.Matches, CondLocal.at]
    | _ => grind [CondStage.Matches, CondLocal.at]
  | @pop broadcast => cases broadcast <;> grind [CondStage.Matches, CondLocal.at]
  | @raise broadcast => cases broadcast <;> grind [CondStage.Matches, CondLocal.at]
  | _ => grind [CondStage.Matches, CondStage.turn, CondLocal.at]

end

lemma waiters_step (moves : CondMove thr (locals thr) shared next after) :
  after.waiters = shared.waiters ∨ (locals thr).stage.Exclusive := by
  cases moves <;> grind [CondStage.Exclusive]

lemma queue_step (inv : CondInvariant locals shared)
  (moves : CondMove thr (locals thr) shared next after) :
  QueueInvariant (update locals thr next) after := by
  cases moves with
  | @lock pc lock turns moves =>
    have queue : QueueInvariant (update locals thr
        { lockPc := pc, stage := (locals thr).stage.turn pc }) shared := by
      refine inv.queue.relocated ?_ ?_ ?_ ?_ ?_ <;>
        grind [CondLocal.Waits, CondStage.turn]
    exact ⟨queue.total, queue.ordered, queue.listed, queue.member, queue.distinct, queue.pending,
      queue.settled, queue.fresh, queue.awake, queue.asleep, queue.queued⟩
  | turn turns => exact inv.queue.plain turns.plain.1 turns.plain.2
  | init isFree isOwner =>
    have plain : (locals thr).stage.Plain := by
      rw [isFree]
      trivial
    refine (inv.queue.sema_written plain (.init 0)).relocated ?_ ?_ ?_ ?_ ?_ <;>
      grind [CondLocal.Waits, CondLocal.at]
  | push isQueueing => exact inv.queue.pushed isQueueing rfl
  | block isSleeping notBlocked zero =>
    have same : (locals thr).at .sleeping = locals thr := by
      rw [← isSleeping]
      rfl
    rw [same, update_eq_self]
    exact inv.queue.blocked (Or.inr isSleeping) zero notBlocked
  | pass isSleeping notBlocked pos =>
    have waits : (locals thr).Waits := Or.inr isSleeping
    have earlier := inv.ticket_lt_of_positive waits pos
    refine QueueInvariant.sema_written ?_ ?_ _
    · refine inv.queue.relocated ?_ ?_ ?_ ?_ ?_ <;> grind [CondLocal.at]
    rw [update_self]
    trivial
  | pop isSignalling isCons =>
    refine inv.queue.popped isCons (inv.nobody_raising isSignalling) ?_ rfl
    grind [CondLocal.Waits]
  | @raise broadcast _ isRaising =>
    refine inv.queue.lifted isRaising (inv.raising_alone isRaising) ?_
    cases broadcast <;> trivial

lemma step (inv : CondInvariant locals shared)
  (moves : CondMove thr (locals thr) shared next after) :
  CondInvariant (update locals thr next) after := by
  have owners := inv.owners
  have owner := inv.owner_step moves
  refine ⟨inv.lock_step moves, by grind [update_apply], inv.queue_step moves, ?_⟩
  intro other
  by_cases same : other = thr
  · rw [same, update_self]
    exact inv.matches_step moves
  rw [update_of_ne same]
  rcases waiters_step moves with sameWaiters | exclusive
  · rw [sameWaiters]
    exact inv.broadcasts other
  refine matches_of_not_exclusive ?_ _
  intro exclusiveOther
  exact same (inv.exclusive exclusive exclusiveOther)

end CondInvariant

end Pintos
