import Pintos.Threads.ConditionRuns

/-!
# What a step of a condition function may do

From the invariant of the runs follows what each single step does to the set of
the threads that can pass their `sema_down`. A thread can pass exactly if its
number is below the number of raises.
-/

namespace Pintos

variable {Thread : Type} [DecidableEq Thread] {broadcast : Option (Broadcast Thread)}
  {waiter other : Thread} {rest : List Thread}

section Moves

variable {thread : Thread} {place next : CondLocal Thread} {shared after : CondShared Thread}

section

variable (moves : CondMove thread place shared next after)

include moves

lemma CondMove.raised_eq
  (notRaising : ∀ waiter broadcast, place.stage ≠ .raising waiter broadcast) :
  after.raised = shared.raised := by
  cases moves <;> grind

lemma CondMove.ticket_eq (notQueued : other = thread → place.stage ≠ .queueing) :
  after.ticket other = shared.ticket other := by
  cases moves <;> grind [Function.update_apply]

lemma CondMove.waits_before (waits : next.Waits) :
  place.Waits ∨ place.stage = .queueing ∧ after.ticket thread = shared.tickets := by
  cases moves with
  | turn turns => exact absurd waits (QueueInvariant.not_waits_of_plain turns.plain.2)
  | @raise broadcast waiter isRaising =>
    cases broadcast <;> grind [CondLocal.Waits, CondLocal.at]
  | _ => grind [CondLocal.Waits, CondLocal.at, CondStage.turn]

lemma CondMove.waits_behind (waits : place.Waits) : next.Waits ∨ next.stage = .returning := by
  cases moves with
  | turn turns => exact absurd waits (QueueInvariant.not_waits_of_plain turns.plain.1)
  | _ => grind [CondLocal.Waits, CondLocal.at, CondStage.turn]

lemma CondMove.positive_of_passes (isSleeping : place.stage = .sleeping)
  (isReturning : next.stage = .returning) :
  (shared.sema thread).value ≠ 0 := by
  cases moves with
  | turn turns => grind [turns.plain.1, CondStage.Plain]
  | _ => grind [CondLocal.at]

lemma CondMove.pops (isStage : place.stage = .signalling broadcast)
  (isList : shared.waiters = waiter :: rest) :
  next.stage = .raising waiter broadcast := by
  cases moves with
  | turn turns => cases turns <;> grind [CondLocal.at]
  | _ => grind [CondLocal.at]

lemma CondMove.finishes {broadcast : Broadcast Thread}
  (isStage : place.stage = .broadcasting broadcast) (isFree : next.stage = .free) :
  shared.waiters = [] := by
  cases moves with
  | turn turns => cases turns <;> grind [CondLocal.at]
  | _ => grind [CondLocal.at]

lemma CondMove.regains (isStage : place.stage = .returning) (isFree : next.stage = .free) :
  next.lockPc = .owner := by
  cases moves with
  | turn turns => cases turns <;> grind [CondLocal.at]
  | _ => grind [CondLocal.at, CondStage.turn]

lemma CondMove.raises (isStage : place.stage = .raising waiter broadcast) :
  next.stage.Plain ∧ after.raised = shared.raised + 1 := by
  cases moves with
  | turn turns => grind [turns.plain.1, CondStage.Plain]
  | @raise broadcast waiter isRaising =>
    cases broadcast <;> exact ⟨trivial, rfl⟩
  | _ => grind

end

end Moves

section Runs

variable {state after : CondSystem Thread} {thread : Thread} {next : CondLocal Thread}
  {shared : CondShared Thread}

lemma CondReached.invariant (reached : CondReached state) :
  CondInvariant state.locals state.shared := by
  have atStart : ∀ state : CondSystem Thread, CondStarts state →
      CondInvariant state.locals state.shared := by
    rintro state ⟨places, isInit, isNil, noTickets, noSignals, noRaise⟩
    have isFree : ∀ thread, (state.locals thread).stage = .free := by
      intro thread
      rw [places thread]
    have notWaits : ∀ thread, ¬ (state.locals thread).Waits := by
      intro thread
      simp [CondLocal.Waits, isFree thread]
    refine ⟨LockInvariant.of_init ?_ isInit, ?_, ?_, ?_⟩
    · intro thread
      rw [places thread]
      exact id
    · intro thread exclusive
      rw [isFree thread] at exclusive
      exact exclusive.elim
    · exact
        { total := by simp [isNil, noTickets, noSignals]
          ordered := by simp [isNil]
          listed := by simp [isNil]
          member := fun thread waits => absurd waits (notWaits thread)
          distinct := fun one _ waits => absurd waits (notWaits one)
          pending := by simp [isFree]
          settled := fun _ => noRaise.trans noSignals.symm
          fresh := by simp [isFree]
          awake := fun thread waits => absurd waits (notWaits thread)
          asleep := fun thread waits => absurd waits (notWaits thread)
          queued := fun thread waits => absurd waits (notWaits thread) }
    intro thread
    rw [isFree thread]
    trivial
  refine Concurrent.invariant atStart ?_ reached
  intro state thread call next shared inv _ acted
  exact inv.step (condAction_moves acted)

omit [DecidableEq Thread] in
lemma CondInvariant.able_iff (inv : CondInvariant state.locals state.shared) :
  Able state thread ↔
    (state.locals thread).Waits ∧ state.shared.ticket thread < state.shared.raised := by
  constructor
  · rintro ⟨waits, pos, _⟩
    exact ⟨waits, inv.ticket_lt_of_positive waits pos⟩
  rintro ⟨waits, prior⟩
  refine ⟨waits, ?_⟩
  rw [inv.queue.awake thread waits prior]
  simp

omit [DecidableEq Thread] in
lemma CondInvariant.picks (inv : CondInvariant state.locals state.shared)
  (isSignalling : (state.locals thread).stage = .signalling broadcast)
  (isCons : state.shared.waiters = waiter :: rest) :
  (state.locals waiter).Waits ∧ ¬ Able state waiter ∧
    ∀ other, (state.locals other).Waits → ¬ Able state other → other ≠ waiter →
      state.shared.ticket waiter < state.shared.ticket other := by
  have settled := inv.queue.settled (inv.nobody_raising isSignalling)
  have listed : waiter ∈ state.shared.waiters := by simp [isCons]
  have waits := inv.queue.listed waiter listed
  have isFirst : state.shared.ticket waiter = state.shared.signals := by
    have ordered := inv.queue.ordered
    rw [isCons, List.map_cons, List.length_cons, List.range'_succ, List.cons.injEq] at ordered
    exact ordered.1
  refine ⟨waits, ?_, ?_⟩
  · rw [inv.able_iff]
    rintro ⟨_, prior⟩
    omega
  intro other waitsOther notAble ne
  rw [inv.able_iff] at notAble
  have later : ¬ state.shared.ticket other < state.shared.raised := fun prior =>
    notAble ⟨waitsOther, prior⟩
  have notSame : state.shared.ticket other ≠ state.shared.ticket waiter := fun sameTicket =>
    ne (inv.queue.distinct other waiter waitsOther waits sameTicket)
  omega

section

variable (inv : CondInvariant state.locals state.shared)
  (moves : CondMove thread (state.locals thread) state.shared next shared)

include inv moves

lemma CondInvariant.wakes (isRaising : (state.locals thread).stage = .raising waiter broadcast) :
  (state.locals waiter).Waits ∧ ¬ Able state waiter ∧
    ∀ other, Able (state.put thread next shared) other ↔ Able state other ∨ other = waiter := by
  have kept := inv.step moves
  rcases inv.queue.pending _ _ _ isRaising with ⟨_, waits, ticket⟩
  refine ⟨waits, ?_, ?_⟩
  · rw [inv.able_iff]
    rintro ⟨_, prior⟩
    omega
  intro other
  rcases moves.raises isRaising with ⟨plain, raises⟩
  have sameWaits : ((state.put thread next shared).locals other).Waits ↔
      (state.locals other).Waits := by
    by_cases same : other = thread
    · rw [same, Concurrent.put_locals_self]
      refine iff_of_false (QueueInvariant.not_waits_of_plain plain) ?_
      simp [CondLocal.Waits, isRaising]
    · rw [Concurrent.put_locals_of_ne _ _ same]
  have sameTicket : shared.ticket other = state.shared.ticket other := by
    refine moves.ticket_eq ?_
    intro _ isQueueing
    cases isRaising.symm.trans isQueueing
  rw [kept.able_iff, inv.able_iff, sameWaits, Concurrent.put_shared, raises]
  constructor
  · rintro ⟨waitsOther, prior⟩
    by_cases pre : state.shared.ticket other < state.shared.raised
    · exact Or.inl ⟨waitsOther, pre⟩
    · exact Or.inr (inv.queue.distinct other waiter waitsOther waits (by omega))
  rintro (⟨waitsOther, prior⟩ | rfl)
  · exact ⟨waitsOther, by omega⟩
  · exact ⟨waits, by omega⟩

lemma CondInvariant.strangers
  (notRaising : ∀ waiter broadcast, (state.locals thread).stage ≠ .raising waiter broadcast)
  (able : Able (state.put thread next shared) other) : Able state other := by
  have kept := inv.step moves
  rw [kept.able_iff, Concurrent.put_shared, moves.raised_eq notRaising] at able
  rw [inv.able_iff]
  rcases able with ⟨waits, prior⟩
  by_cases same : other = thread
  · subst same
    rw [Concurrent.put_locals_self] at waits
    rcases moves.waits_before waits with waitsBefore | ⟨isQueueing, isTicket⟩
    · refine ⟨waitsBefore, ?_⟩
      rwa [moves.ticket_eq] at prior
      rintro _ isQueueing
      simp [CondLocal.Waits, isQueueing] at waitsBefore
    have raised_le := inv.queue.raised_le
    have total := inv.queue.total
    omega
  rw [Concurrent.put_locals_of_ne _ _ same] at waits
  rw [moves.ticket_eq fun isThr => absurd isThr same] at prior
  exact ⟨waits, prior⟩

lemma CondInvariant.keeps (able : Able state other) :
  Able (state.put thread next shared) other ∨ other = thread ∧ next.stage = .returning := by
  have kept := inv.step moves
  rw [kept.able_iff, Concurrent.put_shared]
  rw [inv.able_iff] at able
  rcases able with ⟨waits, prior⟩
  have raised_le : state.shared.raised ≤ shared.raised := by
    by_cases raising : ∃ waiter broadcast,
        (state.locals thread).stage = .raising waiter broadcast
    · rcases raising with ⟨waiter, broadcast, isRaising⟩
      have := (moves.raises isRaising).2
      omega
    refine (moves.raised_eq ?_).ge
    intro waiter broadcast isRaising
    exact raising ⟨waiter, broadcast, isRaising⟩
  by_cases same : other = thread
  · subst same
    have sameTicket : shared.ticket other = state.shared.ticket other := by
      refine moves.ticket_eq ?_
      intro _ isQueueing
      simp [CondLocal.Waits, isQueueing] at waits
    rw [Concurrent.put_locals_self]
    rcases moves.waits_behind waits with waitsBehind | isReturning
    · exact Or.inl ⟨waitsBehind, by omega⟩
    · exact Or.inr ⟨rfl, isReturning⟩
  rw [Concurrent.put_locals_of_ne _ _ same, moves.ticket_eq fun isThr => absurd isThr same]
  exact Or.inl ⟨waits, by omega⟩

end

lemma CondInvariant.stepsRight {call : CondCall}
  (inv : CondInvariant state.locals state.shared)
  (moved : state.move condAction thread call = some after) : StepsRight state after thread := by
  rcases Concurrent.move_eq_some moved with ⟨next, shared, acted, rfl⟩
  have moves := condAction_moves acted
  have kept : CondInvariant (state.put thread next shared).locals
      (state.put thread next shared).shared := inv.step moves
  refine ⟨?_, ?_, ?_, ?_, ?_, ?_, ?_⟩
  · intro broadcast isSignalling notNil
    rcases List.exists_cons_of_ne_nil notNil with ⟨waiter, rest, isCons⟩
    refine ⟨waiter, ?_, inv.picks isSignalling isCons⟩
    rw [Concurrent.put_locals_self]
    exact moves.pops isSignalling isCons
  · intro waiter broadcast isRaising
    exact inv.wakes moves isRaising
  · intro notRaising other able
    exact inv.strangers moves notRaising able
  · intro other able
    rw [Concurrent.put_locals_self]
    exact inv.keeps moves able
  · intro isSleeping isReturning
    rw [Concurrent.put_locals_self] at isReturning
    have waits : (state.locals thread).Waits := Or.inr isSleeping
    have prior := inv.ticket_lt_of_positive waits
      (moves.positive_of_passes isSleeping isReturning)
    exact ⟨inv.able_iff.mpr ⟨waits, prior⟩, inv.queue.queued thread waits, prior⟩
  · intro broadcast isBroadcasting isFree
    rw [Concurrent.put_locals_self] at isFree
    have broadcasts := inv.broadcasts thread
    rw [isBroadcasting, moves.finishes isBroadcasting isFree] at broadcasts
    simpa [CondStage.Matches] using broadcasts.symm
  intro isReturning isFree
  rw [Concurrent.put_locals_self] at isFree
  rw [Lock.heldByCurrentThread, decide_eq_true_eq, kept.lock.holder_iff thread]
  refine Or.inl ?_
  rw [Concurrent.put_locals_self]
  exact moves.regains isReturning isFree

lemma CondInvariant.owns (inv : CondInvariant state.locals state.shared)
  (exclusive : (state.locals thread).stage.Exclusive) :
  Owns thread (state.locals thread) state.shared := by
  have isOwner := inv.owners thread exclusive
  refine ⟨isOwner, ?_⟩
  rw [Lock.heldByCurrentThread, decide_eq_true_eq, inv.lock.holder_iff thread]
  exact Or.inl isOwner

lemma move_proceed (notFree : (state.locals thread).stage ≠ .free) :
  state.move condAction thread .proceed =
    (condProceed thread (state.locals thread) state.shared).map fun next =>
      state.put thread next.1 next.2 := by
  rw [Concurrent.move, condAction, if_neg notFree, if_pos rfl]

lemma CondInvariant.goesOn (inv : CondInvariant state.locals state.shared) :
  GoesOn state := by
  refine ⟨?_, ?_, ?_, ?_⟩
  · intro thread broadcast isSignalling
    rw [move_proceed (by simp [isSignalling]), Option.isSome_map, condProceed, isSignalling]
    cases isList : state.shared.waiters with
    | nil => simp
    | cons waiter rest => simp
  · intro thread waiter broadcast isRaising
    rw [move_proceed (by simp [isRaising]), Option.isSome_map, condProceed, isRaising]
    rfl
  · intro thread broadcast isBroadcasting
    have owns : Owns thread (state.locals thread) state.shared := by
      refine inv.owns ?_
      rw [isBroadcasting]
      trivial
    rw [move_proceed (by simp [isBroadcasting]), Option.isSome_map, condProceed, isBroadcasting]
    cases isList : state.shared.waiters with
    | nil => simp
    | cons waiter rest => simp [owns]
  rintro thread ⟨_, pos, notBlocked⟩ isSleeping
  rw [move_proceed (by simp [isSleeping]), condProceed, isSleeping]
  simp only [if_neg notBlocked, Semaphore.down_of_ne_zero pos]
  refine ⟨_, rfl, ?_⟩
  rw [Concurrent.put_locals_self]
  rfl

/-- In every run, signals and waits match: every step of every thread does what it may, and no
thread is stuck that has something to do. -/
theorem condSound_of_reached (reached : CondReached state) :
    GoesOn state ∧ ∀ thread call after, state.move condAction thread call = some after →
      StepsRight state after thread :=
  ⟨reached.invariant.goesOn, fun _ _ _ moved => reached.invariant.stepsRight moved⟩

/-- A thread has been queued and released the lock; before it blocks, another one signals. -/
theorem condSound_early : ∃ state : CondSystem Bool,
    (state.locals false).stage = .sleeping ∧ Able state false ∧ (state.locals true).stage = .free ∧
      (GoesOn state ∧ ∀ thread call after, state.move condAction thread call = some after →
        StepsRight state after thread) := by
  let start : CondSystem Bool :=
    { locals := fun _ => { lockPc := .outside, stage := .free }
      shared :=
        { lock := .init, waiters := [], sema := fun _ => .init 0, tickets := 0,
          ticket := fun _ => 0, queuedAt := fun _ => 0, signals := 0, raised := 0 } }
  have starts : CondStarts start := ⟨fun _ => rfl, rfl, rfl, rfl, rfl, rfl⟩
  have ran : (start.run condAction Concurrent.anyStep
      [(false, .lock .acquire), (false, .lock .proceed), (false, .lock .proceed), (false, .wait),
        (false, .proceed), (false, .proceed), (false, .proceed), (false, .proceed),
        (true, .lock .acquire), (true, .lock .proceed), (true, .lock .proceed), (true, .signal),
        (true, .proceed), (true, .proceed)]).any (fun state => decide
          ((state.locals false).stage = .sleeping ∧ (state.shared.sema false).value ≠ 0 ∧
            false ∉ (state.shared.sema false).waiters ∧ (state.locals true).stage = .free)) =
      true := by
    decide +kernel
  rcases Concurrent.reaches_of_run _ starts ran with ⟨state, reached, checks⟩
  rcases of_decide_eq_true checks with ⟨isSleeping, positive, notBlocked, isFree⟩
  exact ⟨state, isSleeping, ⟨Or.inr isSleeping, positive, notBlocked⟩, isFree,
    condSound_of_reached reached⟩

end Runs

end Pintos
