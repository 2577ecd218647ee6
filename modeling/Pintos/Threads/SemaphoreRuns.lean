import Pintos.Library.Interleaving
import Pintos.Threads.Semaphore

/-!
# Threads at a semaphore

Any number of threads call `sema_down`, `sema_try_down` and `sema_up` on one
semaphore. A step is one section with interrupts off. A thread inside `sema_down`
is blocked while it is on the list; once `sema_up` has taken it off, it tests the
value again when it runs next, and any other thread may get there first. Two
counters record how many ups and how many downs have completed.

In every state the value is what the counters say, as an unsigned word, and no
wakeup is lost: while threads are blocked, the value is covered by threads that
have been woken and have not tested the value yet.
-/

namespace Pintos

inductive SemaPc
  | outside
  | inLoop
deriving DecidableEq

inductive SemaCall
  | down
  | tryDown
  | up
deriving DecidableEq

structure CountedSema (Thread : Type) where
  sema : Semaphore Thread
  ups : ℕ
  downs : ℕ
deriving DecidableEq

abbrev SemaSystem (Thread : Type) := Concurrent Thread SemaPc (CountedSema Thread)

section Steps

variable {Thread : Type} [DecidableEq Thread]

def CountedSema.downed (shared : CountedSema Thread) (passed : Bool) (sema : Semaphore Thread) :
    CountedSema Thread :=
  { shared with sema := sema, downs := if passed then shared.downs + 1 else shared.downs }

def semaAction : Action Thread SemaCall SemaPc (CountedSema Thread) :=
  fun thread call pc shared =>
    match call with
    | .down =>
      if pc = .inLoop ∧ thread ∈ shared.sema.waiters then none
      else
        let (passed, sema) := shared.sema.down thread
        some (if passed then .outside else .inLoop, shared.downed passed sema)
    | .tryDown =>
      if pc = .outside then
        let (success, sema) := shared.sema.tryDown
        some (.outside, shared.downed success sema)
      else none
    | .up =>
      if pc = .outside then
        some (.outside, { shared with sema := shared.sema.up.2, ups := shared.ups + 1 })
      else none

def SemaStarts (initial : Word) (state : SemaSystem Thread) : Prop :=
  (∀ thread, state.locals thread = .outside) ∧
    state.shared = { sema := .init initial, ups := 0, downs := 0 }

def SemaReached (initial : Word) : SemaSystem Thread → Prop :=
  Reachable (SemaStarts initial) (Concurrent.Step semaAction Concurrent.anyStep)

/-- The thread has been woken by `sema_up` and has not run since. -/
def Woken (state : SemaSystem Thread) (thread : Thread) : Prop :=
  state.locals thread = .inLoop ∧ thread ∉ state.shared.sema.waiters

/-- No more downs have passed than the value and the ups allow. -/
def AdmitsAtMost (initial : Word) (shared : CountedSema Thread) : Prop :=
  shared.downs ≤ initial.toNat + shared.ups

/-- While threads wait, the value is at most the number of woken ones. -/
def LosesNoWakeup (state : SemaSystem Thread) : Prop :=
  state.shared.sema.waiters ≠ [] → ∃ woken : Finset Thread,
    (∀ thread, thread ∈ woken ↔ Woken state thread) ∧ state.shared.sema.value.toNat ≤ woken.card

structure SemaInvariant (initial : Word) (state : SemaSystem Thread) : Prop where
  bounded : AdmitsAtMost initial state.shared
  counted : state.shared.sema.value.toNat =
    (initial.toNat + state.shared.ups - state.shared.downs) % 2 ^ 32
  nodup : state.shared.sema.waiters.Nodup
  inLoop : ∀ thread ∈ state.shared.sema.waiters, state.locals thread = .inLoop
  covered : ∃ woken : Finset Thread, (∀ thread, thread ∈ woken ↔ Woken state thread) ∧
    (state.shared.sema.waiters ≠ [] → state.shared.sema.value.toNat ≤ woken.card)

variable {thr : Thread} {call : SemaCall} {pc next : SemaPc} {shared after : CountedSema Thread}

lemma semaAction_cases (acted : semaAction thr call pc shared = some (next, after)) :
  ((pc = .inLoop → thr ∉ shared.sema.waiters) ∧
    ((shared.sema.value ≠ 0 ∧ next = .outside ∧ after =
        shared.downed true { shared.sema with value := shared.sema.value - 1 }) ∨
      (shared.sema.value = 0 ∧ next = .inLoop ∧ after =
        shared.downed false { shared.sema with waiters := shared.sema.waiters ++ [thr] }))) ∨
  (pc = .outside ∧ next = .outside ∧
    (after = shared ∨
      after = { shared with sema := shared.sema.up.2, ups := shared.ups + 1 })) := by
  cases call with
  | down =>
    simp only [semaAction] at acted
    split at acted
    · cases acted
    next free =>
      refine Or.inl ⟨fun isIn mem => free ⟨isIn, mem⟩, ?_⟩
      by_cases zero : shared.sema.value = 0
      · rw [Semaphore.down_of_zero zero] at acted
        cases acted
        exact Or.inr ⟨zero, rfl, rfl⟩
      rw [Semaphore.down_of_ne_zero zero] at acted
      cases acted
      exact Or.inl ⟨zero, rfl, rfl⟩
  | tryDown =>
    simp only [semaAction] at acted
    split at acted
    · next isOutside =>
        subst isOutside
        by_cases zero : shared.sema.value = 0
        · rw [Semaphore.tryDown_of_zero zero] at acted
          cases acted
          exact Or.inr ⟨rfl, rfl, Or.inl rfl⟩
        rw [Semaphore.tryDown_of_ne_zero zero] at acted
        cases acted
        exact Or.inl ⟨(by rintro ⟨⟩), Or.inl ⟨zero, rfl, rfl⟩⟩
    · cases acted
  | up =>
    simp only [semaAction] at acted
    split at acted
    · next isOutside =>
        cases acted
        exact Or.inr ⟨isOutside, rfl, Or.inr rfl⟩
    · cases acted

variable {initial : Word} {state : SemaSystem Thread}

lemma semaAction_counts (bounded : AdmitsAtMost initial shared)
  (counted : shared.sema.value.toNat = (initial.toNat + shared.ups - shared.downs) % 2 ^ 32)
  (acted : semaAction thr call pc shared = some (next, after)) : AdmitsAtMost initial after ∧
    after.sema.value.toNat = (initial.toNat + after.ups - after.downs) % 2 ^ 32 := by
  unfold AdmitsAtMost at *
  rcases semaAction_cases acted with
    ⟨_, ⟨pos, _, rfl⟩ | ⟨zero, _, rfl⟩⟩ | ⟨_, _, rfl | rfl⟩
  · have some := toNat_pos_of_ne_zero pos
    simp only [CountedSema.downed, if_true, toNat_sub_one pos]
    omega
  · exact ⟨bounded, counted⟩
  · exact ⟨bounded, counted⟩
  simp only [Semaphore.up, toNat_add_one]
  omega

lemma woken_tested {woken : Finset Thread} (isWoken : ∀ other, other ∈ woken ↔ Woken state other)
  (sameWaiters : ∀ other, other ≠ thr →
    (other ∈ after.sema.waiters ↔ other ∈ state.shared.sema.waiters))
  (tested : next = .inLoop → thr ∈ after.sema.waiters) (other : Thread) :
  other ∈ woken.erase thr ↔ Woken (state.put thr next after) other := by
  rw [Finset.mem_erase, isWoken]
  by_cases same : other = thr
  · subst same
    simp only [ne_eq, not_true_eq_false, false_and, false_iff]
    rintro ⟨isIn, notMem⟩
    rw [Concurrent.put_locals_self] at isIn
    exact notMem (tested isIn)
  unfold Woken
  rw [Concurrent.put_locals_of_ne _ _ same, Concurrent.put_shared, sameWaiters other same]
  exact and_iff_right same

lemma SemaInvariant.raised {raised : SemaSystem Thread} (inv : SemaInvariant initial state)
  (sameLocals : raised.locals = state.locals)
  (isRaised : raised.shared.sema = state.shared.sema.up.2)
  (bounded : AdmitsAtMost initial raised.shared) (counted : raised.shared.sema.value.toNat =
    (initial.toNat + raised.shared.ups - raised.shared.downs) % 2 ^ 32) :
  SemaInvariant initial raised := by
  rcases inv.covered with ⟨woken, isWoken, covered⟩
  have waiters_eq : raised.shared.sema.waiters = state.shared.sema.waiters.tail := by
    rw [isRaised]
    rfl
  cases isList : state.shared.sema.waiters with
  | nil =>
    rw [isList, List.tail_nil] at waiters_eq
    refine ⟨bounded, counted, ?_, ?_, woken, ?_, fun someWait => absurd waiters_eq someWait⟩
    · rw [waiters_eq]
      exact List.nodup_nil
    · rw [waiters_eq]
      exact fun _ mem => absurd mem List.not_mem_nil
    intro other
    rw [isWoken, Woken, Woken, sameLocals, waiters_eq, isList]
  | cons waiter rest =>
    rw [isList] at waiters_eq
    have nodup := inv.nodup
    rw [isList] at nodup
    rcases List.nodup_cons.mp nodup with ⟨notLater, restNodup⟩
    have waiting := isList ▸ List.mem_cons_self
    have notWoken : waiter ∉ woken := by
      rw [isWoken]
      exact fun isWoken => isWoken.2 waiting
    refine ⟨bounded, counted, ?_, ?_, insert waiter woken, ?_, ?_⟩
    · rw [waiters_eq]
      exact restNodup
    · intro other mem
      rw [waiters_eq] at mem
      rw [sameLocals]
      exact inv.inLoop other (isList ▸ List.mem_cons_of_mem _ mem)
    · intro other
      rw [Finset.mem_insert, isWoken, Woken, Woken, sameLocals, waiters_eq, isList]
      by_cases same : other = waiter
      · subst same
        have isIn := inv.inLoop other waiting
        simp [isIn, notLater]
      · simp [same]
    intro _
    have pre := covered (isList ▸ List.cons_ne_nil _ _)
    rw [Finset.card_insert_of_notMem notWoken, isRaised]
    simp only [Semaphore.up, toNat_add_one]
    omega

lemma SemaInvariant.step (inv : SemaInvariant initial state)
  (acted : semaAction thr call (state.locals thr) state.shared = some (next, after)) :
  SemaInvariant initial (state.put thr next after) := by
  rcases semaAction_counts inv.bounded inv.counted acted with ⟨bounded, counted⟩
  rcases inv.covered with ⟨woken, isWoken, covered⟩
  have others : ∀ other, other ≠ thr →
      (state.put thr next after).locals other = state.locals other :=
    fun other ne => Concurrent.put_locals_of_ne next after ne
  rcases semaAction_cases acted with
    ⟨free, tests⟩ | ⟨isOutside, rfl, leaves⟩
  · have notWaiting : thr ∉ state.shared.sema.waiters := by
      intro mem
      exact free (inv.inLoop thr mem) mem
    rcases tests with ⟨pos, rfl, rfl⟩ | ⟨zero, rfl, rfl⟩
    · refine ⟨bounded, counted, inv.nodup, ?_, woken.erase thr, ?_, ?_⟩
      · intro other mem
        rw [others other (ne_of_mem_of_not_mem mem notWaiting)]
        exact inv.inLoop other mem
      · exact woken_tested isWoken (fun _ _ => Iff.rfl) (by rintro ⟨⟩)
      intro someWait
      have pre := covered someWait
      have fewer := woken.pred_card_le_card_erase (a := thr)
      simp only [Concurrent.put_shared, CountedSema.downed, toNat_sub_one pos]
      omega
    refine ⟨bounded, counted, ?_, ?_, woken.erase thr, ?_, ?_⟩
    · refine inv.nodup.append (List.nodup_singleton _) ?_
      rw [List.disjoint_singleton]
      exact notWaiting
    · intro other mem
      rcases List.mem_append.mp mem with prior | isThr
      · rw [others other (ne_of_mem_of_not_mem prior notWaiting)]
        exact inv.inLoop other prior
      · rw [List.mem_singleton.mp isThr, Concurrent.put_locals_self]
    · refine woken_tested isWoken ?_ fun _ => List.mem_append_right _ List.mem_cons_self
      intro other ne
      simp [CountedSema.downed, ne]
    intro _
    simp only [CountedSema.downed, zero]
    exact Nat.zero_le _
  have sameLocals : (state.put thr .outside after).locals = state.locals := by
    funext other
    by_cases same : other = thr
    · rw [same, Concurrent.put_locals_self, isOutside]
    · exact others other same
  rcases leaves with rfl | rfl
  · refine ⟨bounded, counted, inv.nodup, ?_, woken, ?_, covered⟩
    · rw [sameLocals]
      exact inv.inLoop
    unfold Woken
    rw [sameLocals]
    exact isWoken
  · exact inv.raised sameLocals rfl bounded counted

omit [DecidableEq Thread] in
lemma SemaStarts.invariant (starts : SemaStarts initial state) : SemaInvariant initial state := by
  rcases starts with ⟨outside, isShared⟩
  have noWaiters : state.shared.sema.waiters = [] := by
    rw [isShared]
    rfl
  refine ⟨?_, ?_, ?_, ?_, ∅, ?_, fun someWait => absurd noWaiters someWait⟩
  · rw [isShared]
    exact Nat.zero_le _
  · rw [isShared]
    exact (Nat.mod_eq_of_lt initial.isLt).symm
  · rw [noWaiters]
    exact List.nodup_nil
  · rw [noWaiters]
    exact fun _ mem => absurd mem List.not_mem_nil
  intro thr
  simp [Woken, outside]

lemma SemaReached.invariant (reached : SemaReached initial state) : SemaInvariant initial state :=
  Concurrent.invariant (fun _ starts => starts.invariant)
    (fun _ _ _ _ _ inv _ acted => inv.step acted) reached

/-- The value is what the ups and downs leave of the initial one. -/
def CountsExactly (initial : Word) (shared : CountedSema Thread) : Prop :=
  shared.sema.value.toNat + shared.downs = initial.toNat + shared.ups

/-- The same in 32-bit arithmetic. -/
def CountsModulo (initial : Word) (shared : CountedSema Thread) : Prop :=
  shared.sema.value = initial + BitVec.ofNat 32 shared.ups - BitVec.ofNat 32 shared.downs

/-- In every state that is reached, no more downs have completed than the value allows, the value
is what the counters say as an unsigned word, exactly so unless it has become too large, and no
wakeup has been lost. -/
theorem admits_of_reached (reached : SemaReached initial state) :
    AdmitsAtMost initial state.shared ∧ CountsModulo initial state.shared ∧
      (initial.toNat + state.shared.ups - state.shared.downs < 2 ^ 32 →
        CountsExactly initial state.shared) ∧
      LosesNoWakeup state := by
  have invariant := reached.invariant
  have bounded := invariant.bounded
  have counted := invariant.counted
  refine ⟨bounded, ?_, ?_, ?_⟩
  · apply BitVec.eq_of_toNat_eq
    unfold AdmitsAtMost at bounded
    rw [BitVec.toNat_sub, BitVec.toNat_add, BitVec.toNat_ofNat, BitVec.toNat_ofNat]
    omega
  · intro small
    unfold AdmitsAtMost at bounded
    unfold CountsExactly
    omega
  intro someWait
  rcases invariant.covered with ⟨woken, isWoken, covered⟩
  exact ⟨woken, isWoken, covered someWait⟩

end Steps

section Sample

def initialized (Thread : Type) (value : Word) : SemaSystem Thread where
  locals _ := .outside
  shared := { sema := .init value, ups := 0, downs := 0 }

lemma initialized_starts (Thread : Type) (val : Word) : SemaStarts val (initialized Thread val) :=
  ⟨fun _ => rfl, rfl⟩

/-- An up at the largest value makes it 0. -/
theorem not_countsExactly_wrapped :
    ∃ state : SemaSystem Bool, SemaReached 4294967295 state ∧
      ¬ CountsExactly 4294967295 state.shared := by
  have ran : ((initialized Bool 4294967295).run semaAction Concurrent.anyStep
      [(false, .up)]).any (fun state =>
        decide (state.shared = { sema := { value := 0, waiters := [] }, ups := 1, downs := 0 })) =
      true := by
    decide +kernel
  rcases Concurrent.reaches_of_run _ (initialized_starts _ _) ran with ⟨state, reached, checks⟩
  have isShared := of_decide_eq_true checks
  refine ⟨state, reached, ?_⟩
  rw [isShared, CountsExactly]
  decide

/-- Two threads block, and a third one wakes the first of them. -/
theorem admits_woken : ∃ state : SemaSystem (Fin 3),
    state.shared.sema = { value := 1, waiters := [1] } ∧
      AdmitsAtMost 0 state.shared ∧ CountsModulo 0 state.shared ∧
      ((0 : Word).toNat + state.shared.ups - state.shared.downs < 2 ^ 32 →
        CountsExactly 0 state.shared) ∧ LosesNoWakeup state := by
  have ran : ((initialized (Fin 3) 0).run semaAction Concurrent.anyStep
      [(0, .down), (1, .down), (2, .up)]).any (fun state =>
        decide (state.shared.sema = { value := 1, waiters := [1] })) = true := by
    decide +kernel
  rcases Concurrent.reaches_of_run _ (initialized_starts _ _) ran with ⟨state, reached, checks⟩
  exact ⟨state, of_decide_eq_true checks, admits_of_reached reached⟩

end Sample

end Pintos
