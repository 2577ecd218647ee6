import Pintos.Library.Reachability

/-!
# Interleaved threads

Threads with a local state each take atomic actions on a shared state, one
thread at a time and in any order. A thread may have a choice between several
actions. A schedule names the thread and the choice of every step, so that a run
can be computed, and a guard restricts the steps a run may take.
-/

namespace Pintos

variable {Thread Choice Local Shared : Type}

structure Concurrent (Thread Local Shared : Type) where
  locals : Thread → Local
  shared : Shared

abbrev Action (Thread Choice Local Shared : Type) :=
  Thread → Choice → Local → Shared → Option (Local × Shared)

namespace Concurrent

variable [DecidableEq Thread] {action : Action Thread Choice Local Shared}
  {state after : Concurrent Thread Local Shared} {thread other : Thread} {choice : Choice}
  {init : Concurrent Thread Local Shared → Prop}
  {allowed : Concurrent Thread Local Shared → Thread → Choice → Prop}

def put (state : Concurrent Thread Local Shared) (thread : Thread) (moved : Local)
    (shared : Shared) : Concurrent Thread Local Shared :=
  { locals := Function.update state.locals thread moved, shared := shared }

@[simp]
lemma put_locals_self (moved : Local) (shared : Shared) :
  (state.put thread moved shared).locals thread = moved :=
  Function.update_self ..

lemma put_locals_of_ne (moved : Local) (shared : Shared) (ne : other ≠ thread) :
  (state.put thread moved shared).locals other = state.locals other :=
  Function.update_of_ne ne ..

@[simp]
lemma put_shared (moved : Local) (shared : Shared) :
  (state.put thread moved shared).shared = shared := rfl

def move (action : Action Thread Choice Local Shared) (state : Concurrent Thread Local Shared)
    (thread : Thread) (choice : Choice) : Option (Concurrent Thread Local Shared) :=
  (action thread choice (state.locals thread) state.shared).map fun next =>
    state.put thread next.1 next.2

lemma move_eq_some (moved : state.move action thread choice = some after) :
  ∃ next shared, action thread choice (state.locals thread) state.shared = some (next, shared) ∧
    after = state.put thread next shared := by
  rcases Option.map_eq_some_iff.mp moved with ⟨⟨next, shared⟩, acted, rfl⟩
  exact ⟨next, shared, acted, rfl⟩

def Step (action : Action Thread Choice Local Shared)
    (allowed : Concurrent Thread Local Shared → Thread → Choice → Prop)
    (state after : Concurrent Thread Local Shared) : Prop :=
  ∃ thread choice, allowed state thread choice ∧ state.move action thread choice = some after

def anyStep (_state : Concurrent Thread Local Shared) (_thread : Thread) (_choice : Choice) :
    Prop := True

instance (state : Concurrent Thread Local Shared) (thread : Thread) (choice : Choice) :
    Decidable (anyStep state thread choice) := inferInstanceAs (Decidable True)

lemma invariant {holds : Concurrent Thread Local Shared → Prop}
  (atStart : ∀ state, init state → holds state)
  (kept : ∀ state thread choice next shared, holds state → allowed state thread choice →
    action thread choice (state.locals thread) state.shared = some (next, shared) →
    holds (state.put thread next shared))
  (reachable : Reachable init (Step action allowed) state) : holds state := by
  refine Reachable.invariant atStart ?_ reachable
  rintro pre after held ⟨thread, choice, permitted, moved⟩
  rcases move_eq_some moved with ⟨next, shared, acted, rfl⟩
  exact kept pre thread choice next shared held permitted acted

def run (action : Action Thread Choice Local Shared)
    (allowed : Concurrent Thread Local Shared → Thread → Choice → Prop)
    [∀ state thread choice, Decidable (allowed state thread choice)] :
    List (Thread × Choice) → Concurrent Thread Local Shared →
      Option (Concurrent Thread Local Shared)
  | [], state => some state
  | (thread, choice) :: rest, state =>
    if allowed state thread choice then
      (state.move action thread choice).bind (run action allowed rest)
    else none

lemma reachable_of_run [∀ state thread choice, Decidable (allowed state thread choice)]
  (schedule : List (Thread × Choice)) (reachable : Reachable init (Step action allowed) state)
  (ran : state.run action allowed schedule = some after) :
  Reachable init (Step action allowed) after := by
  induction schedule generalizing state with
  | nil =>
    cases ran
    exact reachable
  | cons step rest ih =>
    rcases step with ⟨thread, choice⟩
    rw [run] at ran
    split at ran
    · next permitted =>
        rcases Option.bind_eq_some_iff.mp ran with ⟨mid, moved, ran⟩
        exact ih (.next reachable ⟨thread, choice, permitted, moved⟩) ran
    · cases ran

lemma reaches_of_run [∀ state thread choice, Decidable (allowed state thread choice)]
  (schedule : List (Thread × Choice)) {check : Concurrent Thread Local Shared → Bool}
  (starts : init state) (ran : (state.run action allowed schedule).any check = true) :
  ∃ after, Reachable init (Step action allowed) after ∧ check after = true := by
  cases res : state.run action allowed schedule with
  | none =>
    rw [res] at ran
    cases ran
  | some after =>
    rw [res] at ran
    exact ⟨after, reachable_of_run schedule (.start starts) res, ran⟩

end Concurrent

end Pintos
