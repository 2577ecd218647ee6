import Pintos.Library.Reachability

/-!
# Sequences of calls

A component is called again and again. A call that is permitted either returns,
and leaves a new state, or stops for a reason. What every returning call keeps
holds in every state that is reached, and a list of calls that is carried out
leads to a state that is reached.
-/

namespace Pintos

universe u

variable {State Call Reason : Type u}

namespace Calls

def Step (perform : State → Call → Except Reason State) (permits : State → Call → Prop)
    (state after : State) : Prop :=
  ∃ call, permits state call ∧ perform state call = .ok after

variable {init : State → Prop} {perform : State → Call → Except Reason State}
  {permits : State → Call → Prop} {state : State}

lemma invariant {holds : State → Prop} (atStart : ∀ state, init state → holds state)
  (kept : ∀ state call after, holds state → permits state call →
    perform state call = .ok after → holds after)
  (reachable : Reachable init (Step perform permits) state) : holds state := by
  refine Reachable.invariant atStart ?_ reachable
  rintro pre after held ⟨call, permitted, returned⟩
  exact kept pre call after held permitted returned

def run (perform : State → Call → Except Reason State) (permits : State → Call → Prop)
    [∀ state call, Decidable (permits state call)] : List Call → State → Option State
  | [], state => some state
  | call :: rest, state =>
    if permits state call then (perform state call).toOption.bind (run perform permits rest)
    else none

variable [∀ state call, Decidable (permits state call)] {after : State}

lemma reachable_of_run (calls : List Call)
  (reachable : Reachable init (Step perform permits) state)
  (ran : run perform permits calls state = some after) :
  Reachable init (Step perform permits) after := by
  induction calls generalizing state with
  | nil =>
    cases ran
    exact reachable
  | cons call rest ih =>
    rw [run] at ran
    split at ran
    · next permitted =>
        rcases Option.bind_eq_some_iff.mp ran with ⟨mid, done, ran⟩
        cases out : perform state call with
        | error reason =>
          rw [out] at done
          cases done
        | ok res =>
          rw [out] at done
          cases done
          exact ih (.next reachable ⟨call, permitted, out⟩) ran
    · cases ran

lemma reaches_of_run (calls : List Call) {check : State → Bool} (starts : init state)
  (ran : (run perform permits calls state).any check = true) :
  ∃ after, Reachable init (Step perform permits) after ∧ check after = true := by
  cases res : run perform permits calls state with
  | none =>
    rw [res] at ran
    cases ran
  | some after =>
    rw [res] at ran
    exact ⟨after, reachable_of_run calls (.start starts) res, ran⟩

end Calls

end Pintos
