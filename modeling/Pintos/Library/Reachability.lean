import Mathlib.Tactic.Common

/-!
# Reachable states

The states a transition system reaches from its initial states, and the rule
that an invariant holds in all of them. A system whose steps are restricted
reaches fewer states.
-/

namespace Pintos

universe u

variable {State : Type u}

inductive Reachable (initial : State → Prop) (step : State → State → Prop) : State → Prop
  | start {state : State} (isInitial : initial state) : Reachable initial step state
  | next {state after : State} (before : Reachable initial step state)
      (taken : step state after) : Reachable initial step after

namespace Reachable

variable {init : State → Prop} {step : State → State → Prop} {st : State}

lemma invariant {holds : State → Prop} (atStart : ∀ st, init st → holds st)
  (kept : ∀ st after, holds st → step st after → holds after)
  (reachable : Reachable init step st) : holds st := by
  induction reachable with
  | start isInitial => exact atStart _ isInitial
  | next _ taken ih => exact kept _ _ ih taken

lemma mono {wider : State → State → Prop} (within : ∀ st after, step st after → wider st after)
  (reachable : Reachable init step st) : Reachable init wider st := by
  induction reachable with
  | start isInitial => exact start isInitial
  | next _ taken ih => exact next ih (within _ _ taken)

end Reachable

end Pintos
