import Mathlib.Tactic.Common

/-!
# Computations that leave a trace

A traced computation emits events and ends with a value or with a reason for
stopping early. The events emitted before it stops are kept.
-/

namespace Pintos

universe u

structure Traced (Event Reason Value : Type u) where
  events : List Event
  ended : Except Reason Value

namespace Traced

variable {Event Reason Value Result : Type u}

instance : Monad (Traced Event Reason) where
  pure value := ⟨[], .ok value⟩
  bind first next :=
    match first.ended with
    | .ok value => ⟨first.events ++ (next value).events, (next value).ended⟩
    | .error reason => ⟨first.events, .error reason⟩

def emit (event : Event) : Traced Event Reason PUnit := ⟨[event], .ok PUnit.unit⟩

def stop (reason : Reason) : Traced Event Reason Value := ⟨[], .error reason⟩

@[simp]
lemma stop_bind (reason : Reason) (next : Value → Traced Event Reason Result) :
  (stop reason >>= next) = stop reason := rfl

lemma emit_bind (event : Event) (next : PUnit → Traced Event Reason Result) :
  (emit event >>= next) = ⟨event :: (next PUnit.unit).events, (next PUnit.unit).ended⟩ := rfl

end Traced

end Pintos
