import Pintos.Library.Computation
import Pintos.Library.Traced

/-!
# Stateful computations that leave a trace

A computation that reads and replaces a state, may stop early, and emits events on the
way. The events emitted before it stops are kept.

Two judgements say what happens from a given state. `Ensures` says that every event is
allowed, and that the postcondition holds if the computation returns. `Decides` names the
condition for that: with it all events are allowed and the computation returns with the
postcondition, and without it some event is not allowed. Both have a rule for sequencing, and
one for each primitive.
-/

namespace Pintos

universe u

/-- A computation over `State` that emits events of type `Event`. -/
def Observed (Event Reason State Value : Type u) : Type u :=
  State → Traced Event Reason (Value × State)

namespace Observed

variable {Event Reason State Part Value Result : Type u}
  {first program : Observed Event Reason State Value}
  {next : Value → Observed Event Reason State Result} {value : Value} {event : Event}
  {view : State → Value} {change : State → State} {replace : State → Part → State}
  {action : Computation Reason Part Value} {weaker : Value → State → Prop} {state : State}

instance : Monad (Observed Event Reason State) where
  pure value := fun state => ⟨[], .ok (value, state)⟩
  bind first next := fun state =>
    match (first state).ended with
    | .ok (value, middle) =>
      ⟨(first state).events ++ (next value middle).events, (next value middle).ended⟩
    | .error reason => ⟨(first state).events, .error reason⟩

def emit (event : Event) : Observed Event Reason State PUnit :=
  fun state => ⟨[event], .ok (PUnit.unit, state)⟩

def stop (reason : Reason) : Observed Event Reason State Value := fun _ => ⟨[], .error reason⟩

def reads (view : State → Value) : Observed Event Reason State Value :=
  fun state => ⟨[], .ok (view state, state)⟩

def updates (change : State → State) : Observed Event Reason State PUnit :=
  fun state => ⟨[], .ok (PUnit.unit, change state)⟩

def onPart (view : State → Part) (replace : State → Part → State)
    (action : Computation Reason Part Value) : Observed Event Reason State Value :=
  fun state => ⟨[], (action (view state)).map fun outcome => (outcome.1, replace state outcome.2)⟩

lemma bind_of_ended_ok {mid : State} (ran : (first state).ended = .ok (value, mid)) :
  (first >>= next) state =
    ⟨(first state).events ++ (next value mid).events, (next value mid).ended⟩ := by
  change (match (first state).ended with
    | .ok (value, mid) => _
    | .error reason => _) = _
  rw [ran]

lemma bind_of_ended_error {reason : Reason} (stopped : (first state).ended = .error reason) :
  (first >>= next) state = ⟨(first state).events, .error reason⟩ := by
  change (match (first state).ended with
    | .ok (value, mid) => _
    | .error reason => _) = _
  rw [stopped]

section Ensures

variable {allowed : Event → Prop} {post : Value → State → Prop}

def Ensures (allowed : Event → Prop) (program : Observed Event Reason State Value) (state : State)
    (post : Value → State → Prop) : Prop :=
  (∀ event ∈ (program state).events, allowed event) ∧
    ∀ value after, (program state).ended = .ok (value, after) → post value after

lemma Ensures.silent {after : State} (returns : program state = ⟨[], .ok (value, after)⟩)
  (holds : post value after) : Ensures allowed program state post := by
  rw [Ensures, returns]
  refine ⟨List.forall_mem_nil _, ?_⟩
  rintro _ _ ran
  cases ran
  exact holds

lemma Ensures.pure (holds : post value state) :
  Ensures allowed (pure value : Observed Event Reason State Value) state post := .silent rfl holds

lemma Ensures.bind {post : Result → State → Prop}
  (ensures : Ensures allowed first state fun value mid =>
    Ensures allowed (next value) mid post) : Ensures allowed (first >>= next) state post := by
  rcases ensures with ⟨firstEvents, continues⟩
  cases ended : (first state).ended with
  | error reason =>
    refine ⟨?_, ?_⟩
    · rw [bind_of_ended_error ended]
      exact firstEvents
    intro value after ran
    rw [bind_of_ended_error ended] at ran
    cases ran
  | ok out =>
    rcases out with ⟨value, mid⟩
    rcases continues value mid ended with ⟨nextEvents, holds⟩
    refine ⟨?_, ?_⟩
    · rw [bind_of_ended_ok ended]
      intro event isEvent
      rcases List.mem_append.mp isEvent with isFirst | isNext
      · exact firstEvents event isFirst
      · exact nextEvents event isNext
    rw [bind_of_ended_ok ended]
    exact holds

lemma Ensures.emit {post : PUnit → State → Prop} (isAllowed : allowed event)
  (holds : post PUnit.unit state) :
  Ensures allowed (emit event : Observed Event Reason State PUnit) state post := by
  refine ⟨?_, ?_⟩
  · intro other isEvent
    rw [List.mem_singleton.mp isEvent]
    exact isAllowed
  rintro _ _ ran
  cases ran
  exact holds

lemma Ensures.stop (reason : Reason) :
  Ensures allowed (stop reason : Observed Event Reason State Value) state post := by
  refine ⟨List.forall_mem_nil _, ?_⟩
  rintro _ _ ran
  cases ran

lemma Ensures.reads (holds : post (view state) state) :
  Ensures allowed (reads view : Observed Event Reason State Value) state post := .silent rfl holds

lemma Ensures.updates {post : PUnit → State → Prop} (holds : post PUnit.unit (change state)) :
  Ensures allowed (updates change : Observed Event Reason State PUnit) state post :=
  .silent rfl holds

lemma Ensures.onPart {view : State → Part} {replace : State → Part → State}
  {action : Computation Reason Part Value}
  (holds : ∀ value after, action (view state) = .ok (value, after) →
    post value (replace state after)) :
  Ensures allowed (onPart view replace action : Observed Event Reason State Value) state post := by
  refine ⟨List.forall_mem_nil _, ?_⟩
  intro value after ran
  change (action (view state)).map _ = _ at ran
  cases out : action (view state) with
  | error reason =>
    rw [out] at ran
    cases ran
  | ok res =>
    rw [out] at ran
    cases ran
    exact holds res.1 res.2 out

lemma Ensures.mono (ensures : Ensures allowed program state post)
  (weakens : ∀ value after, post value after → weaker value after) :
  Ensures allowed program state weaker :=
  ⟨ensures.1, fun value after ran => weakens value after (ensures.2 value after ran)⟩

end Ensures

section Decides

variable {fits : Prop} {allowed : Event → Prop} {post : Value → State → Prop}

/-- If `fits` holds, all events are allowed and the computation returns with the postcondition;
otherwise some event is not allowed. -/
structure Decides (fits : Prop) (allowed : Event → Prop)
    (program : Observed Event Reason State Value) (state : State) (post : Value → State → Prop) :
    Prop where
  events : fits → ∀ event ∈ (program state).events, allowed event
  returns : fits → ∃ value after, (program state).ended = .ok (value, after) ∧ post value after
  bad : ¬fits → ∃ event ∈ (program state).events, ¬allowed event

lemma Decides.silent {after : State} (returns : program state = ⟨[], .ok (value, after)⟩)
  (holds : post value after) : Decides True allowed program state post := by
  refine ⟨?_, fun _ => ⟨value, after, by rw [returns], holds⟩, fun never => (never trivial).elim⟩
  rw [returns]
  exact fun _ => List.forall_mem_nil _

lemma Decides.pure (holds : post value state) :
  Decides True allowed (pure value : Observed Event Reason State Value) state post :=
  .silent rfl holds

lemma Decides.bind {first : Observed Event Reason State Value}
  {next : Value → Observed Event Reason State Result} {nextFits : Prop}
  {post : Result → State → Prop} (decides : Decides fits allowed first state fun value mid =>
    Decides nextFits allowed (next value) mid post) :
  Decides (fits ∧ nextFits) allowed (first >>= next) state post := by
  have firstEvents : ∀ event ∈ (first state).events, event ∈ ((first >>= next) state).events := by
    intro event isEvent
    cases ended : (first state).ended with
    | error reason =>
      rw [bind_of_ended_error ended]
      exact isEvent
    | ok out =>
      rw [bind_of_ended_ok ended]
      exact List.mem_append_left _ isEvent
  refine ⟨?_, ?_, ?_⟩
  · rintro ⟨firstFits, restFits⟩
    rcases decides.returns firstFits with ⟨value, mid, ended, rest⟩
    rw [bind_of_ended_ok ended]
    intro event isEvent
    rcases List.mem_append.mp isEvent with isFirst | isNext
    · exact decides.events firstFits event isFirst
    · exact rest.events restFits event isNext
  · rintro ⟨firstFits, restFits⟩
    rcases decides.returns firstFits with ⟨value, mid, ended, rest⟩
    rw [bind_of_ended_ok ended]
    exact rest.returns restFits
  intro notBoth
  by_cases firstFits : fits
  · rcases decides.returns firstFits with ⟨value, mid, ended, rest⟩
    rcases rest.bad (fun restFits => notBoth ⟨firstFits, restFits⟩)
      with ⟨event, isEvent, notAllowed⟩
    refine ⟨event, ?_, notAllowed⟩
    rw [bind_of_ended_ok ended]
    exact List.mem_append_right _ isEvent
  rcases decides.bad firstFits with ⟨event, isEvent, notAllowed⟩
  exact ⟨event, firstEvents event isEvent, notAllowed⟩

lemma Decides.emit {event : Event} {post : PUnit → State → Prop}
  (holds : allowed event → post PUnit.unit state) :
  Decides (allowed event) allowed (emit event : Observed Event Reason State PUnit) state post := by
  refine ⟨?_, ?_, ?_⟩
  · intro isAllowed other isEvent
    rw [List.mem_singleton.mp isEvent]
    exact isAllowed
  · intro isAllowed
    exact ⟨PUnit.unit, state, rfl, holds isAllowed⟩
  intro notAllowed
  exact ⟨event, List.mem_singleton_self event, notAllowed⟩

lemma Decides.reads (holds : post (view state) state) :
  Decides True allowed (reads view : Observed Event Reason State Value) state post :=
  .silent rfl holds

lemma Decides.updates {post : PUnit → State → Prop} (holds : post PUnit.unit (change state)) :
  Decides True allowed (updates change : Observed Event Reason State PUnit) state post :=
  .silent rfl holds

lemma Decides.onPart {view : State → Part} {after : Part}
  (ran : action (view state) = .ok (value, after)) (holds : post value (replace state after)) :
  Decides True allowed (onPart view replace action : Observed Event Reason State Value) state
    post := by
  refine .silent ?_ holds
  rw [Observed.onPart, ran]
  rfl

lemma Decides.mono (decides : Decides fits allowed program state post)
  (weakens : fits → ∀ value after, post value after → weaker value after) :
  Decides fits allowed program state weaker := by
  refine ⟨decides.events, ?_, decides.bad⟩
  intro doesFit
  rcases decides.returns doesFit with ⟨value, after, ended, holds⟩
  exact ⟨value, after, ended, weakens doesFit value after holds⟩

lemma Decides.congr {other : Prop} (decides : Decides fits allowed program state post)
  (same : fits ↔ other) : Decides other allowed program state post := by
  rwa [propext same] at decides

lemma Decides.bind_true {post : Result → State → Prop}
  (decides : Decides fits allowed first state fun value mid =>
    Decides True allowed (next value) mid post) :
  Decides fits allowed (first >>= next) state post :=
  (Decides.bind decides).congr (by rw [and_true])

lemma Decides.true_bind {post : Result → State → Prop}
  (decides : Decides True allowed first state fun value mid =>
    Decides fits allowed (next value) mid post) :
  Decides fits allowed (first >>= next) state post :=
  (Decides.bind decides).congr (by rw [true_and])

lemma Decides.false_bind {post : Result → State → Prop}
  (decides : Decides False allowed first state fun _ _ => True) :
  Decides False allowed (first >>= next) state post :=
  (Decides.bind (decides.mono fun never => never.elim)).congr (iff_of_eq (false_and True))

lemma ended_bind_eq_ok {res : Result} {after : State}
  (ran : ((first >>= next) state).ended = .ok (res, after)) :
  ∃ value mid, (first state).ended = .ok (value, mid) ∧
    (next value mid).ended = .ok (res, after) ∧
    ((first >>= next) state).events = (first state).events ++ (next value mid).events := by
  cases ended : (first state).ended with
  | error reason =>
    rw [bind_of_ended_error ended] at ran
    cases ran
  | ok out =>
    rw [bind_of_ended_ok ended] at ran ⊢
    exact ⟨out.1, out.2, rfl, ran, rfl⟩

end Decides

section Emits

variable {marked : Event → Prop}

def Emits (marked : Event → Prop) (program : Observed Event Reason State Value) : Prop :=
  ∀ state value after, (program state).ended = .ok (value, after) →
    ∃ event ∈ (program state).events, marked event

lemma Emits.emit (isMarked : marked event) :
  Emits marked (emit event : Observed Event Reason State PUnit) :=
  fun _ _ _ _ => ⟨event, List.mem_singleton_self event, isMarked⟩

lemma Emits.bind_left (emits : Emits marked first) : Emits marked (first >>= next) := by
  intro state res after ran
  rcases ended_bind_eq_ok ran with ⟨value, mid, ended, _, events⟩
  rcases emits state value mid ended with ⟨event, isEvent, isMarked⟩
  rw [events]
  exact ⟨event, List.mem_append_left _ isEvent, isMarked⟩

lemma Emits.bind_right (emits : ∀ value, Emits marked (next value)) :
  Emits marked (first >>= next) := by
  intro state res after ran
  rcases ended_bind_eq_ok ran with ⟨value, mid, _, continued, events⟩
  rcases emits value mid res after continued with ⟨event, isEvent, isMarked⟩
  rw [events]
  exact ⟨event, List.mem_append_right _ isEvent, isMarked⟩

end Emits

end Observed

end Pintos
