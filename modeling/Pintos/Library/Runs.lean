import Mathlib.Data.List.Induction

/-!
# Runs and what is seen of them

A system takes events one after another. An event either stops the system, or
returns a value and leaves a new state. A run over a list of events returns the
values of all of them.

A second system over a view of the states agrees with the first one on a run when
it returns the same values and reaches the views of the same states after every
initial part of the run. That comes down to the single steps: the two agree on a
run if they agree on each event in the state it finds.
-/

namespace Pintos

universe u

abbrev Performs (Reason State Event Value : Type u) :=
  State → Event → Except Reason (Value × State)

namespace Performs

variable {Reason State View Event Value : Type u} {perform : Performs Reason State Event Value}
  {reference : Performs Reason View Event Value} {view : State → View}
  {out : Except Reason Value} {state : State} {values : List Value} {event : Event}
  {rest events : List Event}

lemma map_eq_ok {Result : Type u} {change : Value → Result} {result : Result}
  (returned : out.map change = .ok result) :
  ∃ value, out = .ok value ∧ change value = result := by
  cases out with
  | error reason => cases returned
  | ok value =>
    cases returned
    exact ⟨value, rfl, rfl⟩

lemma bind_eq_ok {Result : Type u} {next : Value → Except Reason Result} {result : Result}
  (returned : out.bind next = .ok result) :
  ∃ value, out = .ok value ∧ next value = .ok result := by
  cases out with
  | error reason => cases returned
  | ok value => exact ⟨value, rfl, returned⟩

def runAll (perform : Performs Reason State Event Value) :
    List Event → State → Except Reason (List Value × State)
  | [], state => .ok ([], state)
  | event :: rest, state =>
    (perform state event).bind fun first =>
      (runAll perform rest first.2).map fun later => (first.1 :: later.1, later.2)

lemma runAll_cons_eq_ok {after : State}
  (ran : perform.runAll (event :: rest) state = .ok (values, after)) :
  ∃ val mid later, perform state event = .ok (val, mid) ∧
    perform.runAll rest mid = .ok (later, after) ∧ values = val :: later := by
  rw [runAll] at ran
  cases first : perform state event with
  | error reason =>
    rw [first] at ran
    cases ran
  | ok out =>
    rcases out with ⟨val, mid⟩
    rw [first, Except.bind] at ran
    cases second : perform.runAll rest mid with
    | error reason =>
      simp only [second] at ran
      cases ran
    | ok out =>
      rcases out with ⟨later, last⟩
      simp only [second] at ran
      cases ran
      exact ⟨val, mid, later, rfl, second, rfl⟩

lemma runAll_concat (prior : List Event) (event : Event) (state : State) :
  perform.runAll (prior ++ [event]) state =
    (perform.runAll prior state).bind fun first =>
      (perform first.2 event).map fun last => (first.1 ++ [last.1], last.2) := by
  induction prior generalizing state with
  | nil =>
    cases perform state event with
    | error reason => rfl
    | ok out => rfl
  | cons head rest ih =>
    simp only [List.cons_append, runAll]
    cases perform state head with
    | error reason => rfl
    | ok out =>
      simp only [Except.bind, ih]
      cases perform.runAll rest out.2 with
      | error reason => rfl
      | ok later =>
        simp only [Except.map]
        cases perform later.2 event with
        | error reason => rfl
        | ok last => rfl

lemma runAll_invariant {holds : State → Prop}
  (kept : ∀ state event val after, holds state → perform state event = .ok (val, after) →
    holds after) {after : State} (held : holds state)
  (ran : perform.runAll events state = .ok (values, after)) : holds after := by
  induction events generalizing state values with
  | nil =>
    cases ran
    exact held
  | cons event rest ih =>
    rcases runAll_cons_eq_ok ran with ⟨val, mid, later, performed, ran, _⟩
    exact ih (kept _ _ _ _ held performed) ran

def AgreesAt (perform : Performs Reason State Event Value)
    (reference : Performs Reason View Event Value) (view : State → View) (state : State)
    (event : Event) : Prop :=
  reference (view state) event = (perform state event).map (Prod.map id view)

def Agrees (perform : Performs Reason State Event Value)
    (reference : Performs Reason View Event Value) (view : State → View) (state : State)
    (events : List Event) : Prop :=
  ∀ earlier, earlier <+: events → reference.runAll earlier (view state) =
    (perform.runAll earlier state).map (Prod.map id view)

def Throughout (perform : Performs Reason State Event Value) (holds : State → Event → Prop)
    (state : State) (events : List Event) : Prop :=
  ∀ earlier event, earlier ++ [event] <+: events → ∀ values middle,
    perform.runAll earlier state = .ok (values, middle) → holds middle event

lemma Throughout.nil (holds : State → Event → Prop) (state : State) :
  perform.Throughout holds state [] := by
  intro prior event isPrefix
  simp at isPrefix

lemma Throughout.cons {holds : State → Event → Prop} (first : holds state event)
  (later : ∀ val mid, perform state event = .ok (val, mid) →
    perform.Throughout holds mid rest) : perform.Throughout holds state (event :: rest) := by
  intro prior last isPrefix values mid ran
  cases prior with
  | nil =>
    cases ran
    have isFirst : last = event := (List.cons_prefix_cons.mp isPrefix).1
    rw [isFirst]
    exact first
  | cons head prior =>
    rcases List.cons_prefix_cons.mp isPrefix with ⟨rfl, isRest⟩
    rcases runAll_cons_eq_ok ran with ⟨val, next, _, performed, ran, _⟩
    exact later val next performed prior last isRest _ mid ran

/-- What the events of a run keep, under a condition that each of them meets, holds at every point
of the run. -/
lemma Throughout.invariant {holds : State → Event → Prop} {inv : State → Prop}
  (throughout : perform.Throughout holds state events)
  (steps : ∀ {pre event val after}, inv pre → holds pre event →
    perform pre event = .ok (val, after) → inv after) (starts : inv state)
  (prior : List Event) : prior <+: events → ∀ {values mid},
    perform.runAll prior state = .ok (values, mid) → inv mid := by
  induction prior using List.reverseRecOn with
  | nil =>
    intro _ values mid ran
    cases ran
    exact starts
  | append_singleton prior event ih =>
    intro isPrefix values last ran
    rw [runAll_concat] at ran
    rcases bind_eq_ok ran with ⟨⟨_, mid⟩, ranPrior, stepping⟩
    rcases map_eq_ok stepping with ⟨⟨_, after⟩, performed, same⟩
    cases same
    have pre := ih ((List.prefix_append prior [event]).trans isPrefix) ranPrior
    exact steps pre (throughout prior event isPrefix _ mid ranPrior) performed

lemma Throughout.agrees
  (throughout : perform.Throughout (perform.AgreesAt reference view) state events) :
  perform.Agrees reference view state events := by
  intro prior
  induction prior using List.reverseRecOn with
  | nil => exact fun _ => rfl
  | append_singleton prior event ih =>
    intro isPrefix
    have pre := ih ((List.prefix_append prior [event]).trans isPrefix)
    rw [runAll_concat, runAll_concat, pre]
    cases ran : perform.runAll prior state with
    | error reason => rfl
    | ok out =>
      rcases out with ⟨values, mid⟩
      have same := throughout prior event isPrefix values mid ran
      simp only [Except.map, Except.bind, Prod.map_apply]
      rw [show reference (view mid) event = _ from same]
      cases perform mid event with
      | error reason => rfl
      | ok last => rfl

section Own

variable {Alone : Type u} {own : Event → Bool}

def ownEvents (own : Event → Bool) (events : List Event) (values : List Value) :
    List (Event × Value) :=
  (events.zip values).filter fun entry => own entry.1

lemma runAll_own {alone : Performs Reason Alone (Event × Value) PUnit}
  {rel : State → Alone → Prop}
  (ownStep : ∀ state aside event val after, rel state aside → own event = true →
    perform state event = .ok (val, after) →
    ∃ asideAfter, alone aside (event, val) = .ok (PUnit.unit, asideAfter) ∧
      rel after asideAfter)
  (otherStep : ∀ state aside event val after, rel state aside → own event = false →
    perform state event = .ok (val, after) → rel after aside) {after : State} {aside : Alone}
  (initially : rel state aside) (ran : perform.runAll events state = .ok (values, after)) :
  ∃ units asideAfter, alone.runAll (ownEvents own events values) aside =
    .ok (units, asideAfter) ∧ rel after asideAfter := by
  induction events generalizing state aside values with
  | nil =>
    cases ran
    exact ⟨[], aside, rfl, initially⟩
  | cons event rest ih =>
    rcases runAll_cons_eq_ok ran with ⟨val, mid, later, performed, ranRest, rfl⟩
    cases isOwn : own event with
    | false =>
      have skipped : ownEvents own (event :: rest) (val :: later) = ownEvents own rest later := by
        simp [ownEvents, isOwn]
      rw [skipped]
      exact ih (otherStep _ _ _ _ _ initially isOwn performed) ranRest
    | true =>
      have taken : ownEvents own (event :: rest) (val :: later) =
          (event, val) :: ownEvents own rest later := by
        simp [ownEvents, isOwn]
      rcases ownStep _ _ _ _ _ initially isOwn performed with ⟨next, stepped, relNext⟩
      rcases ih relNext ranRest with ⟨units, asideAfter, ranAlone, relAfter⟩
      refine ⟨PUnit.unit :: units, asideAfter, ?_, relAfter⟩
      rw [taken, runAll, stepped]
      simp [Except.bind, ranAlone, Except.map]

end Own

end Performs

end Pintos
