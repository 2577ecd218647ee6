import Mathlib.Order.Defs.Unbundled

/-!
# Stateful computations that may stop

A computation reads and replaces a state. It either returns a value together
with the new state, or stops for a reason and returns nothing. The lemmas below
are the only facts later proofs use about sequencing: how a computation behaves
when its first part is known, and how to invert a computation that returned.
-/

namespace Pintos

universe u

/-- A computation over `State` returning `Value`, or stopping with a `Reason`. -/
def Computation (Reason State Value : Type u) : Type u :=
  State → Except Reason (Value × State)

namespace Computation

variable {Reason State Value Result : Type u} {state after : State} {value : Value}
  {out : Except Reason Value}

instance : Monad (Computation Reason State) where
  pure value := fun state => .ok (value, state)
  bind first next := fun state =>
    match first state with
    | .ok (value, state) => next value state
    | .error reason => .error reason

def stop (reason : Reason) : Computation Reason State Value :=
  fun _ => .error reason

def reads (view : State → Value) : Computation Reason State Value :=
  fun state => .ok (view state, state)

def updates (change : State → State) : Computation Reason State PUnit :=
  fun state => .ok (PUnit.unit, change state)

@[simp]
lemma pure_apply (value : Value) (state : State) :
  (pure value : Computation Reason State Value) state = .ok (value, state) := rfl

@[simp]
lemma stop_apply (reason : Reason) (state : State) :
  (stop reason : Computation Reason State Value) state = .error reason := rfl

@[simp]
lemma reads_apply (view : State → Value) (state : State) :
  (reads view : Computation Reason State Value) state = .ok (view state, state) := rfl

@[simp]
lemma updates_apply (change : State → State) (state : State) :
  (updates change : Computation Reason State PUnit) state = .ok (PUnit.unit, change state) := rfl

variable {first : Computation Reason State Value} {next : Value → Computation Reason State Result}

lemma bind_of_ok (returned : first state = .ok (value, after)) :
  (first >>= next) state = next value after := by
  change (match first state with
    | .ok (value, state) => next value state
    | .error reason => .error reason) = next value after
  rw [returned]

lemma bind_of_error {reason : Reason} (stopped : first state = .error reason) :
  (first >>= next) state = .error reason := by
  change (match first state with
    | .ok (value, state) => next value state
    | .error reason => .error reason) = .error reason
  rw [stopped]

lemma bind_eq_ok {res : Result} (returned : (first >>= next) state = .ok (res, after)) :
  ∃ value mid, first state = .ok (value, mid) ∧ next value mid = .ok (res, after) := by
  cases out : first state with
  | error reason =>
    rw [bind_of_error out] at returned
    cases returned
  | ok outcome =>
    rcases outcome with ⟨value, mid⟩
    rw [bind_of_ok out] at returned
    exact ⟨value, mid, rfl, returned⟩

lemma eq_ok_of_toOption (isSome : out.toOption = some value) : out = .ok value := by
  cases out with
  | error reason => simp [Except.toOption] at isSome
  | ok res =>
    simp only [Except.toOption, Option.some.injEq] at isSome
    rw [isSome]

lemma exists_ok_of_any {check : Value → Bool} (checked : out.toOption.any check = true) :
  ∃ value, out = .ok value ∧ check value = true := by
  rcases (Option.any_eq_true ..).mp checked with ⟨value, isVal, passes⟩
  exact ⟨value, eq_ok_of_toOption isVal, passes⟩

@[simp]
lemma pure_bind_apply (value : Value) (next : Value → Computation Reason State Result)
  (state : State) : (pure value >>= next) state = next value state := rfl

@[simp]
lemma reads_bind_apply (view : State → Value) (next : Value → Computation Reason State Result)
  (state : State) : (reads view >>= next) state = next (view state) state := rfl

@[simp]
lemma updates_bind_apply (change : State → State) (next : PUnit → Computation Reason State Result)
  (state : State) : (updates change >>= next) state = next PUnit.unit (change state) := rfl

@[simp]
lemma stop_bind_apply (reason : Reason) (next : Value → Computation Reason State Result)
  (state : State) : (stop reason >>= next) state = .error reason := rfl

def Preserves (related : State → State → Prop) (action : Computation Reason State Value) : Prop :=
  ∀ ⦃before value after⦄, action before = .ok (value, after) → related before after

section Preserves

variable {rel : State → State → Prop}

lemma Preserves.stop (reason : Reason) :
  Preserves rel (Computation.stop reason : Computation Reason State Value) := by
  intro pre value after returned
  simp at returned

lemma Preserves.pure [Std.Refl rel] (value : Value) :
  Preserves rel (pure value : Computation Reason State Value) := by
  intro pre res after returned
  cases returned
  exact Std.Refl.refl pre

lemma Preserves.reads [Std.Refl rel] (view : State → Value) :
  Preserves rel (Computation.reads view : Computation Reason State Value) := by
  intro pre res after returned
  cases returned
  exact Std.Refl.refl pre

lemma Preserves.updates {change : State → State} (changed : ∀ state, rel state (change state)) :
  Preserves rel (Computation.updates change : Computation Reason State PUnit) := by
  intro pre res after returned
  cases returned
  exact changed pre

lemma Preserves.bind [IsTrans State rel] (firstKeeps : Preserves rel first)
  (nextKeeps : ∀ value, Preserves rel (next value)) : Preserves rel (first >>= next) := by
  intro pre res after returned
  obtain ⟨value, mid, firstRan, nextRan⟩ := bind_eq_ok returned
  exact IsTrans.trans _ _ _ (firstKeeps firstRan) (nextKeeps value nextRan)

lemma Preserves.ite {condition : Prop} [Decidable condition]
  {yes no : Computation Reason State Value} (yesKeeps : Preserves rel yes)
  (noKeeps : Preserves rel no) : Preserves rel (if condition then yes else no) := by
  split
  · exact yesKeeps
  · exact noKeeps

lemma Preserves.forM [IsPreorder State rel] {Index : Type u}
  {body : Index → Computation Reason State PUnit} (indices : List Index)
  (bodyKeeps : ∀ idx ∈ indices, Preserves rel (body idx)) :
  Preserves rel (indices.forM body) := by
  induction indices with
  | nil => exact Preserves.pure _
  | cons idx rest ih =>
    exact (bodyKeeps idx List.mem_cons_self).bind fun _ =>
      ih fun later isLater => bodyKeeps later (List.mem_cons_of_mem _ isLater)

lemma Preserves.round_of_forM [IsPreorder State rel] {Index : Type u}
  {body : Index → Computation Reason State PUnit} {indices : List Index}
  (bodyKeeps : ∀ idx ∈ indices, Preserves rel (body idx)) {pre : State}
  (returned : indices.forM body pre = .ok (PUnit.unit, after)) {idx : Index}
  (isIdx : idx ∈ indices) :
  ∃ first second, rel pre first ∧ body idx first = .ok (PUnit.unit, second) ∧
    rel second after := by
  induction indices generalizing pre with
  | nil => cases isIdx
  | cons head rest ih =>
    rcases bind_eq_ok returned with ⟨_, mid, ranHead, ranRest⟩
    have restKeeps : ∀ later ∈ rest, Preserves rel (body later) := fun later isLater =>
      bodyKeeps later (List.mem_cons_of_mem _ isLater)
    rcases List.mem_cons.mp isIdx with rfl | isLater
    · exact ⟨pre, mid, Std.Refl.refl pre, ranHead, Preserves.forM rest restKeeps ranRest⟩
    rcases ih restKeeps ranRest isLater with ⟨first, second, toFirst, ran, toAfter⟩
    exact ⟨first, second,
      IsTrans.trans _ _ _ (bodyKeeps head List.mem_cons_self ranHead) toFirst, ran, toAfter⟩

end Preserves

end Computation

end Pintos
