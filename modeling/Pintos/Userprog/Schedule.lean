import Pintos.Userprog.Process

/-!
# Runs by schedule

The steps as functions of the thread that runs and of what it meets, so that a
schedule can be executed. Every state a schedule leads to is reached.
-/

namespace Pintos.Process

/-- What decides a step besides the thread: the call a user program makes, and
whether an allocation or a load succeeds. -/
inductive Choice
  | exec
  | wait (tid : ℤ)
  | exit (status : ℤ)
  | kill
  | succeed
  | fail
deriving DecidableEq

def Thread.search (thread : Thread) (tid : ℤ) : Thread :=
  match thread.children.find? fun child : ℕ => (child : ℤ) = tid with
  | some child => { thread with
      children := thread.children.erase child
      waited := child :: thread.waited
      pc := .waitDown child }
  | none => { thread with pc := .waitReturn none (-1) }

variable {thread : Thread} {choice : Choice} {label : Label} {threads after : Threads} {tid : ℕ}

lemma Thread.search_sound {tid : ℤ} (stands : thread.pc = .waitSearch tid) :
  Move thread .other (thread.search tid) := by
  unfold Thread.search
  split
  · rename_i child found
    have isTarget := List.find?_some found
    exact .waitFound stands (List.mem_of_find?_eq_some found) (of_decide_eq_true isTarget)
  rename_i missed
  refine .waitMissed stands ?_
  intro child isChild
  simpa only [decide_eq_true_eq] using List.find?_eq_none.mp missed child isChild

def Thread.move (thread : Thread) (choice : Choice) : Option (Label × Thread) :=
  match thread.pc, choice with
  | .user, .exec => some (.other, { thread with pc := .execEntered })
  | .user, .wait tid => some (.other, { thread with pc := .waitSearch tid })
  | .user, .exit status =>
    some (.other, { thread with exitStatus := status }.threadExit status)
  | .user, .kill => some (.other, thread.threadExit (-1))
  | .execEntered, .fail => some (.other, { thread with pc := .execReturn none (-1) })
  | .execEntered, .succeed => some (.copyLine [97], { thread with pc := .execCreate })
  | .execLookup _ none, .succeed => some (.other, { thread with pc := .execAssign none })
  | .execDown child, .succeed =>
    if 0 < thread.execBlock then
      some (.other,
        { thread with execBlock := thread.execBlock - 1, pc := .execReadLoad child })
    else none
  | .execReturn _ _, .succeed => some (.other, { thread with pc := .user })
  | .loadReturned true, .succeed => some (.other, { thread with pc := .user })
  | .loadReturned false, .succeed =>
    some (.other, { thread with load := false }.threadExit (-1))
  | .waitSearch tid, .succeed => some (.other, thread.search tid)
  | .waitDown child, .succeed =>
    if 0 < thread.semaParentBlock then
      some (.takeSignal child, { thread with
        semaParentBlock := thread.semaParentBlock - 1
        raised := thread.raised.erase child
        pc := .waitReadStatus child })
    else none
  | .waitReturn _ _, .succeed => some (.other, { thread with pc := .user })
  | .exitClear [], .succeed => some (.other, { thread with pc := .exitTest })
  | .exitTest, .succeed => some (.other,
      if thread.parent = none then { thread with pc := .exitFinish }
      else { thread with pc := .exitReread })
  | .exitReread, .succeed => some (.other, { thread with pc := .exitUp thread.parent })
  | .exitDown, .succeed =>
    if 0 < thread.waitBlock then
      some (.other, { thread with waitBlock := thread.waitBlock - 1, pc := .exitFinish })
    else none
  | .exitFinish, .succeed => some (.other, { thread with pc := .dead })
  | _, _ => none

lemma accepted_letter : Accepted [97] := by decide

lemma Thread.move_sound {after : Thread} (moved : thread.move choice = some (label, after)) :
  Move thread label after := by
  unfold Thread.move at moved
  split at moved
  all_goals
    simp only [Option.some.injEq, reduceCtorEq, Option.ite_none_right_eq_some]
      at moved
  all_goals grind -linarith [Move, Thread.search_sound, accepted_letter]

def Threads.look (threads : Threads) (thread : Thread) (choice : Choice) :
    Option (Label × Pc) :=
  match thread.pc, choice with
  | .execCreate, .fail => some (.threadCreate false, .execLookup none (threads.allNext 0))
  | .execLookup target (some elem), .succeed =>
    if threads.live elem = true then
      some (.other, if target = some elem then .execAssign (some elem)
        else .execLookup target (threads.allNext elem))
    else none
  | .execReadLoad child, .succeed =>
    if threads.live child = true then
      (threads.thread child).map fun childThread =>
        (.readLoad child, .execReturn (some child) (if childThread.load then child else -1))
    else none
  | .waitReadStatus child, .succeed =>
    if threads.live child = true then
      (threads.thread child).map fun childThread =>
        (.other, .waitUp child childThread.exitStatus)
    else none
  | .exitNext child rest, .succeed =>
    if threads.live child = true then some (.other, .exitClear rest) else none
  | _, _ => none

lemma Threads.look_sound {pc : Pc} (looked : threads.look thread choice = some (label, pc)) :
  Look threads thread label pc := by
  unfold Threads.look at looked
  split at looked
  all_goals
    simp only [Option.some.injEq, Prod.mk.injEq, reduceCtorEq, Option.ite_none_right_eq_some,
      Option.map_eq_some_iff] at looked
  all_goals grind -linarith [Look]

def Threads.touch (threads : Threads) (tid : ℕ) (thread : Thread) (choice : Choice) :
    Option (Label × Threads) :=
  match thread.pc, choice with
  | .execCreate, .succeed =>
    let added := { threads.put threads.nextTid (initThread tid) with
      nextTid := threads.nextTid + 1 }
    some (.threadCreate true, added.put tid { thread with
      children := thread.children ++ [threads.nextTid]
      pc := .execLookup (some threads.nextTid) (added.allNext 0) })
  | .execAssign (some child), .succeed =>
    if threads.live child = true then
      (threads.thread child).map fun childThread =>
        (.other, (threads.put child { childThread with parent := some tid }).put tid
          { thread with pc := .execDown child })
    else none
  | .loading, choice =>
    thread.parent.bind fun parent =>
      if threads.live parent = true then
        (threads.thread parent).map fun parentThread =>
          (.other, (threads.put parent
            { parentThread with execBlock := parentThread.execBlock + 1 }).put tid
              { thread with
                loadResult := some (choice = .succeed)
                pc := .loadReturned (choice = .succeed) })
      else none
  | .waitUp child stat, .succeed =>
    if threads.live child = true then
      (threads.thread child).map fun childThread =>
        (.other, (threads.put child
          { childThread with waitBlock := childThread.waitBlock + 1 }).put tid
            { thread with pc := .waitReturn (some child) stat })
    else none
  | .exitClear (child :: rest), .succeed =>
    if threads.live child = true then
      (threads.thread child).map fun childThread =>
        (.clearParent child, (threads.put child { childThread with parent := none }).put tid
          { thread with pc := .exitNext child rest })
    else none
  | .exitUp (some parent), .succeed =>
    if threads.live parent = true then
      (threads.thread parent).map fun parentThread =>
        (.other, (threads.put parent { parentThread with
          semaParentBlock := parentThread.semaParentBlock + 1
          raised := tid :: parentThread.raised }).put tid { thread with pc := .exitDown })
    else none
  | _, _ => none

lemma Threads.touch_sound (isThr : threads.thread tid = some thread)
  (touched : threads.touch tid thread choice = some (label, after)) :
  Step threads tid label after := by
  unfold Threads.touch at touched
  split at touched
  all_goals
    simp only [Option.some.injEq, Prod.mk.injEq, reduceCtorEq, Option.ite_none_right_eq_some,
      Option.map_eq_some_iff, Option.bind_eq_some_iff] at touched
  all_goals grind -linarith [Step]

def Threads.advance (threads : Threads) (tid : ℕ) (choice : Choice) :
    Option (Label × Threads) :=
  (threads.thread tid).bind fun thread =>
    ((thread.move choice).map fun (label, after) => (label, threads.put tid after)) <|>
    ((threads.look thread choice).map fun (label, pc) =>
      (label, threads.put tid { thread with pc := pc })) <|>
    threads.touch tid thread choice <|>
    (thread.follows.bind fun (pointer, fault) =>
      if pointer.all (fun target => !threads.live target) then some (.other, threads.stop fault)
      else none)

lemma Threads.advance_sound (advanced : threads.advance tid choice = some (label, after)) :
  Step threads tid label after := by
  rcases Option.bind_eq_some_iff.mp advanced with ⟨thread, isThr, stepped⟩
  simp only [Option.orElse_eq_orElse, Option.orElse_eq_or, Option.or_eq_some_iff,
    Option.map_eq_some_iff, Prod.exists, Prod.mk.injEq, Option.bind_eq_some_iff,
    Option.ite_none_right_eq_some, Option.some.injEq] at stepped
  rcases stepped with ⟨_, _, moved, rfl, rfl⟩ | ⟨-, stepped⟩
  · exact .own isThr (Thread.move_sound moved)
  rcases stepped with ⟨_, _, looked, rfl, rfl⟩ | ⟨-, stepped⟩
  · exact .look isThr (Threads.look_sound looked)
  rcases stepped with touched | ⟨-, ptr, fault, follows, bad, rfl, rfl⟩
  · exact Threads.touch_sound isThr touched
  refine .faults isThr (.pointer follows ?_)
  rintro target rfl
  simpa only [Option.all_some, Bool.not_eq_true'] using bad

def Threads.run (allowed : Threads → ℕ → Label → Prop)
    [∀ threads tid label, Decidable (allowed threads tid label)] :
    Threads → List (ℕ × Choice) → Option Threads
  | threads, [] => some threads
  | threads, (tid, choice) :: rest =>
    match threads.advance tid choice with
    | none => none
    | some (label, after) =>
      if threads.fault = none ∧ allowed threads tid label then after.run allowed rest else none

lemma ReachedWhere.run {allowed : Threads → ℕ → Label → Prop}
  [∀ threads tid label, Decidable (allowed threads tid label)] {schedule : List (ℕ × Choice)}
  (reached : ReachedWhere allowed threads) (ran : threads.run allowed schedule = some after) :
  ReachedWhere allowed after := by
  induction schedule generalizing threads with
  | nil =>
    cases ran
    exact reached
  | cons entry rest ih =>
    rcases entry with ⟨tid, choice⟩
    simp only [Threads.run] at ran
    split at ran
    · cases ran
    rename_i label next advanced
    simp only [Option.ite_none_right_eq_some] at ran
    rcases ran with ⟨⟨running, isAllowed⟩, ran⟩
    exact ih (reached.next ⟨running, tid, label, Threads.advance_sound advanced, isAllowed⟩) ran

lemma exists_reached (allowed : Threads → ℕ → Label → Prop)
  [∀ threads tid label, Decidable (allowed threads tid label)] (schedule : List (ℕ × Choice))
  (holds : Threads → Bool) (ran : (boot.run allowed schedule).any holds = true) :
  ∃ threads, ReachedWhere allowed threads ∧ holds threads = true := by
  rcases (Option.any_eq_true ..).mp ran with ⟨threads, isRun, isHeld⟩
  exact ⟨threads, ReachedWhere.run (.start rfl) isRun, isHeld⟩

def Threads.has (threads : Threads) (tid : ℕ) (test : Thread → Bool) : Bool :=
  (threads.thread tid).any test

lemma Threads.exists_of_has {test : Thread → Bool} (passes : threads.has tid test = true) :
  ∃ thread, threads.thread tid = some thread ∧ test thread = true :=
  (Option.any_eq_true ..).mp passes

/-- `tid` executes a program. The new thread, `child`, is the `length`-th of
`all_list`; it loads as `outcome` says and runs no further. -/
def executing (tid child length : ℕ) (outcome : Choice) : List (ℕ × Choice) :=
  (tid, .exec) :: List.replicate (length + 2) (tid, .succeed) ++
    (child, outcome) :: List.replicate 4 (tid, .succeed)

/-- The thread `tid`, whose program has been loaded and which has no children, exits
and tells its parent. -/
def exiting (tid : ℕ) (status : ℤ) : List (ℕ × Choice) :=
  (tid, .succeed) :: (tid, .exit status) :: List.replicate 4 (tid, .succeed)

end Pintos.Process
