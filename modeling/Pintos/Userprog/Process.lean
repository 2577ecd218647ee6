import Mathlib.Data.Int.Basic
import Pintos.Library.Reachability
import Pintos.Library.Words

/-!
# Processes

The threads of the kernel as `process_execute`, `start_process`, `load`,
`process_wait`, `process_exit`, `thread_create` and `get_thread_tid` move them.
A thread stands before a statement of one of these functions, or runs user code;
one step executes one statement of one thread, so every interleaving that
preemption allows is a run. A thread structure is freed when its thread dies and
its address is not handed out again: a pointer to a dead thread dangles. Using a
null or a dangling pointer stops the machine and is recorded. So does a command line
that `process_execute` cannot use: one that overruns its array `s`, or one without a word,
for which `thread_create` gets a null name.
-/

namespace Pintos.Process

open Function

inductive Pc
  | user
  | idle
  | execEntered
  | execCreate
  | execLookup (tid : Option ℕ) (elem : Option ℕ)
  | execAssign (child : Option ℕ)
  | execDown (child : ℕ)
  | execReadLoad (child : ℕ)
  | execReturn (child : Option ℕ) (result : ℤ)
  | loading
  | loadReturned (success : Bool)
  | waitSearch (tid : ℤ)
  | waitDown (child : ℕ)
  | waitReadStatus (child : ℕ)
  | waitUp (child : ℕ) (stat : ℤ)
  | waitReturn (child : Option ℕ) (result : ℤ)
  | exitClear (children : List ℕ)
  | exitNext (child : ℕ) (children : List ℕ)
  | exitTest
  | exitReread
  | exitUp (parent : Option ℕ)
  | exitDown
  | exitFinish
  | dead
deriving DecidableEq

def Pc.exiting : Pc → Bool
  | exitClear _ | exitNext _ _ | exitTest | exitReread | exitUp _ | exitDown | exitFinish
  | dead => true
  | user | idle | execEntered | execCreate | execLookup _ _ | execAssign _ | execDown _
  | execReadLoad _ | execReturn _ _ | loading | loadReturned _ | waitSearch _ | waitDown _
  | waitReadStatus _ | waitUp _ _ | waitReturn _ _ => false

/-- The members of `struct thread` that tie a process to its parent and its
children. The last five record the history of the run: the thread that created
this one, what `load` returned, the status the thread ends with once it has
started to exit, the children `process_wait` has been called for, and the
children that have raised `sema_parent_block` and that no `process_wait` has
been woken for. -/
structure Thread where
  pc : Pc
  parent : Option ℕ
  children : List ℕ
  semaParentBlock : ℕ
  execBlock : ℕ
  waitBlock : ℕ
  exitStatus : ℤ
  load : Bool
  creator : Option ℕ
  loadResult : Option Bool
  died : Option ℤ
  waited : List ℕ
  raised : List ℕ
deriving DecidableEq

inductive Fault
  | nullChild
  | badParent
  | freedThread
  | badLine
deriving DecidableEq

/-- The threads by their identifiers. -/
structure Threads where
  thread : ℕ → Option Thread
  nextTid : ℕ
  fault : Option Fault

namespace Threads

def put (threads : Threads) (tid : ℕ) (thread : Thread) : Threads :=
  { threads with thread := update threads.thread tid (some thread) }

@[simp]
lemma thread_put (threads : Threads) (tid : ℕ) (thr : Thread) :
  (threads.put tid thr).thread = update threads.thread tid (some thr) :=
  rfl

@[simp]
lemma nextTid_put (threads : Threads) (tid : ℕ) (thr : Thread) :
  (threads.put tid thr).nextTid = threads.nextTid :=
  rfl

@[simp]
lemma fault_put (threads : Threads) (tid : ℕ) (thr : Thread) :
  (threads.put tid thr).fault = threads.fault :=
  rfl

def stop (threads : Threads) (fault : Fault) : Threads :=
  { threads with fault := some fault }

def live (threads : Threads) (tid : ℕ) : Bool :=
  match threads.thread tid with
  | some thread => thread.pc ≠ .dead
  | none => false

/-- The element of `all_list` that follows the one of `elem`. The list holds the
live threads in the order of their creation. -/
def allNext (threads : Threads) (elem : ℕ) : Option ℕ :=
  (List.range threads.nextTid).find? fun tid => elem < tid && threads.live tid

end Threads

def initThread (creator : ℕ) : Thread where
  pc := .loading
  parent := some creator
  children := []
  semaParentBlock := 0
  execBlock := 0
  waitBlock := 0
  exitStatus := -1
  load := true
  creator := some creator
  loadResult := none
  died := none
  waited := []
  raised := []

def mainThread : Thread :=
  { initThread 0 with pc := .user, parent := none, children := [2], creator := none }

def idleThread : Thread :=
  { initThread 1 with pc := .idle }

def boot : Threads where
  thread := update (update (fun _ => none) 2 (some idleThread)) 1
    (some mainThread)
  nextTid := 3
  fault := none

/-- The line and its terminator fit into `char s[100]`, and `strtok_r` finds a word in it. -/
def Accepted (line : List Byte) : Prop := line.length < 100 ∧ ∃ byte ∈ line, byte ≠ 32
deriving Decidable

/-- What a condition on the runs can see of a step. -/
inductive Label
  | other
  | copyLine (line : List Byte)
  | threadCreate (created : Bool)
  | readLoad (child : ℕ)
  | takeSignal (child : ℕ)
  | clearParent (child : ℕ)
deriving DecidableEq

def Thread.threadExit (thread : Thread) (status : ℤ) : Thread :=
  { thread with pc := .exitClear thread.children, died := some status }

inductive Move : Thread → Label → Thread → Prop
  | exec {thread : Thread} (stands : thread.pc = .user) :
      Move thread .other { thread with pc := .execEntered }
  | wait {thread : Thread} (tid : ℤ) (stands : thread.pc = .user) :
      Move thread .other { thread with pc := .waitSearch tid }
  | exit {thread : Thread} (status : ℤ) (stands : thread.pc = .user) :
      Move thread .other ({ thread with exitStatus := status }.threadExit status)
  | kill {thread : Thread} (stands : thread.pc = .user) :
      Move thread .other (thread.threadExit (-1))
  | copyFailed {thread : Thread} (stands : thread.pc = .execEntered) :
      Move thread .other { thread with pc := .execReturn none (-1) }
  | copied {thread : Thread} {line : List Byte} (stands : thread.pc = .execEntered)
      (accepted : Accepted line) : Move thread (.copyLine line) { thread with pc := .execCreate }
  | lookupEnded {thread : Thread} {tid : Option ℕ} (stands : thread.pc = .execLookup tid none) :
      Move thread .other { thread with pc := .execAssign none }
  | execDown {thread : Thread} {child : ℕ} (stands : thread.pc = .execDown child)
      (up : 0 < thread.execBlock) :
      Move thread .other
        { thread with execBlock := thread.execBlock - 1, pc := .execReadLoad child }
  | execReturn {thread : Thread} {child : Option ℕ} {result : ℤ}
      (stands : thread.pc = .execReturn child result) :
      Move thread .other { thread with pc := .user }
  | loaded {thread : Thread} (stands : thread.pc = .loadReturned true) :
      Move thread .other { thread with pc := .user }
  | loadFailed {thread : Thread} (stands : thread.pc = .loadReturned false) :
      Move thread .other ({ thread with load := false }.threadExit (-1))
  | waitFound {thread : Thread} {tid : ℤ} {child : ℕ} (stands : thread.pc = .waitSearch tid)
      (isChild : child ∈ thread.children) (found : (child : ℤ) = tid) :
      Move thread .other { thread with
        children := thread.children.erase child
        waited := child :: thread.waited
        pc := .waitDown child }
  | waitMissed {thread : Thread} {tid : ℤ} (stands : thread.pc = .waitSearch tid)
      (missed : ∀ child ∈ thread.children, (child : ℤ) ≠ tid) :
      Move thread .other { thread with pc := .waitReturn none (-1) }
  | waitDown {thread : Thread} {child : ℕ} (stands : thread.pc = .waitDown child)
      (up : 0 < thread.semaParentBlock) :
      Move thread (.takeSignal child) { thread with
        semaParentBlock := thread.semaParentBlock - 1
        raised := thread.raised.erase child
        pc := .waitReadStatus child }
  | waitReturn {thread : Thread} {child : Option ℕ} {result : ℤ}
      (stands : thread.pc = .waitReturn child result) :
      Move thread .other { thread with pc := .user }
  | exitCleared {thread : Thread} (stands : thread.pc = .exitClear []) :
      Move thread .other { thread with pc := .exitTest }
  | exitOrphan {thread : Thread} (stands : thread.pc = .exitTest)
      (orphan : thread.parent = none) :
      Move thread .other { thread with pc := .exitFinish }
  | exitChild {thread : Thread} (stands : thread.pc = .exitTest)
      (hasParent : thread.parent ≠ none) :
      Move thread .other { thread with pc := .exitReread }
  | exitReread {thread : Thread} (stands : thread.pc = .exitReread) :
      Move thread .other { thread with pc := .exitUp thread.parent }
  | exitDown {thread : Thread} (stands : thread.pc = .exitDown) (up : 0 < thread.waitBlock) :
      Move thread .other { thread with waitBlock := thread.waitBlock - 1, pc := .exitFinish }
  | exitFinish {thread : Thread} (stands : thread.pc = .exitFinish) :
      Move thread .other { thread with pc := .dead }

/-- The pointer to another thread that the next statement follows, and what is
recorded when it is null or dangles. -/
def Thread.follows (thread : Thread) : Option (Option ℕ × Fault) :=
  match thread.pc with
  | .execLookup _ (some elem) => some (some elem, .freedThread)
  | .execAssign none => some (none, .nullChild)
  | .execAssign (some child) => some (some child, .freedThread)
  | .execReadLoad child => some (some child, .freedThread)
  | .loading => some (thread.parent, .badParent)
  | .waitReadStatus child => some (some child, .freedThread)
  | .waitUp child _ => some (some child, .freedThread)
  | .exitClear (child :: _) => some (some child, .freedThread)
  | .exitNext child _ => some (some child, .freedThread)
  | .exitUp parent => some (parent, .badParent)
  | _ => none

inductive Look (threads : Threads) (thread : Thread) : Label → Pc → Prop
  | createFailed (stands : thread.pc = .execCreate) :
      Look threads thread (.threadCreate false) (.execLookup none (threads.allNext 0))
  | lookupFound {elem : ℕ} (stands : thread.pc = .execLookup (some elem) (some elem))
      (inUse : threads.live elem = true) : Look threads thread .other (.execAssign (some elem))
  | lookupNext {target : Option ℕ} {elem : ℕ}
      (stands : thread.pc = .execLookup target (some elem)) (missed : target ≠ some elem)
      (inUse : threads.live elem = true) :
      Look threads thread .other (.execLookup target (threads.allNext elem))
  | readLoad {child : ℕ} {childThread : Thread} (stands : thread.pc = .execReadLoad child)
      (isChild : threads.thread child = some childThread) (inUse : threads.live child = true) :
      Look threads thread (.readLoad child)
        (.execReturn (some child) (if childThread.load then child else -1))
  | readStatus {child : ℕ} {childThread : Thread} (stands : thread.pc = .waitReadStatus child)
      (isChild : threads.thread child = some childThread) (inUse : threads.live child = true) :
      Look threads thread .other (.waitUp child childThread.exitStatus)
  | next {child : ℕ} {rest : List ℕ} (stands : thread.pc = .exitNext child rest)
      (inUse : threads.live child = true) : Look threads thread .other (.exitClear rest)

/-- How the next statement fails. -/
inductive Fails (threads : Threads) (thread : Thread) : Label → Fault → Prop
  | pointer {pointer : Option ℕ} {fault : Fault} (follows : thread.follows = some (pointer, fault))
      (bad : ∀ target, pointer = some target → threads.live target = false) :
      Fails threads thread .other fault
  | line {line : List Byte} (stands : thread.pc = .execEntered) (bad : ¬Accepted line) :
      Fails threads thread (.copyLine line) .badLine

inductive Step (threads : Threads) (tid : ℕ) : Label → Threads → Prop
  | own {thread after : Thread} {label : Label} (isThread : threads.thread tid = some thread)
      (moves : Move thread label after) : Step threads tid label (threads.put tid after)
  | look {thread : Thread} {label : Label} {pc : Pc} (isThread : threads.thread tid = some thread)
      (looks : Look threads thread label pc) :
      Step threads tid label (threads.put tid { thread with pc := pc })
  | created {thread : Thread} {added : Threads} (isThread : threads.thread tid = some thread)
      (stands : thread.pc = .execCreate)
      (isAdded : added = { threads.put threads.nextTid (initThread tid) with
        nextTid := threads.nextTid + 1 }) :
      Step threads tid (.threadCreate true) (added.put tid { thread with
        children := thread.children ++ [threads.nextTid]
        pc := .execLookup (some threads.nextTid) (added.allNext 0) })
  | assign {thread childThread : Thread} {child : ℕ} (isThread : threads.thread tid = some thread)
      (stands : thread.pc = .execAssign (some child))
      (isChild : threads.thread child = some childThread) (inUse : threads.live child = true) :
      Step threads tid .other
        ((threads.put child { childThread with parent := some tid }).put tid
          { thread with pc := .execDown child })
  | loadDone {thread parentThread : Thread} {parent : ℕ} (success : Bool)
      (isThread : threads.thread tid = some thread) (stands : thread.pc = .loading)
      (hasParent : thread.parent = some parent)
      (isParent : threads.thread parent = some parentThread)
      (inUse : threads.live parent = true) :
      Step threads tid .other
        ((threads.put parent { parentThread with execBlock := parentThread.execBlock + 1 }).put
          tid { thread with loadResult := some success, pc := .loadReturned success })
  | waitUp {thread childThread : Thread} {child : ℕ} {stat : ℤ}
      (isThread : threads.thread tid = some thread) (stands : thread.pc = .waitUp child stat)
      (isChild : threads.thread child = some childThread) (inUse : threads.live child = true) :
      Step threads tid .other
        ((threads.put child { childThread with waitBlock := childThread.waitBlock + 1 }).put tid
          { thread with pc := .waitReturn (some child) stat })
  | clear {thread childThread : Thread} {child : ℕ} {rest : List ℕ}
      (isThread : threads.thread tid = some thread)
      (stands : thread.pc = .exitClear (child :: rest))
      (isChild : threads.thread child = some childThread) (inUse : threads.live child = true) :
      Step threads tid (.clearParent child)
        ((threads.put child { childThread with parent := none }).put tid
          { thread with pc := .exitNext child rest })
  | exitUp {thread parentThread : Thread} {parent : ℕ}
      (isThread : threads.thread tid = some thread)
      (stands : thread.pc = .exitUp (some parent))
      (isParent : threads.thread parent = some parentThread)
      (inUse : threads.live parent = true) :
      Step threads tid .other
        ((threads.put parent { parentThread with
          semaParentBlock := parentThread.semaParentBlock + 1
          raised := tid :: parentThread.raised }).put tid { thread with pc := .exitDown })
  | faults {thread : Thread} {label : Label} {fault : Fault}
      (isThread : threads.thread tid = some thread) (fails : Fails threads thread label fault) :
      Step threads tid label (threads.stop fault)

def StepWhere (allowed : Threads → ℕ → Label → Prop) (threads after : Threads) : Prop :=
  threads.fault = none ∧ ∃ tid label, Step threads tid label after ∧ allowed threads tid label

abbrev ReachedWhere (allowed : Threads → ℕ → Label → Prop) : Threads → Prop :=
  Reachable (· = boot) (StepWhere allowed)

abbrev Reached : Threads → Prop :=
  ReachedWhere fun _ _ _ => True

end Pintos.Process
