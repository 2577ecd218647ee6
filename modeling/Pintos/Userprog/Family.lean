import Mathlib.Data.List.Nodup
import Pintos.Library.Lineage
import Pintos.Userprog.Process

/-!
# What holds in every run

The facts about threads and the threads they created that no schedule breaks: the
lists of a thread name its children, a child that has not been waited for stays
until its parent exits, and `exec_block` counts the one child being loaded.
-/

namespace Pintos.Process

open Function

namespace Pc

@[grind]
def waitsFor : Pc → Option ℕ
  | waitDown child | waitReadStatus child | waitUp child _ => some child
  | waitReturn child _ => child
  | user | idle | execEntered | execCreate | execLookup _ _ | execAssign _ | execDown _
  | execReadLoad _ | execReturn _ _ | loading | loadReturned _ | waitSearch _ | exitClear _
  | exitNext _ _ | exitTest | exitReread | exitUp _ | exitDown | exitFinish | dead => none

@[grind]
def clears : Pc → List ℕ
  | exitClear children | exitNext _ children => children
  | user | idle | execEntered | execCreate | execLookup _ _ | execAssign _ | execDown _
  | execReadLoad _ | execReturn _ _ | loading | loadReturned _ | waitSearch _ | waitDown _
  | waitReadStatus _ | waitUp _ _ | waitReturn _ _ | exitTest | exitReread | exitUp _
  | exitDown | exitFinish | dead => []

@[grind]
def creates : Pc → Option ℕ
  | execLookup child _ | execAssign child => child
  | execDown child => some child
  | user | idle | execEntered | execCreate | execReadLoad _ | execReturn _ _ | loading
  | loadReturned _ | waitSearch _ | waitDown _ | waitReadStatus _ | waitUp _ _
  | waitReturn _ _ | exitClear _ | exitNext _ _ | exitTest | exitReread | exitUp _
  | exitDown | exitFinish | dead => none

@[grind]
def executes : Pc → Option ℕ
  | execLookup child _ | execAssign child | execReturn child _ => child
  | execDown child | execReadLoad child => some child
  | user | idle | execEntered | execCreate | loading | loadReturned _ | waitSearch _
  | waitDown _ | waitReadStatus _ | waitUp _ _ | waitReturn _ _ | exitClear _ | exitNext _ _
  | exitTest | exitReread | exitUp _ | exitDown | exitFinish | dead => none

end Pc

attribute [grind] Pc.exiting Thread.threadExit

variable {child : ℕ} {thread after childThread : Thread} {threads : Threads}

@[grind →]
lemma Pc.running_of_creates {pc : Pc} (creates : pc.creates = some child) :
  pc.executes = some child ∧ pc.exiting = false := by
  cases pc <;> simp_all [Pc.creates, Pc.executes, Pc.exiting]

structure Listed (thread : Thread) : Prop where
  nodup : thread.children.Nodup
  apart : ∀ child ∈ thread.children, child ∉ thread.waited
  waitsFor : ∀ child, thread.pc.waitsFor = some child → child ∈ thread.waited
  clears : ∀ child ∈ thread.pc.clears, child ∈ thread.children
  executes : ∀ child, thread.pc.executes = some child → child ∈ thread.children

structure Executes (thread : Thread) : Prop where
  lookupEnd : ∀ tid, thread.pc = .execLookup tid none → tid = none
  lookup : ∀ child elem, thread.pc = .execLookup (some child) (some elem) → elem ≤ child
  execBlock : thread.execBlock ≤ 1
  execIdle : thread.pc.creates = none → thread.execBlock = 0

structure Points (thread : Thread) : Prop where
  loading : thread.pc = .loading → thread.creator ≠ none
  parentIs : ∀ parent, thread.parent = some parent → thread.creator = some parent
  upIs : ∀ parent, thread.pc = .exitUp (some parent) → thread.creator = some parent

structure Ends (thread : Thread) : Prop where
  ended : thread.pc.exiting = true → thread.died = some thread.exitStatus
  running : thread.pc.exiting = false → thread.exitStatus = -1 ∧ thread.died = none

structure Loads (thread : Thread) : Prop where
  load : thread.load = false ↔
    thread.loadResult = some false ∧ thread.pc ≠ .loadReturned false
  loading : thread.pc = .loading → thread.loadResult = none
  loaded : ∀ success, thread.pc = .loadReturned success → thread.loadResult = some success

structure FamilyOwn (thread : Thread) : Prop where
  listed : Listed thread
  executes : Executes thread
  points : Points thread
  ends : Ends thread
  loads : Loads thread

structure Held (tid : ℕ) (thread : Thread) (child : ℕ) (childThread : Thread) : Prop where
  listed : child ∈ thread.children ∨ child ∈ thread.waited
  waitBlock : child ∈ thread.children → childThread.waitBlock = 0
  parent : child ∈ thread.children → thread.pc.exiting = false → childThread.parent = some tid
  stays : child ∈ thread.children → thread.pc.exiting = false →
    childThread.pc ≠ .exitFinish ∧ childThread.pc ≠ .dead

structure Loaded (thread : Thread) (child : ℕ) (childThread : Thread) : Prop where
  loading : childThread.pc = .loading → thread.pc.creates = some child
  creates : thread.pc.creates = some child →
    childThread.pc = .loading ∧ thread.execBlock = 0 ∨
      childThread.pc ≠ .loading ∧ childThread.loadResult.isSome ∧ thread.execBlock = 1
  reads : thread.pc = .execReadLoad child → childThread.loadResult.isSome

structure FamilyKin (tid : ℕ) (thread : Thread) (child : ℕ) (childThread : Thread) : Prop where
  held : Held tid thread child childThread
  loaded : Loaded thread child childThread

attribute [grind cases] FamilyOwn Listed Executes Points Ends Loads FamilyKin Held Loaded

variable {label : Label}

section

variable (moves : Move thread label after)
include moves

lemma Move.creator_eq : after.creator = thread.creator := by
  cases moves <;> rfl

lemma Move.listed (inAfter : child ∈ after.children ∨ child ∈ after.waited) :
  child ∈ thread.children ∨ child ∈ thread.waited := by
  cases moves with
  | waitFound stands isChild found =>
    rcases inAfter with inChildren | inWaited
    · exact Or.inl (List.mem_of_mem_erase inChildren)
    rcases List.mem_cons.mp inWaited with rfl | inWaited
    · exact Or.inl isChild
    · exact Or.inr inWaited
  | _ => exact inAfter

lemma Move.pc_ne_loading : thread.pc ≠ .loading := by
  intro stands
  cases moves <;> simp_all only [reduceCtorEq]

end

lemma Look.pc_ne_loading {pc : Pc} (looks : Look threads thread label pc) :
  thread.pc ≠ .loading := by
  intro stands
  cases looks <;> simp_all only [reduceCtorEq]

inductive Turn (threads : Threads) (thread : Thread) : Thread → Prop
  | own {after : Thread} {label : Label} (moves : Move thread label after) :
      Turn threads thread after
  | look {label : Label} {pc : Pc} (looks : Look threads thread label pc) :
      Turn threads thread { thread with pc := pc }
  | assign {child : ℕ} (stands : thread.pc = .execAssign (some child)) :
      Turn threads thread { thread with pc := .execDown child }
  | loadDone {success : Bool} (stands : thread.pc = .loading) :
      Turn threads thread { thread with
        loadResult := some success, pc := .loadReturned success }
  | waitUp {child : ℕ} {stat : ℤ} (stands : thread.pc = .waitUp child stat) :
      Turn threads thread { thread with pc := .waitReturn (some child) stat }
  | clear {child : ℕ} {rest : List ℕ} (stands : thread.pc = .exitClear (child :: rest)) :
      Turn threads thread { thread with pc := .exitNext child rest }
  | exitUp {parent : Option ℕ} (stands : thread.pc = .exitUp parent) :
      Turn threads thread { thread with pc := .exitDown }

namespace Turn

variable {tid : ℕ}

section

variable (turn : Turn threads thread after)
include turn

lemma creator_eq : after.creator = thread.creator := by
  cases turn with
  | own moves => exact moves.creator_eq
  | _ => rfl

lemma keeps_listed (listed : Listed thread) : Listed after := by
  cases turn with
  | own moves => cases moves <;> constructor <;> grind -linarith
  | look looks => cases looks <;> constructor <;> grind -linarith
  | _ => constructor <;> grind -linarith

lemma keeps_executes (executes : Executes thread)
  (continues : ∀ child elem, thread.pc = .execLookup (some child) (some elem) → elem < child →
    ∃ cur ≤ child, threads.allNext elem = some cur) : Executes after := by
  rcases executes with ⟨lookupEnd, lookup, execBlock, execIdle⟩
  cases turn with
  | own moves => cases moves <;> constructor <;> grind -linarith
  | look looks =>
    cases looks with
    | lookupNext stands missed inUse =>
      rename_i target elem
      cases target with
      | none => constructor <;> grind -linarith
      | some child =>
        constructor <;> grind -linarith
    | _ => constructor <;> grind -linarith
  | _ => constructor <;> grind -linarith

lemma keeps_points (points : Points thread) : Points after := by
  cases turn with
  | own moves => cases moves <;> constructor <;> grind -linarith
  | look looks => cases looks <;> constructor <;> grind -linarith
  | _ => constructor <;> grind -linarith

lemma keeps_ends (ends : Ends thread) : Ends after := by
  cases turn with
  | own moves => cases moves <;> constructor <;> grind -linarith
  | look looks => cases looks <;> constructor <;> grind -linarith
  | _ => constructor <;> grind -linarith

lemma keeps_loads (loads : Loads thread) : Loads after := by
  cases turn with
  | own moves => cases moves <;> constructor <;> grind -linarith
  | look looks => cases looks <;> constructor <;> grind -linarith
  | _ => constructor <;> grind -linarith

lemma keeps_held_parent (held : Held tid thread child childThread) :
  Held tid after child childThread := by
  cases turn with
  | own moves => cases moves <;> constructor <;> grind -linarith
  | look looks => cases looks <;> constructor <;> grind -linarith
  | _ => constructor <;> grind -linarith

end

lemma keeps_held_child (turn : Turn threads childThread after)
  (held : Held tid thread child childThread) : Held tid thread child after := by
  cases turn with
  | own moves => cases moves <;> constructor <;> grind -linarith
  | look looks => cases looks <;> constructor <;> grind -linarith
  | _ => constructor <;> grind -linarith

lemma keeps_loaded_parent (turn : Turn threads thread after) (executes : Executes thread)
  (loaded : Loaded thread child childThread) : Loaded after child childThread := by
  cases turn with
  | own moves => cases moves <;> constructor <;> grind -linarith
  | look looks => cases looks <;> constructor <;> grind -linarith
  | _ => constructor <;> grind -linarith

lemma keeps_loaded_child (turn : Turn threads childThread after)
  (notLoading : childThread.pc ≠ .loading) (loaded : Loaded thread child childThread) :
  Loaded thread child after := by
  cases turn with
  | own moves => cases moves <;> constructor <;> grind -linarith
  | look looks => cases looks <;> constructor <;> grind -linarith
  | _ => constructor <;> grind -linarith

end Turn

/-- The creators form a tree whose links lead to older threads, and the lists of a
thread name threads it has created. -/
structure Tree (threads : Threads) : Prop where
  fresh : ∀ tid, threads.nextTid ≤ tid → threads.thread tid = none
  descends : Descends Thread.creator threads.thread
  rooted : ∀ {tid thread creator}, threads.thread tid = some thread →
    thread.creator = some creator → ∃ creatorThread, threads.thread creator = some creatorThread
  created : ∀ {tid thread child}, threads.thread tid = some thread →
    child ∈ thread.children ∨ child ∈ thread.waited →
      ∃ childThread, threads.thread child = some childThread ∧ childThread.creator = some tid

namespace Tree

variable {tid : ℕ} {moved : Thread}

lemma lt_nextTid (tree : Tree threads) (isThr : threads.thread tid = some thread) :
  tid < threads.nextTid := by
  by_contra notBelow
  rw [tree.fresh tid (Nat.le_of_not_lt notBelow)] at isThr
  cases isThr

lemma put (tree : Tree threads) (isThr : threads.thread tid = some thread)
  (sameCreator : moved.creator = thread.creator)
  (created : ∀ {child}, child ∈ moved.children ∨ child ∈ moved.waited →
    ∃ childThread, threads.thread child = some childThread ∧
      childThread.creator = some tid) : Tree (threads.put tid moved) := by
  have lineage := tree.descends.put isThr sameCreator
  have thrAt : ∀ other, (threads.put tid moved).thread other =
      if other = tid then some moved else threads.thread other :=
    fun _ => update_apply ..
  have next : (threads.put tid moved).nextTid = threads.nextTid := rfl
  rcases tree with ⟨fresh, _, rooted, wasCreated⟩
  refine ⟨?_, lineage, ?_, ?_⟩ <;> grind

lemma putKin {parent : ℕ} {parentThr parentMoved childMoved : Thread} (tree : Tree threads)
  (isParent : threads.thread parent = some parentThr)
  (isChild : threads.thread child = some childThread)
  (isCreator : childThread.creator = some parent)
  (sameParent : parentMoved.creator = parentThr.creator)
  (sameChild : childMoved.creator = childThread.creator)
  (withinParent : parentMoved.children = parentThr.children ∧
    parentMoved.waited = parentThr.waited)
  (withinChild : childMoved.children = childThread.children ∧
    childMoved.waited = childThread.waited) :
  Tree ((threads.put child childMoved).put parent parentMoved) := by
  have different : parent ≠ child := Nat.ne_of_lt (tree.descends isChild isCreator)
  have isParentPut : (threads.put child childMoved).thread parent = some parentThr :=
    (update_of_ne different ..).trans isParent
  have childPut : Tree (threads.put child childMoved) := by
    refine tree.put isChild sameChild ?_
    rw [withinChild.1, withinChild.2]
    exact tree.created isChild
  refine childPut.put isParentPut sameParent ?_
  rw [withinParent.1, withinParent.2]
  exact childPut.created isParentPut

lemma add {added : Threads} (tree : Tree threads) (isThr : threads.thread tid = some thread)
  (isAdded : added = { threads.put threads.nextTid (initThread tid) with
    nextTid := threads.nextTid + 1 }) (sameCreator : moved.creator = thread.creator)
  (children : moved.children = thread.children ++ [threads.nextTid])
  (waited : moved.waited = thread.waited) : Tree (added.put tid moved) := by
  have bound : ∀ {other otherThr}, threads.thread other = some otherThr →
      other < threads.nextTid := tree.lt_nextTid
  have older : tid < threads.nextTid := bound isThr
  have thrAt : ∀ other, added.thread other =
      if other = threads.nextTid then some (initThread tid) else threads.thread other := by
    rw [isAdded]
    exact fun _ => update_apply ..
  have isThrAdded : added.thread tid = some thread := by grind
  have addedTree : Tree added := by
    have lineage : Descends Thread.creator added.thread := by
      rw [isAdded]
      exact tree.descends.add rfl older
    rcases tree with ⟨fresh, _, rooted, created⟩
    refine ⟨?_, lineage, ?_, ?_⟩ <;> grind [initThread]
  refine addedTree.put isThrAdded sameCreator ?_
  intro child listed
  have created := @addedTree.created
  grind [initThread]

end Tree

end Pintos.Process
