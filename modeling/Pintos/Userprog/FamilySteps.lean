import Pintos.Userprog.Family
import Pintos.Userprog.Schedule

/-!
# Every step keeps the family in order

The statements that touch two threads always touch a thread and one it created:
the lists and pointers they follow say so. With that every step of every run
keeps the facts about threads and their children.
-/

namespace Pintos

open Function

namespace Process

variable {tid : ℕ} {thread : Thread}

namespace Threads

variable {threads : Threads} {other : ℕ} {otherThr : Thread}

lemma live_of_pc (isThr : threads.thread tid = some thread) (stays : thread.pc ≠ .dead) :
  threads.live tid = true := by
  simp [live, isThr, ne_eq, stays]

lemma allNext_le {elem : ℕ} (inUse : threads.live tid = true) (known : tid < threads.nextTid)
  (later : elem < tid) : ∃ cur ≤ tid, threads.allNext elem = some cur := by
  cases found : threads.allNext elem with
  | none =>
    have missed := List.find?_eq_none.mp found tid (List.mem_range.mpr known)
    simp only [later, inUse, decide_true, Bool.and_self, not_true_eq_false] at missed
  | some cur =>
    refine ⟨cur, ?_, rfl⟩
    by_contra past
    have prior := (List.find?_range_eq_some.mp found).2.2 tid (Nat.lt_of_not_le past)
    simp only [later, inUse, decide_true, Bool.and_self, Bool.not_true, Bool.false_eq_true]
      at prior

lemma put_comm (different : tid ≠ other) : (threads.put tid thread).put other otherThr =
    (threads.put other otherThr).put tid thread := by
  simp [put, update_comm different]

lemma put_self (isThr : threads.thread tid = some thread) :
  threads.put tid thread = threads := by
  simp [put, ← isThr]

end Threads

lemma boot_eq_some (isThr : boot.thread tid = some thread) :
  tid = 1 ∧ thread = mainThread ∨ tid = 2 ∧ thread = idleThread := by
  rcases update_some_eq_some isThr with ⟨rfl, rfl⟩ | ⟨-, notMain⟩
  · exact Or.inl ⟨rfl, rfl⟩
  rcases update_some_eq_some notMain with ⟨rfl, rfl⟩ | ⟨-, notIdle⟩
  · exact Or.inr ⟨rfl, rfl⟩
  · cases notIdle

/-- At boot, the main thread has created the idle thread, and there are no others. -/
lemma holds_boot {Own : Thread → Prop} {Kin : ℕ → Thread → ℕ → Thread → Prop}
  (main : Own mainThread) (idle : Own idleThread) (kin : Kin 1 mainThread 2 idleThread) :
  Holds Thread.creator Own Kin boot.thread := by
  refine ⟨?_, ?_⟩
  · intro tid thread isThr
    rcases boot_eq_some isThr with ⟨rfl, rfl⟩ | ⟨rfl, rfl⟩
    · exact main
    · exact idle
  intro tid thread child childThread isThr isChild isCreator
  rcases boot_eq_some isChild with ⟨rfl, rfl⟩ | ⟨rfl, rfl⟩
  · cases isCreator
  rcases boot_eq_some isThr with ⟨rfl, rfl⟩ | ⟨rfl, rfl⟩
  · exact kin
  · cases isCreator

section Touch

variable {child : ℕ}

lemma FamilyOwn.of_create (own : FamilyOwn thread) (stands : thread.pc = .execCreate) {elem : ℕ}
  (newChild : child ∉ thread.children) (notWaited : child ∉ thread.waited) (pre : elem ≤ child) :
  FamilyOwn { thread with
    children := thread.children ++ [child], pc := .execLookup (some child) (some elem) } := by
  rcases own with ⟨⟨nodup, apart, waitsFor, clears, executes⟩, executing, points, ends, loads⟩
  refine ⟨⟨?_, ?_, ?_, ?_, ?_⟩, ?_, ?_, ?_, ?_⟩
  · exact List.nodup_append.mpr ⟨nodup, List.nodup_singleton child, by grind -linarith⟩
  all_goals first | grind -linarith | (constructor <;> grind -linarith)

lemma FamilyOwn.of_initThread : FamilyOwn (initThread tid) := by
  constructor <;> constructor <;>
    simp [initThread, Pc.waitsFor, Pc.clears, Pc.executes, Pc.exiting]

lemma FamilyKin.of_initThread {elem : Option ℕ} (executes : Executes thread)
  (stands : thread.pc = .execCreate) : FamilyKin tid { thread with
    children := thread.children ++ [child], pc := .execLookup (some child) elem } child
    (initThread tid) := by
  constructor <;> constructor <;> grind -linarith [initThread]

end Touch

/-- What a step of the thread `tid` does to a thread: to itself, or to its parent or a child. -/
inductive OwnStep (threads after : Threads) (tid : ℕ) : ℕ → Thread → Thread → Prop
  | turn {thread moved : Thread} (isThread : threads.thread tid = some thread)
      (isMoved : after.thread tid = some moved) (turn : Turn threads thread moved) :
      OwnStep threads after tid tid thread moved
  | create {thread : Thread} {elem : ℕ} (isThread : threads.thread tid = some thread)
      (stands : thread.pc = .execCreate) (before : elem ≤ threads.nextTid) :
      OwnStep threads after tid tid thread { thread with
        children := thread.children ++ [threads.nextTid]
        pc := .execLookup (some threads.nextTid) (some elem) }
  | loadUp {parent : ℕ} {thread childThread : Thread}
      (isParent : threads.thread parent = some thread)
      (isThread : threads.thread tid = some childThread)
      (isCreator : childThread.creator = some parent) (stands : childThread.pc = .loading) :
      OwnStep threads after tid parent thread { thread with execBlock := thread.execBlock + 1 }
  | exitUp {parent : ℕ} {thread childThread : Thread}
      (isParent : threads.thread parent = some thread)
      (isThread : threads.thread tid = some childThread)
      (isCreator : childThread.creator = some parent)
      (stands : childThread.pc = .exitUp (some parent)) :
      OwnStep threads after tid parent thread { thread with
        semaParentBlock := thread.semaParentBlock + 1, raised := tid :: thread.raised }
  | waitUp {child : ℕ} {childThread : Thread} :
      OwnStep threads after tid child childThread
        { childThread with waitBlock := childThread.waitBlock + 1 }
  | cleared {child : ℕ} {rest : List ℕ} {thread childThread : Thread}
      (isThread : threads.thread tid = some thread)
      (stands : thread.pc = .exitClear (child :: rest))
      (isChild : threads.thread child = some childThread) :
      OwnStep threads after tid child childThread { childThread with parent := none }

inductive PairStep (threads after : Threads) (tid : ℕ) :
    ℕ → Thread → Thread → ℕ → Thread → Thread → Prop
  | parentTurn {child : ℕ} {thread moved childThread : Thread}
      (isThread : threads.thread tid = some thread) (isMoved : after.thread tid = some moved)
      (isChild : threads.thread child = some childThread)
      (isCreator : childThread.creator = some tid) (turn : Turn threads thread moved)
      (notUp : ∀ stat, thread.pc ≠ .waitUp child stat)
      (notClear : ∀ rest, thread.pc ≠ .exitClear (child :: rest)) :
      PairStep threads after tid tid thread moved child childThread childThread
  | childTurn {parent : ℕ} {thread childThread moved : Thread}
      (isThread : threads.thread tid = some childThread) (turn : Turn threads childThread moved)
      (notLoading : childThread.pc ≠ .loading) :
      PairStep threads after tid parent thread thread tid childThread moved
  | parentCreate {child : ℕ} {elem : Option ℕ} {thread childThread : Thread}
      (stands : thread.pc = .execCreate) (older : child < threads.nextTid) :
      PairStep threads after tid tid thread { thread with
        children := thread.children ++ [threads.nextTid]
        pc := .execLookup (some threads.nextTid) elem } child childThread childThread
  | childCreate {parent : ℕ} {elem : Option ℕ} {thread childThread : Thread}
      (stands : childThread.pc = .execCreate) :
      PairStep threads after tid parent thread thread tid childThread { childThread with
        children := childThread.children ++ [threads.nextTid]
        pc := .execLookup (some threads.nextTid) elem }
  | loadDone {parent : ℕ} {success : Bool} {thread childThread : Thread}
      (isThread : threads.thread tid = some childThread) (stands : childThread.pc = .loading) :
      PairStep threads after tid parent thread { thread with execBlock := thread.execBlock + 1 } tid
        childThread { childThread with loadResult := some success, pc := .loadReturned success }
  | siblingLoad {parent other : ℕ} {thread childThread otherThread : Thread}
      (isParent : threads.thread parent = some thread)
      (isThread : threads.thread tid = some childThread)
      (isCreator : childThread.creator = some parent) (stands : childThread.pc = .loading)
      (different : other ≠ tid) :
      PairStep threads after tid parent thread { thread with execBlock := thread.execBlock + 1 }
        other otherThread otherThread
  | waitUp {child : ℕ} {stat : ℤ} {thread childThread : Thread}
      (isThread : threads.thread tid = some thread) (stands : thread.pc = .waitUp child stat)
      (isChild : threads.thread child = some childThread)
      (isCreator : childThread.creator = some tid) :
      PairStep threads after tid tid thread { thread with pc := .waitReturn (some child) stat }
        child childThread { childThread with waitBlock := childThread.waitBlock + 1 }
  | clear {child : ℕ} {rest : List ℕ} {thread childThread : Thread}
      (stands : thread.pc = .exitClear (child :: rest)) :
      PairStep threads after tid tid thread { thread with pc := .exitNext child rest }
        child childThread { childThread with parent := none }
  | exitUp {parent : ℕ} {thread childThread : Thread}
      (isThread : threads.thread tid = some childThread)
      (stands : childThread.pc = .exitUp (some parent)) :
      PairStep threads after tid parent thread { thread with
        semaParentBlock := thread.semaParentBlock + 1, raised := tid :: thread.raised } tid
        childThread { childThread with pc := .exitDown }
  | siblingUp {parent other : ℕ} {thread otherThread : Thread} (different : other ≠ tid) :
      PairStep threads after tid parent thread { thread with
        semaParentBlock := thread.semaParentBlock + 1, raised := tid :: thread.raised }
        other otherThread otherThread
  | touchedChild {parent child count blocked : ℕ} {raised : List ℕ} {thread childThread : Thread} :
      PairStep threads after tid parent thread thread child childThread { childThread with
        execBlock := count, semaParentBlock := blocked, raised := raised }
  | touchedParent {parent child count : ℕ} {pointer : Option ℕ} {thread childThread : Thread} :
      PairStep threads after tid parent thread
        { thread with parent := pointer, waitBlock := count } child childThread childThread

structure Family (threads : Threads) : Prop where
  tree : Tree threads
  holds : Holds Thread.creator FamilyOwn FamilyKin threads.thread

namespace Family

variable {threads after : Threads} {child parent : ℕ} {childThr moved : Thread} {label : Label}

section

variable (family : Family threads)
include family

section

variable (isThr : threads.thread tid = some thread)

include isThr

lemma isCreator_of_parent (hasParent : thread.parent = some parent) :
  thread.creator = some parent :=
  (family.holds.own isThr).points.parentIs parent hasParent

lemma isCreator_of_listed (listed : child ∈ thread.children ∨ child ∈ thread.waited)
  (isChild : threads.thread child = some childThr) : childThr.creator = some tid := by
  rcases family.tree.created isThr listed with ⟨created, isCreated, isCreator⟩
  rw [isChild] at isCreated
  cases isCreated
  exact isCreator

lemma isCreator_of_waitUp {stat : ℤ} (stands : thread.pc = .waitUp child stat)
  (isChild : threads.thread child = some childThr) :
  childThr.creator = some tid :=
  family.isCreator_of_listed isThr
    (Or.inr ((family.holds.own isThr).listed.waitsFor child (by rw [stands]; rfl))) isChild

lemma isCreator_of_clear {rest : List ℕ} (stands : thread.pc = .exitClear (child :: rest))
  (isChild : threads.thread child = some childThr) : childThr.creator = some tid :=
  family.isCreator_of_listed isThr (Or.inl ((family.holds.own isThr).listed.clears child
    (by rw [stands]; exact List.mem_cons_self ..))) isChild

lemma live_of_child (isChild : child ∈ thread.children) (running : thread.pc.exiting = false) :
  child < threads.nextTid ∧ threads.live child = true := by
  rcases family.tree.created isThr (Or.inl isChild) with ⟨created, isCreated, isCreator⟩
  have held := (family.holds.kin isThr isCreated isCreator).held
  exact ⟨family.tree.lt_nextTid isCreated,
    Threads.live_of_pc isCreated (held.stays isChild running).2⟩

lemma continues (child elem : ℕ) (stands : thread.pc = .execLookup (some child) (some elem))
  (later : elem < child) :
  ∃ cur ≤ child, threads.allNext elem = some cur := by
  have isChild := (family.holds.own isThr).listed.executes child (by rw [stands]; rfl)
  rcases family.live_of_child isThr isChild (by rw [stands]; rfl) with ⟨known, inUse⟩
  exact Threads.allNext_le inUse known later

lemma assign_eq (stands : thread.pc = .execAssign (some child))
  (isChild : threads.thread child = some childThr) :
  threads.put child { childThr with parent := some tid } = threads := by
  have listed := (family.holds.own isThr).listed.executes child (by rw [stands]; rfl)
  have isCreator := family.isCreator_of_listed isThr (Or.inl listed) isChild
  have hasParent := (family.holds.kin isThr isChild isCreator).held.parent listed
    (by rw [stands]; rfl)
  rw [← hasParent]
  exact Threads.put_self isChild

end

lemma elem_of_created {added : Threads} (isThr : threads.thread tid = some thread)
  (isAdded : added = { threads.put threads.nextTid (initThread tid) with
    nextTid := threads.nextTid + 1 }) :
  ∃ elem ≤ threads.nextTid, added.allNext 0 = some elem := by
  have older := family.tree.lt_nextTid isThr
  have isNew : added.thread threads.nextTid = some (initThread tid) := by
    rw [isAdded]
    exact update_self ..
  refine Threads.allNext_le (Threads.live_of_pc isNew ?_) ?_ (Nat.zero_lt_of_lt older)
  · simp [initThread, ne_eq]
  rw [isAdded]
  exact Nat.lt_succ_self _

end

variable {Own : Thread → Prop} {Kin : ℕ → Thread → ℕ → Thread → Prop}

lemma holds_step (family : Family threads) (running : threads.fault = none)
  (holds : Holds Thread.creator Own Kin threads.thread) (taken : Step threads tid label after)
  (own : after.fault = none → ∀ {idx thread moved}, threads.thread idx = some thread →
    OwnStep threads after tid idx thread moved → Own thread → Own moved)
  (kin : after.fault = none → ∀ {parent thread moved child childThr childMoved},
    PairStep threads after tid parent thread moved child childThr childMoved →
      Kin parent thread child childThr → Kin parent moved child childMoved)
  (ownNew : Own (initThread tid))
  (kinNew : ∀ {thread elem}, threads.thread tid = some thread → thread.pc = .execCreate →
    Kin tid { thread with
      children := thread.children ++ [threads.nextTid]
      pc := .execLookup (some threads.nextTid) elem } threads.nextTid (initThread tid)) :
  Holds Thread.creator Own Kin after.thread := by
  have descends := family.tree.descends
  have ofTurn : ∀ {thread moved}, threads.thread tid = some thread → Turn threads thread moved →
      thread.pc ≠ .loading → (∀ child stat, thread.pc ≠ .waitUp child stat) →
      (∀ child rest, thread.pc ≠ .exitClear (child :: rest)) → after = threads.put tid moved →
      Holds Thread.creator Own Kin after.thread := by
    rintro thread moved isThr turn notLoading notUp notClear rfl
    have isMoved : (threads.put tid moved).thread tid = some moved := update_self ..
    exact holds.put descends isThr turn.creator_eq
      (own running isThr (.turn isThr isMoved turn) (holds.own isThr))
      (fun isChild isCreator => kin running
        (.parentTurn isThr isMoved isChild isCreator turn (notUp _) (notClear _)))
      (fun _ _ => kin running (.childTurn isThr turn notLoading))
  cases taken with
  | own isThr moves =>
    refine ofTurn isThr (.own moves) moves.pc_ne_loading ?_ ?_ rfl <;>
      (intro _ _ stands; cases moves <;> simp_all only [reduceCtorEq])
    cases stands
  | look isThr looks =>
    refine ofTurn isThr (.look looks) looks.pc_ne_loading ?_ ?_ rfl <;>
      (intro _ _ stands; cases looks <;> simp_all only [reduceCtorEq])
  | assign isThr stands isChild inUse =>
    exact ofTurn isThr (.assign stands) (by simp [stands]) (by simp [stands])
      (by simp [stands]) (by rw [family.assign_eq isThr stands isChild])
  | @created thread added isThr stands isAdded =>
    rcases family.elem_of_created isThr isAdded with ⟨elem, pre, isFirst⟩
    subst isAdded
    rw [isFirst]
    exact holds.add descends isThr (family.tree.lt_nextTid isThr) family.tree.fresh rfl rfl
      (own running isThr (.create isThr stands pre) (holds.own isThr)) ownNew
      (kinNew isThr stands)
      (fun isOther _ => kin running (.parentCreate stands (family.tree.lt_nextTid isOther)))
      (fun _ _ => kin running (.childCreate stands))
  | @loadDone thread parentThr parent success isThr stands hasParent isParent inUse =>
    have isCreator := family.isCreator_of_parent isThr hasParent
    have turn : Turn threads thread { thread with
      loadResult := some success, pc := .loadReturned success } := .loadDone stands
    have different := Nat.ne_of_lt (descends isThr isCreator)
    refine (congrArg (Holds Thread.creator Own Kin) (congrArg Threads.thread
      (Threads.put_comm different))).mpr ?_
    exact holds.putKin descends isParent isThr isCreator rfl rfl
      (own running isParent (.loadUp isParent isThr isCreator stands) (holds.own isParent))
      (own running isThr (.turn isThr (update_self ..) turn) (holds.own isThr))
      (kin running (.loadDone isThr stands) (holds.kin isParent isThr isCreator))
      (fun different _ _ => kin running (.siblingLoad isParent isThr isCreator stands different))
      (fun _ _ => kin running .touchedChild)
      (fun isOther isCreated => kin running (.parentTurn isThr (update_self ..)
        isOther isCreated turn (by simp [stands]) (by simp [stands])))
  | @waitUp thread childThr child stat isThr stands isChild inUse =>
    have isCreator := family.isCreator_of_waitUp isThr stands isChild
    have turn : Turn threads thread { thread with pc := .waitReturn (some child) stat } :=
      .waitUp stands
    exact holds.putKin descends isThr isChild isCreator rfl rfl
      (own running isThr (.turn isThr (update_self ..) turn) (holds.own isThr))
      (own running isChild .waitUp (holds.own isChild))
      (kin running (.waitUp isThr stands isChild isCreator)
        (holds.kin isThr isChild isCreator))
      (fun different isOther isCreated => kin running (.parentTurn isThr
        (update_self ..) isOther isCreated turn (by simp [stands, different.symm])
          (by simp [stands])))
      (fun _ _ => kin running (.childTurn isThr turn (by simp [stands])))
      (fun _ _ => kin running .touchedParent)
  | @clear thread childThr child rest isThr stands isChild inUse =>
    have isCreator := family.isCreator_of_clear isThr stands isChild
    have turn : Turn threads thread { thread with pc := .exitNext child rest } := .clear stands
    exact holds.putKin descends isThr isChild isCreator rfl rfl
      (own running isThr (.turn isThr (update_self ..) turn) (holds.own isThr))
      (own running isChild (.cleared isThr stands isChild) (holds.own isChild))
      (kin running (.clear stands) (holds.kin isThr isChild isCreator))
      (fun different isOther isCreated => kin running (.parentTurn isThr
        (update_self ..) isOther isCreated turn (by simp [stands])
          (by simp [stands, different.symm])))
      (fun _ _ => kin running (.childTurn isThr turn (by simp [stands])))
      (fun _ _ => kin running .touchedParent)
  | @exitUp thread parentThr parent isThr stands isParent inUse =>
    have isCreator := (family.holds.own isThr).points.upIs parent stands
    have turn : Turn threads thread { thread with pc := .exitDown } := .exitUp stands
    have different := Nat.ne_of_lt (descends isThr isCreator)
    refine (congrArg (Holds Thread.creator Own Kin) (congrArg Threads.thread
      (Threads.put_comm different))).mpr ?_
    exact holds.putKin descends isParent isThr isCreator rfl rfl
      (own running isParent (.exitUp isParent isThr isCreator stands) (holds.own isParent))
      (own running isThr (.turn isThr (update_self ..) turn) (holds.own isThr))
      (kin running (.exitUp isThr stands) (holds.kin isParent isThr isCreator))
      (fun different _ _ => kin running (.siblingUp different))
      (fun _ _ => kin running .touchedChild)
      (fun isOther isCreated => kin running (.parentTurn isThr (update_self ..)
        isOther isCreated turn (by simp [stands]) (by simp [stands])))
  | faults isThr fails => exact holds

lemma own_step (family : Family threads) {idx : ℕ}
  (change : OwnStep threads after tid idx thread moved) (own : FamilyOwn thread) :
  FamilyOwn moved := by
  cases change with
  | turn isThr isMoved turn =>
    exact ⟨turn.keeps_listed own.listed,
      turn.keeps_executes own.executes (family.continues isThr),
      turn.keeps_points own.points, turn.keeps_ends own.ends, turn.keeps_loads own.loads⟩
  | create isThr stands pre =>
    have unlisted : ¬(threads.nextTid ∈ thread.children ∨ threads.nextTid ∈ thread.waited) := by
      intro listed
      rcases family.tree.created isThr listed with ⟨_, isChild, -⟩
      exact Nat.lt_irrefl _ (family.tree.lt_nextTid isChild)
    exact own.of_create stands (fun isChild => unlisted (Or.inl isChild))
      (fun wasWaited => unlisted (Or.inr wasWaited)) pre
  | loadUp isParent isThr isCreator stands =>
    have kin := family.holds.kin isParent isThr isCreator
    constructor <;> constructor <;> grind -linarith
  | _ => constructor <;> constructor <;> grind -linarith

lemma kin_step (family : Family threads) {childMoved : Thread}
  (change : PairStep threads after tid parent thread moved child childThr childMoved)
  (kin : FamilyKin parent thread child childThr) : FamilyKin parent moved child childMoved := by
  cases change with
  | parentTurn isThr _ _ _ turn _ _ =>
    exact ⟨turn.keeps_held_parent kin.held,
      turn.keeps_loaded_parent (family.holds.own isThr).executes kin.loaded⟩
  | childTurn _ turn notLoading =>
    exact ⟨turn.keeps_held_child kin.held, turn.keeps_loaded_child notLoading kin.loaded⟩
  | siblingLoad isParent isThr isCreator stands different =>
    have loading := family.holds.kin isParent isThr isCreator
    constructor <;> constructor <;> grind -linarith
  | waitUp isThr stands =>
    have own := family.holds.own isThr
    constructor <;> constructor <;> grind -linarith
  | _ => constructor <;> constructor <;> grind -linarith

lemma tree_step (family : Family threads) (taken : Step threads tid label after) :
  Tree after := by
  have tree := family.tree
  cases taken with
  | own isThr moves =>
    exact tree.put isThr moves.creator_eq fun listed =>
      tree.created isThr (moves.listed listed)
  | look isThr looks => exact tree.put isThr rfl fun listed => tree.created isThr listed
  | created isThr stands isAdded => exact tree.add isThr isAdded rfl rfl rfl
  | assign isThr stands isChild inUse =>
    rw [family.assign_eq isThr stands isChild]
    exact tree.put isThr rfl fun listed => tree.created isThr listed
  | loadDone success isThr stands hasParent isParent inUse =>
    have isCreator := family.isCreator_of_parent isThr hasParent
    rw [Threads.put_comm (Nat.ne_of_lt (tree.descends isThr isCreator))]
    exact tree.putKin isParent isThr isCreator rfl rfl ⟨rfl, rfl⟩ ⟨rfl, rfl⟩
  | waitUp isThr stands isChild inUse =>
    exact tree.putKin isThr isChild (family.isCreator_of_waitUp isThr stands isChild) rfl rfl
      ⟨rfl, rfl⟩ ⟨rfl, rfl⟩
  | clear isThr stands isChild inUse =>
    exact tree.putKin isThr isChild (family.isCreator_of_clear isThr stands isChild) rfl rfl
      ⟨rfl, rfl⟩ ⟨rfl, rfl⟩
  | exitUp isThr stands isParent inUse =>
    have isCreator := (family.holds.own isThr).points.upIs _ stands
    rw [Threads.put_comm (Nat.ne_of_lt (tree.descends isThr isCreator))]
    exact tree.putKin isParent isThr isCreator rfl rfl ⟨rfl, rfl⟩ ⟨rfl, rfl⟩
  | faults isThr fails => exact ⟨tree.fresh, tree.descends, tree.rooted, tree.created⟩

lemma step (family : Family threads) (running : threads.fault = none)
  (taken : Step threads tid label after) : Family after := by
  refine ⟨family.tree_step taken, family.holds_step running family.holds taken
    (fun _ _ _ _ _ => family.own_step) (fun _ _ _ _ _ _ _ => family.kin_step)
    FamilyOwn.of_initThread ?_⟩
  intro thread elem isThr stands
  exact FamilyKin.of_initThread (family.holds.own isThr).executes stands

lemma of_boot : Family boot where
  tree := by
    refine ⟨?_, ?_, ?_, ?_⟩
    · intro tid beyond
      have past : 3 ≤ tid := beyond
      simp [boot, update_of_ne (show tid ≠ 1 by omega), update_of_ne (show tid ≠ 2 by omega)]
    · intro tid thread creator isThr isCreator
      rcases boot_eq_some isThr with ⟨rfl, rfl⟩ | ⟨rfl, rfl⟩
      · cases isCreator
      cases isCreator
      exact Nat.lt_succ_self 1
    · intro tid thread creator isThr isCreator
      rcases boot_eq_some isThr with ⟨rfl, rfl⟩ | ⟨rfl, rfl⟩
      · cases isCreator
      cases isCreator
      exact ⟨mainThread, rfl⟩
    intro tid thread child isThr listed
    rcases boot_eq_some isThr with ⟨rfl, rfl⟩ | ⟨rfl, rfl⟩
    · simp only [mainThread, initThread, List.mem_singleton, List.not_mem_nil, or_false] at listed
      subst listed
      exact ⟨idleThread, rfl, rfl⟩
    · simp [idleThread, initThread] at listed
  holds := by
    refine holds_boot ?_ ?_ ?_ <;> constructor <;> constructor <;>
      simp [mainThread, idleThread, initThread, Pc.waitsFor, Pc.clears, Pc.executes, Pc.exiting,
        Pc.creates]

lemma of_reached {allowed : Threads → ℕ → Label → Prop}
  (reached : ReachedWhere allowed threads) : Family threads := by
  refine reached.invariant ?_ ?_
  · rintro _ rfl
    exact of_boot
  intro _ _ family taken
  rcases taken with ⟨running, _, _, taken, -⟩
  exact family.step running taken

/-- Processes form a forest, and each one's fields fit where it stands. -/
theorem tree_of_reached {allowed : Threads → ℕ → Label → Prop}
    (reached : ReachedWhere allowed threads) :
    Tree threads ∧ ∀ tid thread, threads.thread tid = some thread → FamilyOwn thread :=
  ⟨(of_reached reached).tree, fun _ _ isThread => (of_reached reached).holds.own isThread⟩

/-- Thread 1 has executed a program, thread 3, which has exited with status 7. -/
theorem tree_exited : ∃ threads childThread, threads.thread 3 = some childThread ∧
    childThread.died = some 7 ∧ Tree threads ∧
      ∀ tid thread, threads.thread tid = some thread → FamilyOwn thread := by
  rcases exists_reached (fun _ _ _ => True) (executing 1 3 3 .succeed ++ exiting 3 7)
    (fun threads => threads.has 3 fun thread => thread.died = some 7)
    (by decide +kernel) with ⟨threads, reached, passes⟩
  rcases Threads.exists_of_has passes with ⟨childThread, isChild, died⟩
  exact ⟨threads, childThread, isChild, of_decide_eq_true died, tree_of_reached reached⟩

end Family

end Process

end Pintos
