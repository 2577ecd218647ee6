import Pintos.Kernel.LinkedListOps
import Pintos.Library.NaturalMerge

/-!
# Sorting linked lists

`list_sort` merges neighbouring runs of a list in place, in passes from its front to its end, until
there is one run. A pointer to an element is the first of those behind some others, so that what a
loop does to the links is a function of the elements before and behind its pointers.
The comparison function looks into the elements around the links: calling it for a node that is not
an element of a list is a fault.
-/

namespace Pintos.LinkedList

open Pintos.Computation LinkHeap

variable {Node : Type} [DecidableEq Node]

def listNext (elem : Option Node) : Uses Node (Option Node) := do
  ensure fun heap => isHead heap elem || isInterior heap elem
  loadNext elem

section Functions

variable {Aux : Type} (less : Node → Node → Aux → Bool) (aux : Aux)

def callLess : Option Node → Option Node → Uses Node Bool
  | some a, some b => do
    if ← reads fun heap => isInterior heap (some a) && isInterior heap (some b) then
      pure (less a b aux)
    else stop .fault
  | _, _ => stop .fault

def isSortedLoop (b : Option Node) : ℕ → Option Node → Uses Node Bool
  | 0, _ => stop .running
  | fuel + 1, a => do
    let a ← listNext a
    if a = b then pure true
    else if ← callLess less aux a (← listPrev a) then pure false
    else isSortedLoop b fuel a

def isSorted (fuel : ℕ) (a b : Option Node) : Uses Node Bool :=
  if a = b then pure true else isSortedLoop less aux b fuel a

def findEndLoop (b : Option Node) : ℕ → Option Node → Uses Node (Option Node)
  | 0, _ => stop .running
  | fuel + 1, a => do
    let a ← listNext a
    if a = b then pure a
    else if ← callLess less aux a (← listPrev a) then pure a
    else findEndLoop b fuel a

def findEndOfRun (fuel : ℕ) (a b : Option Node) : Uses Node (Option Node) := do
  ensure fun _ => a.isSome
  ensure fun _ => b.isSome
  ensure fun _ => a ≠ b
  findEndLoop less aux b fuel a

def mergeLoop (b1 : Option Node) : ℕ → Option Node → Option Node → Uses Node Unit
  | 0, _, _ => stop .running
  | fuel + 1, a0, a1b0 =>
    if a0 = a1b0 ∨ a1b0 = b1 then pure ()
    else do
      if !(← callLess less aux a1b0 a0) then
        mergeLoop b1 fuel (← listNext a0) a1b0
      else
        let a1b0 ← listNext a1b0
        listSplice a0 (← listPrev a1b0) a1b0
        mergeLoop b1 fuel a0 a1b0

def inplaceMerge (fuel : ℕ) (a0 a1b0 b1 : Option Node) : Uses Node Unit := do
  ensure fun _ => a0.isSome
  ensure fun _ => a1b0.isSome
  ensure fun _ => b1.isSome
  let sorted ← isSorted less aux fuel a0 a1b0
  ensure fun _ => sorted
  let sorted ← isSorted less aux fuel a1b0 b1
  ensure fun _ => sorted
  mergeLoop less aux b1 fuel a0 a1b0

variable (list : KernelList Node)

def passLoop (bound : ℕ) : ℕ → Option Node → ℕ → Uses Node ℕ
  | 0, _, _ => stop .running
  | fuel + 1, a0, outputRunCnt =>
    if a0 = listEnd list then pure outputRunCnt
    else do
      let a1b0 ← findEndOfRun less aux bound a0 (listEnd list)
      if a1b0 = listEnd list then pure (outputRunCnt + 1)
      else
        let b1 ← findEndOfRun less aux bound a1b0 (listEnd list)
        inplaceMerge less aux bound a0 a1b0 b1
        passLoop bound fuel b1 (outputRunCnt + 1)

def sortLoop (bound : ℕ) : ℕ → Uses Node Unit
  | 0 => stop .running
  | fuel + 1 => do
    let outputRunCnt ← passLoop less aux list bound bound (← listBegin list) 0
    if outputRunCnt > 1 then sortLoop bound fuel else pure ()

/-- `list_sort`, with as many rounds for every loop as `fuel` says. -/
def listSort (fuel : ℕ) : Uses Node Unit := do
  sortLoop less aux list fuel fuel
  let sorted ← isSorted less aux fuel (← listBegin list) (listEnd list)
  ensure fun _ => sorted

/-- What becomes of an element that has been removed: it is appended to the duplicates, if there
is a list for them. -/
def pushDuplicate (elem : Option Node) : Option (KernelList Node) → Uses Node Unit
  | some duplicates => listPushBack duplicates elem
  | none => pure ()

def uniqueLoop (duplicates : Option (KernelList Node)) : ℕ → Option Node → Uses Node Unit
  | 0, _ => stop .running
  | fuel + 1, elem => do
    let next ← listNext elem
    if next = listEnd list then pure ()
    else if ← callLess less aux elem next then uniqueLoop duplicates fuel next
    else if ← callLess less aux next elem then uniqueLoop duplicates fuel next
    else
      let _ ← listRemove next
      pushDuplicate next duplicates
      uniqueLoop duplicates fuel elem

def listUnique (fuel : ℕ) (duplicates : Option (KernelList Node)) : Uses Node Unit := do
  if ← reads (listEmpty list) then pure ()
  else uniqueLoop less aux list duplicates fuel (← listBegin list)

end Functions

section Pointers

omit [DecidableEq Node] in
@[simp]
lemma before_cons (list : KernelList Node) (elem : Node) (behind : List Node) :
  list.before (elem :: behind) = elem := rfl

variable {Aux : Type} {less : Node → Node → Aux → Bool} {aux : Aux} {heap : LinkHeap Node}
  {list : KernelList Node} {elems ahead mid behind : List Node} {elem : Node}

section

omit [DecidableEq Node]

lemma WellFormed.interior (wf : WellFormed heap list elems) (isElem : elem ∈ elems) :
  isInterior heap (some elem) = true := by
  rcases List.append_of_mem isElem with ⟨ahead, behind, rfl⟩
  exact isInterior_of_links wf.linked.2 wf.linked_after.1

lemma listNext_eq (wf : WellFormed heap list (ahead ++ elem :: behind)) :
  listNext (some elem) heap = .ok (some (list.before behind), heap) := by
  rw [listNext, ensure_bind (by rw [wf.interior (by simp), Bool.or_true]), loadNext,
    reads_apply, wf.linked_after.1]

lemma listPrev_eq (wf : WellFormed heap list (ahead ++ elem :: behind)) :
  listPrev (some (list.before behind)) heap = .ok (some elem, heap) := by
  have hasPrev := wf.linked_after.2
  rw [listPrev, ensure_bind (isInterior_or_isTail hasPrev), loadPrev, reads_apply, hasPrev]

lemma callLess_eq (wf : WellFormed heap list elems) {a b : Node} (isFirst : a ∈ elems)
  (isSecond : b ∈ elems) :
  callLess less aux (some a) (some b) heap = .ok (less a b aux, heap) := by
  rw [callLess, reads_bind_apply, wf.interior isFirst, wf.interior isSecond]
  rfl

lemma before_eq_iff (wf : WellFormed heap list (ahead ++ (mid ++ behind))) :
  some (list.before (mid ++ behind)) = some (list.before behind) ↔ mid = [] := by
  have nodup := wf.nodup
  rw [← List.append_assoc] at nodup
  constructor
  · intro same
    cases mid with
    | nil => rfl
    | cons elem mid =>
      exact absurd (Option.some.inj same) (ne_ends_of_mem nodup (List.mem_cons_self ..)).2
  intro isNil
  rw [isNil, List.nil_append]

lemma before_eq_listEnd_iff (wf : WellFormed heap list (ahead ++ behind)) :
  some (list.before behind) = listEnd list ↔ behind = [] := by
  have iff := @before_eq_iff Node heap list ahead behind [] (by simpa using wf)
  rwa [List.append_nil] at iff

end

lemma listEmpty_iff (wf : WellFormed heap list elems) :
  listEmpty list heap = true ↔ elems = [] := by
  have first : (heap list.head).next = some (list.before elems) :=
    (@WellFormed.linked _ heap list [] elems wf).1
  rw [listEmpty, decide_eq_true_iff, first]
  exact @before_eq_listEnd_iff _ heap list [] elems wf

end Pointers

abbrev given {Node Aux : Type} (less : Node → Node → Aux → Bool) (aux : Aux) (a b : Node) :
  Bool := less a b aux

section Sample

/-- A list of three elements, and an empty one behind it. -/
def rowHeap (node : ℕ) : Links ℕ where
  prev := if node = 0 ∨ node = 5 then none else some (node - 1)
  next := if node = 4 ∨ node = 6 then none else some (node + 1)

def rowList : KernelList ℕ := ⟨0, 4⟩

def emptyList : KernelList ℕ := ⟨5, 6⟩

lemma row_wellFormed : WellFormed rowHeap rowList [1, 2, 3] where
  nodup := by decide
  path := by simp [LinkHeap.Path, KernelList.chain, rowList, Linked, rowHeap]
  headPrev := rfl
  tailNext := rfl

lemma empty_wellFormed : WellFormed rowHeap emptyList [] where
  nodup := by decide
  path := by simp [LinkHeap.Path, KernelList.chain, emptyList, Linked, rowHeap]
  headPrev := rfl
  tailNext := rfl

def halvesDown (a b : ℕ) (_ : Unit) : Bool := decide (b / 2 < a / 2)

lemma halvesDown_order : IsStrictWeakOrder ℕ fun a b => given halvesDown () a b = true where
  irrefl a := by simp [halvesDown]
  trans a b c := by
    simp only [halvesDown, decide_eq_true_eq]
    omega
  incomp_trans a b c := by
    simp only [halvesDown, decide_eq_true_eq]
    omega

end Sample

section Sorted

variable {Aux : Type} {less : Node → Node → Aux → Bool} {aux : Aux} {heap : LinkHeap Node}
  {list : KernelList Node} {elems ahead left right run rest more : List Node} {elem : Node}
  {fuel bound : ℕ}

lemma isSortedLoop_eq (wf : WellFormed heap list (ahead ++ elem :: (run ++ rest)))
  (inOrder : (elem :: run).IsChain fun a b => InOrder (given less aux) a b)
  (enough : run.length < fuel) :
  isSortedLoop less aux (some (list.before rest)) fuel (some elem) heap = .ok (true, heap) := by
  induction fuel generalizing ahead elem run with
  | zero => omega
  | succ fuel ih =>
    rw [isSortedLoop, bind_of_ok (listNext_eq wf)]
    have following : WellFormed heap list ((ahead ++ [elem]) ++ (run ++ rest)) := by
      simpa using wf
    cases run with
    | nil => rw [if_pos ((before_eq_iff following).mpr rfl), pure_apply]
    | cons next run =>
      rw [List.isChain_cons_cons] at inOrder
      have notLess : less next elem aux = false := by simpa [InOrder] using inOrder.1
      rw [if_neg (fun same => absurd ((before_eq_iff following).mp same) (by simp)),
        bind_of_ok (listPrev_eq wf), List.cons_append, before_cons,
        bind_of_ok (callLess_eq wf (by simp) (by simp)), if_neg (by simp [notLess])]
      exact ih following inOrder.2 (by simpa using enough)

lemma isSorted_eq (wf : WellFormed heap list (ahead ++ (run ++ rest)))
  (inOrder : run.IsChain fun a b => InOrder (given less aux) a b) (enough : run.length ≤ fuel) :
  isSorted less aux fuel (some (list.before (run ++ rest))) (some (list.before rest)) heap =
    .ok (true, heap) := by
  rw [isSorted]
  cases run with
  | nil => rw [if_pos ((before_eq_iff wf).mpr rfl), pure_apply]
  | cons elem run =>
    rw [if_neg (fun same => absurd ((before_eq_iff wf).mp same) (by simp))]
    exact isSortedLoop_eq wf inOrder enough

structure EndsRun (less : Node → Node → Bool) (elem : Node) (more run rest : List Node) :
    Prop where
  isAll : more = run ++ rest
  inOrder : (elem :: run).IsChain fun a b => InOrder less a b
  ends : ∀ next ∈ rest.head?, less next ((elem :: run).getLast (by simp)) = true

lemma findEndLoop_eq (wf : WellFormed heap list (ahead ++ elem :: more))
  (enough : more.length < fuel) : ∃ run rest, EndsRun (given less aux) elem more run rest ∧
    findEndLoop less aux (listEnd list) fuel (some elem) heap =
      .ok (some (list.before rest), heap) := by
  induction fuel generalizing ahead elem more with
  | zero => omega
  | succ fuel ih =>
    have following : WellFormed heap list ((ahead ++ [elem]) ++ more) := by
      simpa using wf
    rw [findEndLoop, bind_of_ok (listNext_eq wf)]
    cases more with
    | nil =>
      refine ⟨[], [], ⟨rfl, by simp, by simp⟩, ?_⟩
      rw [if_pos ((before_eq_listEnd_iff following).mpr rfl), pure_apply]
    | cons next more =>
      rw [if_neg (fun same => absurd ((before_eq_listEnd_iff following).mp same) (by simp)),
        bind_of_ok (listPrev_eq wf), before_cons,
        bind_of_ok (callLess_eq wf (by simp) (by simp))]
      by_cases isLess : less next elem aux = true
      · refine ⟨[], next :: more, ⟨rfl, by simp, by simpa using isLess⟩, ?_⟩
        rw [if_pos isLess, pure_apply, before_cons]
      rcases ih following (by simpa using enough) with ⟨run, rest, ends, ran⟩
      refine ⟨next :: run, rest, ⟨?_, ?_, ?_⟩, ?_⟩
      · rw [ends.isAll, List.cons_append]
      · exact List.isChain_cons_cons.mpr ⟨by simpa [InOrder] using isLess, ends.inOrder⟩
      · simpa using ends.ends
      · rw [if_neg isLess, ran]

lemma findEndOfRun_eq (wf : WellFormed heap list (ahead ++ elem :: more))
  (enough : more.length < fuel) : ∃ run rest, EndsRun (given less aux) elem more run rest ∧
    findEndOfRun less aux fuel (some elem) (listEnd list) heap =
      .ok (some (list.before rest), heap) := by
  rcases findEndLoop_eq wf enough with ⟨run, rest, ends, ran⟩
  refine ⟨run, rest, ends, ?_⟩
  have notEnd : some elem ≠ listEnd list := fun same =>
    absurd ((before_eq_listEnd_iff wf).mp same) (by simp)
  rw [findEndOfRun, ensure_bind rfl, ensure_bind rfl, ensure_bind (by simpa using notEnd), ran]

lemma moveBefore_returns {a b : Node}
  (wf : WellFormed heap list (ahead ++ (a :: left ++ (b :: more)))) :
  Returns (listSplice (some a) (some b) (some (list.before more))) heap ()
    (list.chain (ahead ++ (a :: left ++ (b :: more))))
    fun after => WellFormed after list ((ahead ++ [b]) ++ (a :: left ++ more)) := by
  have moved := @spliceForward_returns _ _ heap list more ahead (a :: left) [b] (by simp)
    (by simpa using wf)
  rcases moved with ⟨after, spliced, holds, same⟩
  refine ⟨after, spliced, by simpa using holds, ?_⟩
  intro node notTouched
  refine same node ?_
  have isFirst := after_mem list ahead
  have isLast := before_mem list more
  have isPred := after_mem list (ahead ++ a :: left)
  simp [KernelList.chain] at *
  grind

lemma mergeLoop_returns (wf : WellFormed heap list (ahead ++ (left ++ (right ++ rest))))
  (enough : left.length + right.length < fuel) :
  Returns (mergeLoop less aux (some (list.before rest)) fuel
    (some (list.before (left ++ (right ++ rest)))) (some (list.before (right ++ rest)))) heap ()
    (list.chain (ahead ++ (left ++ (right ++ rest))))
    fun after => WellFormed after list
      (ahead ++ (left.merge right (InOrder (given less aux)) ++ rest)) := by
  induction fuel generalizing ahead left right heap with
  | zero => omega
  | succ fuel ih =>
    rw [mergeLoop]
    have second : WellFormed heap list ((ahead ++ left) ++ (right ++ rest)) := by
      simpa using wf
    cases left with
    | nil =>
      rw [if_pos (Or.inl ((before_eq_iff wf).mpr rfl))]
      exact ⟨heap, rfl, by simpa using wf, fun _ _ => rfl⟩
    | cons a left =>
      cases right with
      | nil =>
        rw [if_pos (Or.inr ((before_eq_iff second).mpr rfl))]
        exact ⟨heap, rfl, by simpa using wf, fun _ _ => rfl⟩
      | cons b right =>
        have isOther : ¬(some (list.before (a :: left ++ (b :: right ++ rest))) =
            some (list.before (b :: right ++ rest)) ∨
            some (list.before (b :: right ++ rest)) = some (list.before rest)) := by
          rw [before_eq_iff wf, before_eq_iff second]
          simp
        rw [if_neg isOther, List.cons_merge_cons]
        have compared := @callLess_eq _ _ less aux heap list _ wf b a (by simp) (by simp)
        by_cases isLess : less b a aux = true
        · rcases moveBefore_returns wf with ⟨middle, spliced, isMid, same⟩
          rcases ih isMid (by simp at enough ⊢; omega) with
            ⟨after, ran, holds, others⟩
          refine ⟨after, ?_, ?_, ?_⟩
          · rw [List.cons_append, List.cons_append, before_cons, before_cons,
              bind_of_ok compared, if_neg (by simp [isLess]),
              bind_of_ok (listNext_eq second), bind_of_ok (listPrev_eq second),
              bind_of_ok spliced]
            exact ran
          · rw [if_neg (by simp [InOrder, isLess])]
            simpa using holds
          intro node notTouched
          rw [others node ?_, same node notTouched]
          rw [KernelList.chain] at notTouched ⊢
          grind
        have next : WellFormed heap list ((ahead ++ [a]) ++ (left ++ (b :: right ++ rest))) := by
          simpa using wf
        rcases ih next (by simp at enough ⊢; omega) with ⟨after, ran, holds, others⟩
        refine ⟨after, ?_, ?_, ?_⟩
        · rw [List.cons_append, List.cons_append, before_cons, before_cons,
            bind_of_ok compared, if_pos (by simp [isLess]),
            bind_of_ok (listNext_eq wf)]
          exact ran
        · rw [if_pos (by simp [InOrder, isLess])]
          simpa using holds
        · simpa using others

lemma inplaceMerge_returns (wf : WellFormed heap list (ahead ++ (left ++ (right ++ rest))))
  (isLeft : left.IsChain fun a b => InOrder (given less aux) a b)
  (isRight : right.IsChain fun a b => InOrder (given less aux) a b)
  (enough : left.length + right.length < fuel) :
  Returns (inplaceMerge less aux fuel (some (list.before (left ++ (right ++ rest))))
    (some (list.before (right ++ rest))) (some (list.before rest))) heap ()
    (list.chain (ahead ++ (left ++ (right ++ rest))))
    fun after => WellFormed after list
      (ahead ++ (left.merge right (InOrder (given less aux)) ++ rest)) := by
  have second : WellFormed heap list ((ahead ++ left) ++ (right ++ rest)) := by
    simpa using wf
  rcases mergeLoop_returns wf enough with ⟨after, ran, holds, same⟩
  refine ⟨after, ?_, holds, same⟩
  rw [inplaceMerge, ensure_bind rfl, ensure_bind rfl, ensure_bind rfl,
    bind_of_ok (isSorted_eq wf isLeft (by omega)), ensure_bind rfl,
    bind_of_ok (isSorted_eq second isRight (by omega)), ensure_bind rfl, ran]

variable [order : IsStrictWeakOrder Node fun a b => given less aux a b = true]

include order

omit [DecidableEq Node] order in
lemma mem_chain_of_perm {others : List Node} (perm : elems.Perm others) {node : Node} :
  node ∈ list.chain (ahead ++ elems) ↔ node ∈ list.chain (ahead ++ others) := by
  simp [KernelList.chain, perm.mem_iff]

lemma passLoop_returns (wf : WellFormed heap list (ahead ++ more))
  (enough : more.length < fuel) (atMost : more.length < bound) (outputRunCnt : ℕ) :
  ∃ after cnt, MovedStably (given less aux) more after ∧ runs (given less aux) after ≤ cnt ∧
    2 * cnt ≤ runs (given less aux) more + 1 ∧
    Returns (passLoop less aux list bound fuel (some (list.before more)) outputRunCnt) heap
      (outputRunCnt + cnt) (list.chain (ahead ++ more))
      fun heap => WellFormed heap list (ahead ++ after) := by
  induction fuel generalizing ahead more heap outputRunCnt with
  | zero => omega
  | succ fuel ih =>
    rw [passLoop]
    cases more with
    | nil =>
      refine ⟨[], 0, .refl _, le_rfl, Nat.zero_le _, heap, ?_, wf, fun _ _ => rfl⟩
      rw [if_pos ((before_eq_listEnd_iff wf).mpr rfl)]
      rfl
    | cons a more =>
      rcases @findEndOfRun_eq _ _ _ less aux _ _ _ _ _ bound wf
        (by simp at atMost; omega) with ⟨run, rest, ⟨isAll, inOrder, ends⟩, found⟩
      subst isAll
      have isRun := runs_of_run inOrder ends
      rw [if_neg (fun same => absurd ((before_eq_listEnd_iff wf).mp same) (by simp)), before_cons]
      have following : WellFormed heap list ((ahead ++ a :: run) ++ rest) := by
        simpa using wf
      cases rest with
      | nil =>
        refine ⟨a :: (run ++ []), 1, .refl _, ?_, ?_, heap, ?_, wf, fun _ _ => rfl⟩
        · exact isRun.le
        · have pos : 0 < runs (given less aux) (a :: (run ++ [])) := runs_pos _ _
          omega
        rw [bind_of_ok found, if_pos ((before_eq_listEnd_iff following).mpr rfl)]
        rfl
      | cons b more =>
        rcases @findEndOfRun_eq _ _ _ less aux _ _ _ _ _ bound following
          (by simp at atMost; omega) with
          ⟨second, rest, ⟨isAll, secondInOrder, secondEnds⟩, secondFound⟩
        subst isAll
        have isSecond := runs_of_run secondInOrder secondEnds
        rcases @inplaceMerge_returns _ _ _ less aux heap list ahead (a :: run) (b :: second)
          rest bound wf inOrder secondInOrder (by simp at atMost ⊢; omega) with
          ⟨middle, merged, isMid, same⟩
        rw [← List.append_assoc] at isMid
        rcases ih isMid (by simp at enough; omega) (by simp at atMost; omega)
          (outputRunCnt + 1) with ⟨after, cnt, moved, fewer, half, last, runs, holds, others⟩
        have mergedStably := @merge_movedStably _ (given less aux) (a :: run) (b :: second) _
          (pairwise_of_isChain inOrder)
        have single := runs_of_isChain (merge_isChain (pairwise_of_isChain inOrder)
          (pairwise_of_isChain secondInOrder))
        have all := mergedStably.append moved
        have together := @runs_append_le _ (given less aux)
          ((a :: run).merge (b :: second) (InOrder (given less aux))) after
        simp only [List.cons_append, before_cons] at merged
        refine ⟨_, cnt + 1, by simpa using all, by omega, ?_, last, ?_, ?_, ?_⟩
        · simp only [List.cons_append] at isRun isSecond ⊢
          omega
        · rw [bind_of_ok found, if_neg (fun same => absurd
            ((before_eq_listEnd_iff following).mp same) (by simp)), before_cons,
            bind_of_ok secondFound, bind_of_ok merged, runs, Nat.add_right_comm,
            Nat.add_assoc]
        · simpa using holds
        intro node notTouched
        rw [others node ?_, same node notTouched]
        rw [List.append_assoc, mem_chain_of_perm (mergedStably.perm.append_right rest)]
        simpa using notTouched

lemma sortLoop_returns (wf : WellFormed heap list elems)
  (enough : runs (given less aux) elems < fuel) (atMost : elems.length < bound) :
  ∃ after, MovedStably (given less aux) elems after ∧ runs (given less aux) after ≤ 1 ∧
    Returns (sortLoop less aux list bound fuel) heap () (list.chain elems)
      fun heap => WellFormed heap list after := by
  induction fuel generalizing elems heap with
  | zero => omega
  | succ fuel ih =>
    rcases @passLoop_returns _ _ _ less aux heap list [] elems bound bound _ wf atMost
      atMost 0 with ⟨middle, cnt, moved, fewer, half, next, passed, isNext, same⟩
    rw [List.nil_append] at isNext
    rw [sortLoop]
    by_cases isLast : cnt > 1
    · have shorter : middle.length < bound := by rwa [moved.perm.length_eq]
      rcases ih isNext (by omega) shorter with
        ⟨after, rest, single, last, ran, holds, others⟩
      refine ⟨after, moved.trans rest, single, last, ?_, holds, ?_⟩
      · rw [bind_of_ok (listBegin_eq wf), bind_of_ok passed, if_pos (by omega), ran]
      intro node notTouched
      rw [others node ?_, same node notTouched]
      exact fun isNode => notTouched ((@mem_chain_of_perm _ list _ [] _ moved.perm _).mp isNode)
    refine ⟨middle, moved, by omega, next, ?_, isNext, same⟩
    rw [bind_of_ok (listBegin_eq wf), bind_of_ok passed, if_neg (by omega)]
    rfl

/-- `list_sort` returns, with the elements in order and equivalent ones in the order they had. -/
theorem listSort_sorts (wellFormed : WellFormed heap list elems) (enough : elems.length < fuel) :
    ∃ sorted, SortedStably (given less aux) elems sorted ∧
      Returns (listSort less aux list fuel) heap () (list.chain elems)
        fun after => WellFormed after list sorted := by
  have few : runs (given less aux) elems ≤ elems.length := runs_le_length elems
  rcases sortLoop_returns wellFormed (few.trans_lt enough) enough with
    ⟨sorted, moved, single, after, returned, holds, same⟩
  have isRun := isChain_of_runs single
  have inOrder : sorted.Pairwise fun a b => given less aux b a = false :=
    (pairwise_of_isChain isRun).imp fun isOrdered => by simpa [InOrder] using isOrdered
  refine ⟨sorted, ⟨moved, inOrder⟩, after, ?_, holds, same⟩
  have checked := @isSorted_eq _ _ _ less aux after list [] sorted [] fuel (by simpa using holds)
    isRun (by rw [moved.perm.length_eq]; omega)
  rw [List.append_nil] at checked
  change isSorted less aux fuel (some (list.before sorted)) (listEnd list) after = _ at checked
  rw [listSort, bind_of_ok returned, bind_of_ok (listBegin_eq holds), bind_of_ok checked]
  rfl

end Sorted

theorem listSort_sorts_row : ∃ sorted, SortedStably (given halvesDown ()) [1, 2, 3] sorted ∧
    Returns (listSort halvesDown () rowList 4) rowHeap () (rowList.chain [1, 2, 3])
      fun after => WellFormed after rowList sorted :=
  haveI := halvesDown_order
  listSort_sorts row_wellFormed (by decide)

section Unique

variable {Aux : Type} {less : Node → Node → Aux → Bool} {aux : Aux} {heap : LinkHeap Node}
  {list : KernelList Node} {elems ahead rest old group : List Node} {elem next : Node} {fuel : ℕ}
  {duplicates : Option (KernelList Node)} {groups : List (List Node)}

def Apart (heap : LinkHeap Node) (list : KernelList Node) (elems : List Node)
    (duplicates : Option (KernelList Node)) (old : List Node) : Prop :=
  ∀ target ∈ duplicates, WellFormed heap target old ∧
    (list.chain elems).Disjoint (target.chain old)

lemma removeNext_returns (wf : WellFormed heap list (ahead ++ elem :: next :: rest))
  (apart : Apart heap list (ahead ++ elem :: next :: rest) duplicates old) :
  ∃ following middle after, listRemove (some next) heap = .ok (following, middle) ∧
    pushDuplicate (some next) duplicates middle = .ok ((), after) ∧
    WellFormed after list (ahead ++ elem :: rest) ∧
    Apart after list (ahead ++ elem :: rest) duplicates (old ++ [next]) := by
  have isPerm : (list.chain (ahead ++ elem :: next :: rest)).Perm
      (next :: list.chain (ahead ++ elem :: rest)) := by
    simpa using chain_perm list (ahead ++ [elem]) [next] rest
  have notNext := (List.nodup_cons.mp (isPerm.nodup_iff.mp wf.nodup)).1
  rw [List.append_cons] at wf
  rcases remove_returns wf with ⟨middle, removed, isMid, same⟩
  cases duplicates with
  | none => exact ⟨_, middle, middle, removed, rfl, by simpa using isMid, by simp [Apart]⟩
  | some target =>
    rcases apart target rfl with ⟨isTarget, disjoint⟩
    have kept : WellFormed middle target old := by
      refine isTarget.of_same ?_
      intro node isNode
      refine same node ?_
      have notHere : node ∉ list.chain (ahead ++ elem :: next :: rest) := (disjoint · isNode)
      simp only [KernelList.chain] at notHere
      grind
    have apartNow : ∀ node ∈ list.chain (ahead ++ elem :: rest), node ∉ target.chain old :=
      fun node isNode => disjoint (isPerm.mem_iff.mpr (List.mem_cons_of_mem _ isNode))
    rcases pushBack_returns kept (disjoint (isPerm.mem_iff.mpr (List.mem_cons_self ..))) with
      ⟨after, pushed, isAfter, others⟩
    refine ⟨_, middle, after, removed, pushed, WellFormed.of_same (by simpa using isMid) ?_, ?_⟩
    · intro node isNode
      have notThere := apartNow node isNode
      refine others node ?_
      simp only [KernelList.chain] at notThere
      grind
    rintro _ ⟨⟩
    refine ⟨isAfter, ?_⟩
    intro node isNode isThere
    have notThere := apartNow node isNode
    simp only [KernelList.chain] at notThere isThere
    grind

/-- The groups of adjacent equivalent elements. -/
structure Grouped (less : Node → Node → Bool) (elems : List Node) (groups : List (List Node)) :
    Prop where
  all : groups.flatten = elems
  notEmpty : [] ∉ groups
  equivalent : ∀ group ∈ groups, group.Pairwise fun a b => Equivalent less a b = true
  maximal : groups.IsChain fun one two => ∀ a ∈ one, ∀ b ∈ two, Equivalent less a b = false

def firsts (groups : List (List Node)) : List Node := groups.filterMap List.head?

def others (groups : List (List Node)) : List Node := groups.flatMap List.tail

variable [order : IsStrictWeakOrder Node fun a b => given less aux a b = true]

include order

omit [DecidableEq Node] in
lemma Grouped.longer
  (grouped : Grouped (given less aux) (elem :: rest) ((elem :: group) :: groups))
  (same : Equivalent (given less aux) elem next) :
  Grouped (given less aux) (elem :: next :: rest) ((elem :: next :: group) :: groups) := by
  rcases grouped with ⟨all, notEmpty, equivalent, maximal⟩
  have trans : ∀ a b c, Equivalent (given less aux) a b = true →
      Equivalent (given less aux) b c = true → Equivalent (given less aux) a c = true :=
    fun _ _ _ => Equivalent.trans
  have symm : ∀ a b, Equivalent (given less aux) a b = true →
      Equivalent (given less aux) b a = true := fun _ _ => Equivalent.symm
  refine ⟨by simp_all, by simp_all, ?_, ?_⟩
  · simp only [List.forall_mem_cons, List.pairwise_cons] at equivalent ⊢
    grind
  cases groups with
  | nil => simp
  | cons two groups =>
    grind

omit [DecidableEq Node] in
lemma Grouped.cons (grouped : Grouped (given less aux) (next :: rest) ((next :: group) :: groups))
  (ne : Equivalent (given less aux) elem next = false) :
  Grouped (given less aux) (elem :: next :: rest) ([elem] :: (next :: group) :: groups) := by
  rcases grouped with ⟨all, notEmpty, equivalent, maximal⟩
  refine ⟨by simp_all, by simp_all, by simpa using equivalent, ?_⟩
  rw [List.isChain_cons_cons]
  refine ⟨?_, maximal⟩
  intro a isElem b isNext
  rw [List.mem_singleton] at isElem
  subst isElem
  rw [← Bool.not_eq_true] at ne ⊢
  intro same
  rcases List.mem_cons.mp isNext with rfl | isLater
  · exact ne same
  have inGroup := (List.pairwise_cons.mp (equivalent _ (List.mem_cons_self ..))).1 b isLater
  exact ne (Equivalent.trans same (Equivalent.symm inGroup))

lemma uniqueLoop_returns (wf : WellFormed heap list (ahead ++ elem :: rest))
  (apart : Apart heap list (ahead ++ elem :: rest) duplicates old) (enough : rest.length < fuel) :
  ∃ group groups after,
    Grouped (given less aux) (elem :: rest) ((elem :: group) :: groups) ∧
    uniqueLoop less aux list duplicates fuel (some elem) heap = .ok ((), after) ∧
    WellFormed after list (ahead ++ elem :: firsts groups) ∧
    ∀ target ∈ duplicates, WellFormed after target (old ++ (group ++ others groups)) := by
  induction fuel generalizing ahead elem rest old heap with
  | zero => omega
  | succ fuel ih =>
    rw [uniqueLoop, bind_of_ok (listNext_eq wf)]
    have following : WellFormed heap list ((ahead ++ [elem]) ++ rest) := by
      simpa using wf
    cases rest with
    | nil =>
      refine ⟨[], [], heap, ⟨rfl, by simp, by simp, by simp⟩, ?_, wf, ?_⟩
      · rw [if_pos ((before_eq_listEnd_iff following).mpr rfl), pure_apply]
      intro target isTarget
      simpa [others] using (apart target isTarget).1
    | cons next rest =>
      rw [if_neg (fun same => absurd ((before_eq_listEnd_iff following).mp same) (by simp)),
        before_cons, bind_of_ok (callLess_eq wf (by simp) (by simp))]
      by_cases same : Equivalent (given less aux) elem next = true
      · have notLess : less elem next aux = false ∧ less next elem aux = false := by
          simpa [Equivalent] using same
        rcases removeNext_returns wf apart with
          ⟨_, middle, last, removed, pushed, isLast, isApart⟩
        rcases ih isLast isApart (by simp at enough; omega) with
          ⟨group, groups, after, grouped, ran, holds, kept⟩
        refine ⟨next :: group, groups, after, grouped.longer same, ?_, holds, ?_⟩
        · rw [if_neg (by simp [notLess]), bind_of_ok (callLess_eq wf (by simp) (by simp)),
            if_neg (by simp [notLess]), bind_of_ok removed, bind_of_ok pushed, ran]
        intro target isTarget
        simpa using kept target isTarget
      rcases @ih _ _ _ old next following (by simpa using apart) (by simp at enough; omega) with
        ⟨group, groups, after, grouped, ran, holds, kept⟩
      refine ⟨[], (next :: group) :: groups, after, grouped.cons (by simpa using same), ?_,
        by simpa [firsts] using holds, by simpa [others] using kept⟩
      by_cases isLess : less elem next aux = true
      · rw [if_pos isLess, ran]
      have isGreater : less next elem aux = true := by
        simpa [Equivalent, isLess] using same
      rw [if_neg isLess, bind_of_ok (callLess_eq wf (by simp) (by simp)), if_pos isGreater, ran]

section

omit [DecidableEq Node] order

lemma firsts_sublist (groups : List (List Node)) : (firsts groups).Sublist groups.flatten := by
  induction groups with
  | nil => simp [firsts]
  | cons group groups ih =>
    cases group with
    | nil => simpa [firsts, List.filterMap_cons] using ih
    | cons elem group => simpa [firsts] using ih.trans (List.sublist_append_right _ _)

lemma others_sublist (groups : List (List Node)) : (others groups).Sublist groups.flatten := by
  induction groups with
  | nil => simp [others]
  | cons group groups ih =>
    exact (List.tail_sublist group).append ih

lemma firsts_append_others (groups : List (List Node)) :
  (firsts groups ++ others groups).Perm groups.flatten := by
  induction groups with
  | nil => simp [firsts, others]
  | cons group groups ih =>
    cases group with
    | nil => simpa [firsts, others, List.filterMap_cons] using ih
    | cons elem group =>
      exact ((List.perm_append_comm_assoc _ _ _).trans (ih.append_left group)).cons elem

lemma Grouped.isChain_firsts (grouped : Grouped (given less aux) elems groups) :
  (firsts groups).IsChain fun a b => Equivalent (given less aux) a b = false := by
  rcases grouped with ⟨-, notEmpty, -, maximal⟩
  induction groups with
  | nil => simp [firsts]
  | cons one groups ih =>
    have inner := ih (by simp_all) maximal.tail
    cases groups with
    | nil => cases one <;> simp [firsts, List.filterMap_cons]
    | cons two groups =>
      rw [List.isChain_cons_cons] at maximal
      cases one with
      | nil => simp at notEmpty
      | cons a one =>
        cases two with
        | nil => simp at notEmpty
        | cons b two =>
          exact List.isChain_cons_cons.mpr ⟨maximal.1 a (by simp) b (by simp), inner⟩

end

omit [DecidableEq Node] in
lemma pairwise_of_inOrder
  (isChain : elems.IsChain fun a b => Equivalent (given less aux) a b = false)
  (inOrder : elems.Pairwise fun a b => given less aux b a = false) :
  elems.Pairwise fun a b => Equivalent (given less aux) a b = false := by
  have rising : elems.IsChain fun a b => given less aux a b = true := by
    rw [List.isChain_iff_forall_rel_of_append_cons_cons]
    intro a b pre behind isElems
    have ne := List.isChain_iff_forall_rel_of_append_cons_cons.mp isChain isElems
    have le := List.isChain_iff_forall_rel_of_append_cons_cons.mp inOrder.isChain isElems
    simpa [Equivalent, le] using ne
  refine (List.isChain_iff_pairwise.mp rising).imp ?_
  intro a b isLess
  simp [Equivalent, isLess]

/-- `list_unique` leaves the first element of every group of equivalent ones and appends the
others to the duplicates. -/
theorem listUnique_partitions (wellFormed : WellFormed heap list elems)
    (apart : Apart heap list elems duplicates old) (enough : elems.length < fuel) :
    ∃ groups after, Grouped (given less aux) elems groups ∧
      listUnique less aux list fuel duplicates heap = .ok ((), after) ∧
      WellFormed after list (firsts groups) ∧
      (∀ target ∈ duplicates, WellFormed after target (old ++ others groups)) ∧
      ((firsts groups).Sublist elems ∧ (others groups).Sublist elems ∧
        (firsts groups ++ others groups).Perm elems) ∧
      ((firsts groups).IsChain fun a b => Equivalent (given less aux) a b = false) ∧
      ((elems.Pairwise fun a b => given less aux b a = false) →
        (firsts groups).Pairwise fun a b => Equivalent (given less aux) a b = false) := by
  have partitions : ∃ groups after, Grouped (given less aux) elems groups ∧
      listUnique less aux list fuel duplicates heap = .ok ((), after) ∧
      WellFormed after list (firsts groups) ∧
      ∀ target ∈ duplicates, WellFormed after target (old ++ others groups) := by
    rw [listUnique, reads_bind_apply]
    cases elems with
    | nil =>
      refine ⟨[], heap, ⟨rfl, by simp, by simp, by simp⟩, ?_, wellFormed, ?_⟩
      · rw [if_pos ((listEmpty_iff wellFormed).mpr rfl), pure_apply]
      intro target isTarget
      simpa [others] using (apart target isTarget).1
    | cons elem rest =>
      have notEmpty : ¬listEmpty list heap = true := by
        rw [listEmpty_iff wellFormed]
        simp
      rcases @uniqueLoop_returns _ _ _ less aux _ _ [] rest _ _ fuel _ _ wellFormed apart
        (by simp at enough; omega) with ⟨group, groups, after, grouped, returned, holds, kept⟩
      refine ⟨_, after, grouped, ?_, by simpa [firsts] using holds, by simpa [others] using kept⟩
      rw [if_neg notEmpty, bind_of_ok (listBegin_eq wellFormed), before_cons, returned]
  rcases partitions with ⟨groups, after, grouped, returned, holds, kept⟩
  have sublist := firsts_sublist groups
  have rest := others_sublist groups
  have perm := firsts_append_others groups
  rw [grouped.all] at sublist rest perm
  exact ⟨groups, after, grouped, returned, holds, kept, ⟨sublist, rest, perm⟩,
    grouped.isChain_firsts, fun inOrder =>
      pairwise_of_inOrder grouped.isChain_firsts (inOrder.sublist sublist)⟩

end Unique

/-- The duplicates go to an empty list. -/
theorem listUnique_partitions_row : ∃ groups after,
    Grouped (given halvesDown ()) [1, 2, 3] groups ∧
    listUnique halvesDown () rowList 4 (some emptyList) rowHeap = .ok ((), after) ∧
    WellFormed after rowList (firsts groups) ∧ WellFormed after emptyList (others groups) := by
  have order := halvesDown_order
  have apart : Apart rowHeap rowList [1, 2, 3] (some emptyList) [] := by
    rintro target ⟨⟩
    exact ⟨empty_wellFormed, by simp [KernelList.chain, rowList, emptyList]⟩
  rcases @listUnique_partitions _ _ _ halvesDown () _ _ _ [] 4 _ order row_wellFormed apart
    (by decide) with ⟨groups, after, grouped, returned, holds, duplicates, -⟩
  exact ⟨groups, after, grouped, returned, holds, duplicates _ rfl⟩

end Pintos.LinkedList
