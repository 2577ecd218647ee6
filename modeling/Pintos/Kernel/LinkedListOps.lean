import Pintos.Kernel.LinkedList

/-!
# The operations on linked lists

Every operation of `list.c` is a sequence of joins. Removing a range joins its
neighbours, inserting one joins its ends to the neighbours it gets, and splicing does
one after the other. Reversing swaps the links of every element and then joins the
ends the other way round.
-/

namespace Pintos.LinkedList

open Pintos.Computation LinkHeap

variable {Node : Type} [DecidableEq Node] {heap : LinkHeap Node} {list : KernelList Node}
  {ahead mid behind elems : List Node} {elem pre first last one two pred succ : Node}

section Chains

omit [DecidableEq Node]

lemma head_cons_eq (list : KernelList Node) (ahead : List Node) :
  ∃ front, list.head :: ahead = front ++ [list.after ahead] := by
  rcases List.eq_nil_or_concat ahead with rfl | ⟨front, last, rfl⟩
  · exact ⟨[], rfl⟩
  refine ⟨list.head :: front, ?_⟩
  simp [KernelList.after]

lemma append_tail_eq (list : KernelList Node) (behind : List Node) :
  ∃ back, behind ++ [list.tail] = list.before behind :: back := by
  cases behind with
  | nil => exact ⟨[], rfl⟩
  | cons first rest => exact ⟨rest ++ [list.tail], rfl⟩

lemma chain_append (list : KernelList Node) (ahead behind : List Node) :
  list.chain (ahead ++ behind) = (list.head :: ahead) ++ (behind ++ [list.tail]) := by
  simp [KernelList.chain]

lemma chain_between (list : KernelList Node) (ahead mid behind : List Node) :
  list.chain (ahead ++ mid ++ behind) =
    (list.head :: ahead) ++ (mid ++ (behind ++ [list.tail])) := by
  simp [KernelList.chain]

@[grind .]
lemma after_mem (list : KernelList Node) (ahead : List Node) :
  list.after ahead ∈ list.head :: ahead := by
  grind [KernelList.after]

@[grind .]
lemma before_mem (list : KernelList Node) (behind : List Node) :
  list.before behind ∈ behind ++ [list.tail] := by
  cases behind <;> simp [KernelList.before]

lemma ne_ends_of_mem (nodup : (list.chain (ahead ++ mid ++ behind)).Nodup)
  (isMid : elem ∈ mid) : elem ≠ list.after ahead ∧ elem ≠ list.before behind := by
  grind [KernelList.chain]

end Chains

namespace WellFormed

omit [DecidableEq Node] in
lemma linked (wf : WellFormed heap list (ahead ++ behind)) :
  Linked heap (list.after ahead) (list.before behind) := by
  have path := wf.path
  rcases head_cons_eq list ahead with ⟨front, isFront⟩
  rcases append_tail_eq list behind with ⟨back, isBack⟩
  rw [chain_append, isFront, isBack, List.append_assoc] at path
  exact (List.isChain_append_cons_cons.mp path).2.1

omit [DecidableEq Node] in
lemma of_same {after : LinkHeap Node} (wf : WellFormed heap list elems)
  (same : ∀ node ∈ list.chain elems, after node = heap node) : WellFormed after list elems := by
  refine ⟨wf.nodup, ?_, ?_, ?_⟩
  · refine wf.path.of_linked ?_
    intro src isSrc target isTarget linked
    rw [Linked, same src ((List.dropLast_sublist _).subset isSrc),
      same target (List.mem_of_mem_tail isTarget)]
    exact linked
  · rw [same _ (by simp [KernelList.chain])]
    exact wf.headPrev
  rw [same _ (by simp [KernelList.chain])]
  exact wf.tailNext

lemma removed (wf : WellFormed heap list (ahead ++ mid ++ behind)) :
  WellFormed (join heap (list.after ahead) (list.before behind)) list (ahead ++ behind) := by
  have whole := wf.path
  have nodup : (list.chain (ahead ++ behind)).Nodup :=
    wf.nodup.sublist (by simp [KernelList.chain])
  refine ⟨nodup, ?_, ?_, ?_⟩
  · rcases head_cons_eq list ahead with ⟨front, isFront⟩
    rcases append_tail_eq list behind with ⟨back, isBack⟩
    rw [chain_between, isFront, isBack] at whole
    rw [chain_append, isFront, isBack, List.append_assoc] at nodup ⊢
    exact Path.join whole.left_of_append whole.right_of_append.right_of_append nodup
  · rw [join_prev, if_neg (by grind [KernelList.chain]), wf.headPrev]
  · rw [join_next, if_neg (by grind [KernelList.chain]), wf.tailNext]

lemma inserted (wf : WellFormed heap list (ahead ++ behind)) (path : Path heap mid)
  (nodup : (list.chain (ahead ++ mid ++ behind)).Nodup) (isFirst : mid.head? = some first)
  (isLast : mid.getLast? = some last) :
  WellFormed (join (join heap (list.after ahead) first) last (list.before behind)) list
    (ahead ++ mid ++ behind) := by
  have whole := wf.path
  have inMid := List.mem_of_head? isFirst
  refine ⟨nodup, ?_, ?_, ?_⟩
  · rcases head_cons_eq list ahead with ⟨front, isFront⟩
    rcases append_tail_eq list behind with ⟨back, isBack⟩
    rw [chain_append, isFront, isBack] at whole
    rw [chain_between, isFront, isBack, List.append_assoc] at nodup ⊢
    exact Path.inserted whole.left_of_append path whole.right_of_append isFirst isLast nodup
  · rw [join_prev, if_neg (by grind [KernelList.chain]), join_prev,
      if_neg (by grind [KernelList.chain]), wf.headPrev]
  rw [join_next, if_neg (by grind [KernelList.chain]), join_next,
    if_neg (by grind [KernelList.chain]), wf.tailNext]

end WellFormed

section Evaluation

section

omit [DecidableEq Node]

lemma ensure_bind {Value : Type} {condition : LinkHeap Node → Bool}
  {next : Unit → Uses Node Value} (holds : condition heap = true) :
  (ensure condition >>= next) heap = next () heap :=
  bind_of_ok (by rw [ensure, if_pos holds])

lemma isInterior_or_isTail (hasPrev : (heap pre).prev = some pred) :
  (isInterior heap (some pre) || isTail heap (some pre)) = true := by
  simp only [isInterior, isTail, Option.any_some, hasPrev]
  cases (heap pre).next <;> rfl

lemma isInterior_of_links (hasPrev : (heap elem).prev = some pred)
  (hasNext : (heap elem).next = some succ) : isInterior heap (some elem) = true := by
  simp [isInterior, hasPrev, hasNext]

end

lemma stores_eq_join (ne : one ≠ last) :
  setPrev (setNext (setNext (setPrev heap first (some one)) last (some two)) one (some first)) two
    (some last) = join (join heap one first) last two := by
  funext node
  ext1
  · simp [setPrev_prev, join_prev]
  simp only [setPrev_next, setNext_next, join_next]
  by_cases isOne : node = one
  · subst isOne
    rw [if_pos rfl, if_neg ne, if_pos rfl]
  · rw [if_neg isOne, if_neg isOne]

lemma listInsert_eq (hasPrev : (heap pre).prev = some pred) (notBefore : pre ≠ elem)
  (notPred : pred ≠ elem) :
  listInsert (some pre) (some elem) heap = .ok ((), join (join heap pred elem) elem pre) := by
  have kept : (setNext (setPrev heap elem (some pred)) elem (some pre) pre).prev = some pred := by
    rw [setNext_prev, setPrev_prev, if_neg notBefore, hasPrev]
  rw [listInsert, ensure_bind (isInterior_or_isTail hasPrev), ensure_bind rfl]
  simp only [loadPrev, storePrev, storeNext, reads_bind_apply, updates_bind_apply, updates_apply,
    hasPrev, kept]
  rw [stores_eq_join notPred]

lemma listRemove_eq (hasPrev : (heap elem).prev = some pred)
  (hasNext : (heap elem).next = some succ) (notPred : elem ≠ pred) :
  listRemove (some elem) heap = .ok (some succ, join heap pred succ) := by
  have kept : (setNext heap pred (some succ) elem).next = some succ := by
    rw [setNext_next, if_neg notPred, hasNext]
  rw [listRemove, ensure_bind (isInterior_of_links hasPrev hasNext)]
  simp only [loadPrev, loadNext, storePrev, storeNext, reads_bind_apply, updates_bind_apply,
    reads_apply, hasPrev, hasNext, kept, setNext_prev, setPrev_next]
  rfl

lemma listSplice_eq {begin back : Node} (notEmpty : first ≠ succ)
  (hasPrev : (heap pre).prev.isSome) (lastPrev : (heap succ).prev = some back)
  (firstPrev : (heap first).prev = some pred) (firstNext : (heap first).next.isSome)
  (backNext : (heap back).next = some succ) (backPrev : (heap back).prev.isSome)
  (beforePrev : (join heap pred succ pre).prev = some begin) (notPred : back ≠ pred)
  (notBack : begin ≠ back) (notFirst : pre ≠ first) :
  listSplice (some pre) (some first) (some succ) heap =
    .ok ((), join (join (join heap pred succ) begin first) back pre) := by
  rcases Option.isSome_iff_exists.mp hasPrev with ⟨_, isPrev⟩
  rcases Option.isSome_iff_exists.mp firstNext with ⟨_, isNext⟩
  rcases Option.isSome_iff_exists.mp backPrev with ⟨_, isBackPrev⟩
  have kept : (setNext heap pred (some succ) back).next = some succ := by
    rw [setNext_next, if_neg notPred, backNext]
  have stays : (setPrev (join heap pred succ) first (some begin) pre).prev = some begin := by
    rw [setPrev_prev, if_neg notFirst, beforePrev]
  rw [listSplice, ensure_bind (isInterior_or_isTail isPrev),
    if_neg (fun same => notEmpty (Option.some.inj same)),
    bind_of_ok (show listPrev (some succ) heap = .ok (some back, heap) by
      rw [listPrev, ensure_bind (isInterior_or_isTail lastPrev), loadPrev, reads_apply, lastPrev]),
    ensure_bind (isInterior_of_links firstPrev isNext),
    ensure_bind (isInterior_of_links isBackPrev backNext)]
  simp only [loadPrev, loadNext, storePrev, storeNext, reads_bind_apply, updates_bind_apply,
    firstPrev, backNext, kept, setNext_prev]
  rw [← join, beforePrev, stays]
  simp only [updates_bind_apply, updates_apply]
  rw [stores_eq_join notBack]

end Evaluation

section Single

lemma insert_returns (wf : WellFormed heap list (ahead ++ behind))
  (isNew : elem ∉ list.chain (ahead ++ behind)) :
  Returns (listInsert (some (list.before behind)) (some elem)) heap ()
    [list.after ahead, elem, list.before behind]
    fun after => WellFormed after list (ahead ++ elem :: behind) := by
  have old := wf.nodup
  have nodup : (list.chain (ahead ++ [elem] ++ behind)).Nodup := by
    grind [KernelList.chain]
  refine ⟨_, listInsert_eq wf.linked.2 ?_ ?_, ?_, ?_⟩
  · grind [KernelList.chain]
  · grind [KernelList.chain]
  · have inserted := wf.inserted (List.isChain_singleton elem) nodup rfl rfl
    rwa [List.append_assoc] at inserted
  intro node notTouched
  simp only [List.mem_cons, List.not_mem_nil, or_false, not_or] at notTouched
  rw [join_of_ne notTouched.2.1 notTouched.2.2, join_of_ne notTouched.1 notTouched.2.1]

omit [DecidableEq Node] in
lemma WellFormed.linked_after (wf : WellFormed heap list (ahead ++ elem :: behind)) :
  Linked heap elem (list.before behind) := by
  rw [List.append_cons] at wf
  have linked := wf.linked
  simpa [KernelList.after] using linked

lemma remove_returns (wf : WellFormed heap list (ahead ++ elem :: behind)) :
  Returns (listRemove (some elem)) heap (some (list.before behind))
    [list.after ahead, list.before behind]
    fun after => WellFormed after list (ahead ++ behind) := by
  have nodup := wf.nodup
  refine ⟨_, listRemove_eq wf.linked.2 wf.linked_after.1 ?_, ?_, ?_⟩
  · grind [KernelList.chain]
  · rw [List.append_cons] at wf
    exact wf.removed
  intro node notTouched
  simp only [List.mem_cons, List.not_mem_nil, or_false, not_or] at notTouched
  exact join_of_ne notTouched.1 notTouched.2

omit [DecidableEq Node] in
lemma listBegin_eq (wf : WellFormed heap list elems) :
  listBegin list heap = .ok (some (list.before elems), heap) := by
  have linked : Linked heap (list.after []) (list.before elems) :=
    @WellFormed.linked _ heap list [] elems wf
  exact congrArg (fun next => Except.ok (next, heap)) linked.1

lemma pushFront_returns (wf : WellFormed heap list elems) (isNew : elem ∉ list.chain elems) :
  Returns (listPushFront list (some elem)) heap () [list.head, elem, list.before elems]
    fun after => WellFormed after list (elem :: elems) := by
  rcases @insert_returns _ _ heap list [] elems elem wf isNew with
    ⟨after, ran, holds, same⟩
  exact ⟨after, (bind_of_ok (listBegin_eq wf)).trans ran, holds, same⟩

lemma pushBack_returns (wf : WellFormed heap list elems) (isNew : elem ∉ list.chain elems) :
  Returns (listPushBack list (some elem)) heap () [list.after elems, elem, list.tail]
    fun after => WellFormed after list (elems ++ [elem]) := by
  have same := List.append_nil elems
  rw [← same] at wf isNew
  exact insert_returns wf isNew

lemma popFront_returns (wf : WellFormed heap list (elem :: elems)) :
  Returns (listPopFront list) heap (some elem) [list.head, list.before elems]
    fun after => WellFormed after list elems := by
  have linked : Linked heap list.head elem :=
    @WellFormed.linked _ heap list [] (elem :: elems) wf
  have nodup := wf.nodup
  have notTail : elem ≠ list.tail := by grind [KernelList.chain]
  have isFront : listFront list heap = .ok (some elem, heap) := by
    rw [listFront, ensure_bind (by simp [listEmpty, linked.1, notTail]), loadNext, reads_apply,
      linked.1]
  rcases @remove_returns _ _ heap list [] elems elem wf with ⟨after, ran, holds, same⟩
  refine ⟨after, ?_, holds, same⟩
  rw [listPopFront, bind_of_ok isFront, bind_of_ok ran, pure_apply]

lemma popBack_returns (wf : WellFormed heap list (elems ++ [elem])) :
  Returns (listPopBack list) heap (some elem) [list.after elems, list.tail]
    fun after => WellFormed after list elems := by
  have linked : Linked heap elem list.tail := wf.linked_after
  have first : Linked heap list.head (list.before (elems ++ [elem])) :=
    @WellFormed.linked _ heap list [] (elems ++ [elem]) wf
  have nodup := wf.nodup
  have notTail : list.before (elems ++ [elem]) ≠ list.tail := by
    cases elems <;> grind [KernelList.chain, KernelList.before]
  have isBack : listBack list heap = .ok (some elem, heap) := by
    rw [listBack, ensure_bind (by simp [listEmpty, first.1, notTail]), loadPrev, reads_apply,
      linked.2]
  rcases @remove_returns _ _ heap list elems [] elem wf with ⟨after, ran, holds, same⟩
  refine ⟨after, ?_, by simpa using holds, same⟩
  rw [listPopBack, bind_of_ok isBack, bind_of_ok ran, pure_apply]

end Single

section Splice

variable {src target : KernelList Node} {front back passed range : List Node}

lemma listSplice_wellFormed (wf : WellFormed heap src (ahead ++ mid ++ behind))
  (isFirst : mid.head? = some first) (isLast : mid.getLast? = some last)
  (hasPrev : (heap (target.before back)).prev.isSome)
  (without : WellFormed (join heap (src.after ahead) (src.before behind)) target
    (front ++ back)) (nodup : (target.chain (front ++ mid ++ back)).Nodup) :
  listSplice (some (target.before back)) (some (src.before (mid ++ behind)))
      (some (src.before behind)) heap =
    .ok ((), join (join (join heap (src.after ahead) (src.before behind))
      (target.after front) first) last (target.before back)) ∧
  WellFormed (join (join (join heap (src.after ahead) (src.before behind))
    (target.after front) first) last (target.before back)) target (front ++ mid ++ back) := by
  rcases List.head?_eq_some_iff.mp isFirst with ⟨rest, isRest⟩
  have isInit := List.dropLast_append_getLast? last isLast
  have inMid := List.mem_of_head? isFirst
  have lastInMid := List.mem_of_getLast? isLast
  have whole := wf.nodup
  have isBegin : src.before (mid ++ behind) = first := by
    rw [isRest]
    rfl
  have toFirst : Linked heap (src.after ahead) first := by
    rw [← isBegin]
    rw [List.append_assoc] at wf
    exact wf.linked
  have fromFirst : Linked heap first (src.before (rest ++ behind)) := by
    rw [List.append_assoc, isRest] at wf
    exact wf.linked_after
  have split : ahead ++ mid ++ behind = (ahead ++ mid.dropLast) ++ (last :: behind) := by
    conv_lhs => rw [← isInit]
    simp
  rw [split] at wf
  have toLast : Linked heap (src.after (ahead ++ mid.dropLast)) last := wf.linked
  have fromLast := wf.linked_after
  refine ⟨?_, ?_⟩
  · rw [isBegin]
    refine listSplice_eq ?_ hasPrev fromLast.2 toFirst.2 ?_ fromLast.1 ?_ without.linked.2 ?_ ?_ ?_
    · exact (ne_ends_of_mem whole inMid).2
    · rw [fromFirst.1]
      rfl
    · rw [toLast.2]
      rfl
    · exact (ne_ends_of_mem whole lastInMid).1
    · exact (ne_ends_of_mem nodup lastInMid).1.symm
    · exact (ne_ends_of_mem nodup inMid).2.symm
  refine without.inserted ?_ nodup isFirst isLast
  have inside : Path heap mid := by
    rw [← split] at wf
    refine wf.path.infix ⟨src.head :: ahead, behind ++ [src.tail], ?_⟩
    simp [KernelList.chain]
  refine inside.join_of_not_mem ?_ ?_
  · exact fun isMid => (ne_ends_of_mem whole ((List.dropLast_sublist _).subset isMid)).1 rfl
  · exact fun isMid => (ne_ends_of_mem whole (List.mem_of_mem_tail isMid)).2 rfl

lemma listSplice_empty (hasPrev : (heap pre).prev.isSome) :
  listSplice (some pre) (some first) (some first) heap = .ok ((), heap) := by
  rcases Option.isSome_iff_exists.mp hasPrev with ⟨_, isPrev⟩
  rw [listSplice, ensure_bind (isInterior_or_isTail isPrev), if_pos rfl, pure_apply]

omit [DecidableEq Node] in
lemma chain_perm (list : KernelList Node) (ahead mid behind : List Node) :
  (list.chain (ahead ++ mid ++ behind)).Perm (mid ++ list.chain (ahead ++ behind)) := by
  rw [chain_between, chain_append]
  exact List.perm_append_comm_assoc _ _ _

omit [DecidableEq Node] in
lemma exists_ends (notNil : range ≠ []) :
  ∃ first last, range.head? = some first ∧ range.getLast? = some last :=
  ⟨_, _, List.head?_eq_some_head notNil, List.getLast?_eq_some_getLast notNil⟩

lemma splice_same {begin node : Node} (isFirst : range.head? = some first)
  (isLast : range.getLast? = some last) (notTouched : node ∉ [pred, succ, begin, pre] ++
    (range.head?.toList ++ range.getLast?.toList)) :
  join (join (join heap pred succ) begin first) last pre node = heap node := by
  simp only [isFirst, isLast, Option.toList_some, List.mem_append, List.mem_cons, List.not_mem_nil,
    or_false, not_or] at notTouched
  rcases notTouched with ⟨⟨notPred, notSucc, notBegin, notBefore⟩, notFirst, notLast⟩
  rw [join_of_ne notLast notBefore, join_of_ne notBegin notFirst, join_of_ne notPred notSucc]

omit [DecidableEq Node] in
lemma WellFormed.prev_isSome (wf : WellFormed heap list (ahead ++ behind)) :
  (heap (list.before behind)).prev.isSome := by
  rw [wf.linked.2]
  rfl

lemma spliceAcross_returns (inSrc : WellFormed heap src (ahead ++ range ++ behind))
  (inTarget : WellFormed heap target (front ++ back))
  (disjoint : (src.chain (ahead ++ range ++ behind)).Disjoint (target.chain (front ++ back))) :
  Returns (listSplice (some (target.before back)) (some (src.before (range ++ behind)))
    (some (src.before behind))) heap ()
    ([src.after ahead, src.before behind, target.after front, target.before back] ++
      (range.head?.toList ++ range.getLast?.toList))
    fun after => WellFormed after src (ahead ++ behind) ∧
      WellFormed after target (front ++ range ++ back) := by
  by_cases isEmpty : range = []
  · subst isEmpty
    refine ⟨heap, listSplice_empty inTarget.prev_isSome, ⟨?_, ?_⟩, fun _ _ => rfl⟩
    · simpa using inSrc
    · simpa using inTarget
  rcases exists_ends isEmpty with ⟨first, last, isFirst, isLast⟩
  have inRange := List.mem_of_head? isFirst
  have whole := inSrc.nodup
  have without : WellFormed (join heap (src.after ahead) (src.before behind)) target
      (front ++ back) := by
    refine inTarget.of_same ?_
    intro node isNode
    have notSrc : node ∉ src.chain (ahead ++ range ++ behind) := (disjoint · isNode)
    refine join_of_ne ?_ ?_
    · grind [KernelList.chain]
    · grind [KernelList.chain]
  have nodup : (target.chain (front ++ range ++ back)).Nodup := by
    rw [(chain_perm target front range back).nodup_iff]
    rw [(chain_perm src ahead range behind).nodup_iff] at whole
    refine List.nodup_append.mpr ⟨(List.nodup_append.mp whole).1, inTarget.nodup, ?_⟩
    rintro node isRange _ isTarget rfl
    exact disjoint (by grind [KernelList.chain]) isTarget
  rcases listSplice_wellFormed inSrc isFirst isLast inTarget.prev_isSome without nodup with
    ⟨ran, spliced⟩
  refine ⟨_, ran, ⟨?_, spliced⟩, fun node => splice_same isFirst isLast⟩
  refine inSrc.removed.of_same ?_
  intro node isNode
  have notTarget : node ∉ target.chain (front ++ back) := disjoint (by grind [KernelList.chain])
  have notRange : node ∉ range := by grind [KernelList.chain]
  rw [join_of_ne (by grind) (by grind [KernelList.chain]),
    join_of_ne (by grind [KernelList.chain]) (by grind)]

lemma spliceWithin_returns (wf : WellFormed heap list (ahead ++ range ++ behind))
  (samePlaces : front ++ back = ahead ++ behind)
  (hasPrev : (heap (list.before back)).prev.isSome) :
  Returns (listSplice (some (list.before back)) (some (list.before (range ++ behind)))
    (some (list.before behind))) heap ()
    ([list.after ahead, list.before behind, list.after front, list.before back] ++
      (range.head?.toList ++ range.getLast?.toList))
    fun after => WellFormed after list (front ++ range ++ back) := by
  by_cases isEmpty : range = []
  · subst isEmpty
    refine ⟨heap, listSplice_empty hasPrev, ?_, fun _ _ => rfl⟩
    simpa [samePlaces] using wf
  rcases exists_ends isEmpty with ⟨first, last, isFirst, isLast⟩
  have without := wf.removed
  rw [← samePlaces] at without
  have nodup : (list.chain (front ++ range ++ back)).Nodup := by
    rw [(chain_perm list front range back).nodup_iff, samePlaces,
      ← (chain_perm list ahead range behind).nodup_iff]
    exact wf.nodup
  rcases listSplice_wellFormed wf isFirst isLast hasPrev without nodup with
    ⟨ran, spliced⟩
  exact ⟨_, ran, spliced, fun node => splice_same isFirst isLast⟩

lemma spliceForward_returns (notEmpty : passed ≠ [])
  (wf : WellFormed heap list (front ++ passed ++ range ++ behind)) :
  Returns (listSplice (some (list.before passed)) (some (list.before (range ++ behind)))
    (some (list.before behind))) heap ()
    ([list.after (front ++ passed), list.before behind, list.after front,
      list.before passed] ++ (range.head?.toList ++ range.getLast?.toList))
    fun after => WellFormed after list (front ++ range ++ passed ++ behind) := by
  have isBefore : ∀ rest, list.before (passed ++ rest) = list.before passed := by
    intro rest
    rcases List.ne_nil_iff_exists_cons.mp notEmpty with ⟨first, others, rfl⟩
    rfl
  have hasPrev : (heap (list.before (passed ++ behind))).prev.isSome := by
    have split : front ++ passed ++ range ++ behind = front ++ (passed ++ (range ++ behind)) := by
      simp
    rw [isBefore, ← isBefore (range ++ behind)]
    rw [split] at wf
    exact wf.prev_isSome
  have within := @spliceWithin_returns _ _ heap list (front ++ passed) behind front
    (passed ++ behind) range wf (by simp) hasPrev
  rw [isBefore] at within
  simpa only [List.append_assoc] using within

lemma spliceBackward_returns (wf : WellFormed heap list (ahead ++ range ++ passed ++ back)) :
  Returns (listSplice (some (list.before back)) (some (list.before (range ++ passed ++ back)))
    (some (list.before (passed ++ back)))) heap ()
    ([list.after ahead, list.before (passed ++ back), list.after (ahead ++ passed),
      list.before back] ++ (range.head?.toList ++ range.getLast?.toList))
    fun after => WellFormed after list (ahead ++ passed ++ range ++ back) := by
  have hasPrev := wf.prev_isSome
  rw [List.append_assoc] at wf
  have within := @spliceWithin_returns _ _ heap list ahead (passed ++ back) (ahead ++ passed)
    back range wf (by simp) hasPrev
  simpa only [List.append_assoc] using within

end Splice

section Reverse

def swapLinks (heap : LinkHeap Node) (nodes : List Node) : LinkHeap Node := fun node =>
  if node ∈ nodes then { prev := (heap node).next, next := (heap node).prev } else heap node

variable {nodes : List Node}

lemma swapLinks_of_mem (mem : elem ∈ nodes) :
  swapLinks heap nodes elem = { prev := (heap elem).next, next := (heap elem).prev } :=
  if_pos mem

lemma swapLinks_of_not_mem (notMem : elem ∉ nodes) : swapLinks heap nodes elem = heap elem :=
  if_neg notMem

lemma swapLinks_concat {done : List Node} :
  setNext (setPrev (swapLinks heap done) elem (heap elem).next) elem (heap elem).prev =
    swapLinks heap (done ++ [elem]) := by
  funext node
  ext1
  · rw [setNext_prev, setPrev_prev]
    by_cases same : node = elem <;> simp [swapLinks, same]
  rw [setNext_next]
  by_cases same : node = elem <;> simp [swapLinks, same]

lemma reverseLoop_eq {done rest : List Node} {fuel : ℕ}
  (wf : WellFormed heap list (done ++ rest)) (enough : rest.length < fuel) :
  reverseLoop list fuel (some (list.before rest)) (swapLinks heap done) =
    .ok ((), swapLinks heap (done ++ rest)) := by
  induction rest generalizing done fuel with
  | nil =>
    cases fuel with
    | zero => cases enough
    | succ fuel =>
      have atEnd : some (list.before []) = listEnd list := rfl
      rw [reverseLoop, if_pos atEnd, pure_apply, List.append_nil]
  | cons elem rest ih =>
    cases fuel with
    | zero => cases enough
    | succ fuel =>
      have nodup := wf.nodup
      have notDone : elem ∉ done := by grind [KernelList.chain]
      have notTail : elem ≠ list.tail := by grind [KernelList.chain]
      have hasNext := wf.linked_after.1
      have isElem : swapLinks heap done elem = heap elem := swapLinks_of_not_mem notDone
      have notEnd : some (list.before (elem :: rest)) ≠ listEnd list := fun same =>
        notTail (Option.some.inj same)
      rw [reverseLoop, if_neg notEnd]
      simp only [KernelList.before, List.headD_cons, loadPrev, loadNext, storePrev, storeNext,
        reads_bind_apply, updates_bind_apply, isElem]
      rw [List.append_cons] at wf ⊢
      rw [swapLinks_concat, swapLinks_of_mem (by simp), hasNext]
      exact ih wf (by simpa using enough)

section

omit [DecidableEq Node]

lemma head_ne_tail (wf : WellFormed heap list elems) : list.head ≠ list.tail := by
  have nodup := wf.nodup
  grind [KernelList.chain]

lemma ends_not_mem (wf : WellFormed heap list elems) : list.head ∉ elems ∧ list.tail ∉ elems := by
  have nodup := wf.nodup
  grind [KernelList.chain]

lemma chain_perm_of_perm {others : List Node} (perm : elems.Perm others) :
  (list.chain elems).Perm (list.chain others) :=
  (perm.append_right _).cons _

end

lemma listReverse_eq {fuel : ℕ} (wf : WellFormed heap list elems)
  (isFirst : elems.head? = some first) (isLast : elems.getLast? = some last)
  (enough : elems.length < fuel) : listReverse fuel list heap =
    .ok ((), join (join (swapLinks heap elems) list.head last) first list.tail) := by
  have inElems := List.mem_of_head? isFirst
  have lastInElems := List.mem_of_getLast? isLast
  rcases ends_not_mem wf with ⟨notHead, notTail⟩
  have firstNotHead : first ≠ list.head := fun same => notHead (same ▸ inElems)
  have firstNotTail : first ≠ list.tail := fun same => notTail (same ▸ inElems)
  have lastNotTail : last ≠ list.tail := fun same => notTail (same ▸ lastInElems)
  have isBefore : list.before elems = first := by
    rcases List.head?_eq_some_iff.mp isFirst with ⟨rest, rfl⟩
    rfl
  have isAfter : list.after elems = last := by
    rw [KernelList.after, List.getLastD_eq_getLast?, isLast]
    rfl
  have toFirst : Linked heap list.head first := by
    rw [← isBefore]
    exact @WellFormed.linked _ heap list [] elems wf
  have fromLast : Linked heap last list.tail := by
    rw [← isAfter]
    exact @WellFormed.linked _ heap list elems [] (by simpa using wf)
  have notEmpty : listEmpty list heap = false := by
    simp [listEmpty, toFirst.1, firstNotTail]
  have looped : reverseLoop list fuel (some first) heap = .ok ((), swapLinks heap elems) := by
    have loops := @reverseLoop_eq _ _ heap list [] elems fuel wf enough
    rw [isBefore] at loops
    exact loops
  have isBegin : listBegin list heap = .ok (some first, heap) := by
    rw [listBegin, loadNext, reads_apply, toFirst.1]
  rw [listReverse, reads_bind_apply, notEmpty]
  simp only [Bool.false_eq_true, if_false]
  rw [bind_of_ok isBegin, bind_of_ok looped]
  simp only [loadPrev, loadNext, storePrev, storeNext, reads_bind_apply, updates_bind_apply,
    updates_apply, swapLinks_of_not_mem notHead, swapLinks_of_not_mem notTail, toFirst.1,
    fromLast.2, setPrev_next, setNext_next, setPrev_prev, setNext_prev, if_true,
    swapLinks_of_mem inElems, swapLinks_of_mem lastInElems, fromLast.1, toFirst.2,
    if_neg firstNotHead, if_neg lastNotTail]
  refine congrArg (fun heap => Except.ok ((), heap)) (funext fun node => ?_)
  ext1
  · simp only [setNext_prev, setPrev_prev, join_prev]
    by_cases isTail : node = list.tail
    · rw [if_pos isTail, if_pos isTail, if_neg (isTail ▸ lastNotTail.symm)]
    · rw [if_neg isTail, if_neg isTail]
  · simp [setNext_next, join_next]

lemma path_swapLinks (path : Path heap elems) : Path (swapLinks heap elems) elems.reverse := by
  refine List.isChain_reverse.mpr (List.isChain_iff_forall_rel_of_append_cons_cons.mpr ?_)
  intro src target pre behind isNodes
  have linked : Linked heap src target :=
    List.isChain_iff_forall_rel_of_append_cons_cons.mp path isNodes
  have isSrc : src ∈ elems := by simp [isNodes]
  have isTarget : target ∈ elems := by simp [isNodes]
  refine ⟨?_, ?_⟩
  · rw [swapLinks_of_mem isTarget]
    exact linked.2
  rw [swapLinks_of_mem isSrc]
  exact linked.1

lemma reverse_returns (wf : WellFormed heap list elems) :
  ∃ bound, ∀ fuel ≥ bound, Returns (listReverse fuel list) heap () (list.chain elems)
    fun after => WellFormed after list elems.reverse := by
  refine ⟨elems.length + 1, fun fuel enough => ?_⟩
  by_cases isEmpty : elems = []
  · subst isEmpty
    have toTail : Linked heap list.head list.tail :=
      @WellFormed.linked _ heap list [] [] wf
    refine ⟨heap, ?_, wf, fun _ _ => rfl⟩
    rw [listReverse, reads_bind_apply, listEmpty, toTail.1, decide_eq_true rfl]
    rfl
  rcases exists_ends isEmpty with ⟨first, last, isFirst, isLast⟩
  have inElems := List.mem_of_head? isFirst
  have lastInElems := List.mem_of_getLast? isLast
  rcases ends_not_mem wf with ⟨notHead, notTail⟩
  have lastNotHead : list.head ≠ last := fun same => notHead (same ▸ lastInElems)
  have firstNotTail : list.tail ≠ first := fun same => notTail (same ▸ inElems)
  have differ := head_ne_tail wf
  refine ⟨_, listReverse_eq wf isFirst isLast enough, ?_, ?_⟩
  · have nodup := (chain_perm_of_perm (List.reverse_perm elems)).nodup_iff.mpr wf.nodup
    have inside : Path heap elems :=
      wf.path.infix ⟨[list.head], [list.tail], by simp [KernelList.chain]⟩
    refine ⟨nodup, ?_, ?_, ?_⟩
    · refine @Path.inserted _ _ _ list.head list.tail last first [] elems.reverse []
        (List.isChain_singleton _) (path_swapLinks inside) (List.isChain_singleton _) ?_ ?_ nodup
      · rw [List.head?_reverse, isLast]
      · rw [List.getLast?_reverse, isFirst]
    · rw [join_prev, if_neg differ, join_prev, if_neg lastNotHead,
        swapLinks_of_not_mem notHead, wf.headPrev]
    rw [join_next, if_neg firstNotTail, join_next, if_neg differ.symm,
      swapLinks_of_not_mem notTail, wf.tailNext]
  intro node notIn
  rw [join_of_ne (by grind [KernelList.chain]) (by grind [KernelList.chain]),
    join_of_ne (by grind [KernelList.chain]) (by grind [KernelList.chain]),
    swapLinks_of_not_mem (by grind [KernelList.chain])]

end Reverse

/-- The lists of the kernel are sequences. -/
theorem implementsSequences (Node : Type) [DecidableEq Node] : ImplementsSequences Node where
  insert _ _ _ _ _ wellFormed isNew := insert_returns wellFormed isNew
  pushFront _ _ _ _ wellFormed isNew := pushFront_returns wellFormed isNew
  pushBack _ _ _ _ wellFormed isNew := pushBack_returns wellFormed isNew
  remove _ _ _ _ _ wellFormed := remove_returns wellFormed
  popFront _ _ _ _ wellFormed := popFront_returns wellFormed
  popBack _ _ _ _ wellFormed := popBack_returns wellFormed
  spliceAcross _ _ _ _ _ _ _ _ inSource inTarget disjoint :=
    spliceAcross_returns inSource inTarget disjoint
  spliceForward _ _ _ _ _ _ notEmpty wellFormed := spliceForward_returns notEmpty wellFormed
  spliceBackward _ _ _ _ _ _ wellFormed := spliceBackward_returns wellFormed
  reverse _ _ _ wellFormed := reverse_returns wellFormed

end Pintos.LinkedList
