import Mathlib.Data.List.Chain

/-!
# Doubly linked nodes

Nodes with a link to the one before and one to the one behind, kept in a heap.
A path is a sequence of nodes in which neighbours are linked both ways. Joining two
nodes keeps every path that does not lead away from the first or to the second one,
and so paths are cut and put together by joins.
-/

namespace Pintos

open Function

universe u

@[ext]
structure Links (Node : Type u) where
  prev : Option Node
  next : Option Node
deriving DecidableEq

abbrev LinkHeap (Node : Type u) := Node → Links Node

namespace LinkHeap

variable {Node : Type u} [DecidableEq Node]

def setNext (heap : LinkHeap Node) (node : Node) (value : Option Node) : LinkHeap Node :=
  update heap node { heap node with next := value }

def setPrev (heap : LinkHeap Node) (node : Node) (value : Option Node) : LinkHeap Node :=
  update heap node { heap node with prev := value }

def join (heap : LinkHeap Node) (one two : Node) : LinkHeap Node :=
  setPrev (setNext heap one (some two)) two (some one)

def Linked (heap : LinkHeap Node) (one two : Node) : Prop :=
  (heap one).next = some two ∧ (heap two).prev = some one

def Path (heap : LinkHeap Node) (nodes : List Node) : Prop := nodes.IsChain (Linked heap)

variable {heap : LinkHeap Node} {one two node first last : Node} {val : Option Node}
  {front mid back nodes : List Node}

lemma setNext_next : (setNext heap one val node).next =
  if node = one then val else (heap node).next := by
  rw [setNext, update_apply]
  split <;> rfl

@[simp]
lemma setNext_prev : (setNext heap one val node).prev = (heap node).prev := by
  rw [setNext, update_apply]
  split
  · next same => rw [same]
  · rfl

lemma setPrev_prev : (setPrev heap one val node).prev =
  if node = one then val else (heap node).prev := by
  rw [setPrev, update_apply]
  split <;> rfl

@[simp]
lemma setPrev_next : (setPrev heap one val node).next = (heap node).next := by
  rw [setPrev, update_apply]
  split
  · next same => rw [same]
  · rfl

lemma join_next : (join heap one two node).next =
  if node = one then some two else (heap node).next := by
  rw [join, setPrev_next, setNext_next]

lemma join_prev : (join heap one two node).prev =
  if node = two then some one else (heap node).prev := by
  rw [join, setPrev_prev, setNext_prev]

lemma join_of_ne (notOne : node ≠ one) (notTwo : node ≠ two) :
  join heap one two node = heap node := by
  ext1
  · rw [join_prev, if_neg notTwo]
  · rw [join_next, if_neg notOne]

lemma linked_join : Linked (join heap one two) one two :=
  ⟨by rw [join_next, if_pos rfl], by rw [join_prev, if_pos rfl]⟩

lemma Linked.join {src target : Node} (linked : Linked heap src target) (notFirst : src ≠ one)
  (notSecond : target ≠ two) : Linked (LinkHeap.join heap one two) src target := by
  rcases linked with ⟨next, prev⟩
  exact ⟨by rw [join_next, if_neg notFirst, next], by rw [join_prev, if_neg notSecond, prev]⟩

omit [DecidableEq Node] in
lemma Path.of_linked {after : LinkHeap Node} (path : Path heap nodes)
  (kept : ∀ src ∈ nodes.dropLast, ∀ target ∈ nodes.tail, Linked heap src target →
    Linked after src target) : Path after nodes := by
  refine List.isChain_iff_forall_rel_of_append_cons_cons.mpr ?_
  intro src target pre behind isNodes
  subst isNodes
  refine kept src ?_ target ?_ (List.isChain_iff_forall_rel_of_append_cons_cons.mp path rfl)
  · rw [List.dropLast_append_of_ne_nil (by simp)]
    simp
  · cases pre <;> simp

lemma Path.join_of_not_mem (path : Path heap nodes) (notSrc : one ∉ nodes.dropLast)
  (notTarget : two ∉ nodes.tail) : Path (LinkHeap.join heap one two) nodes := by
  refine path.of_linked ?_
  intro src isSrc target isTarget linked
  refine linked.join ?_ ?_
  · rintro rfl
    exact notSrc isSrc
  rintro rfl
  exact notTarget isTarget

lemma Path.join (inFront : Path heap (front ++ [one])) (inBack : Path heap (two :: back))
  (nodup : (front ++ one :: two :: back).Nodup) :
  Path (LinkHeap.join heap one two) (front ++ one :: two :: back) := by
  have apart := List.nodup_append.mp nodup
  have behind := List.nodup_cons.mp apart.2.1
  refine List.isChain_append_cons_cons.mpr ⟨?_, linked_join, ?_⟩
  · refine inFront.join_of_not_mem ?_ ?_
    · rw [List.dropLast_concat]
      exact fun inFront => apart.2.2 one inFront one (by simp) rfl
    intro isTarget
    rcases List.mem_append.mp (List.mem_of_mem_tail isTarget) with inFront | isOne
    · exact apart.2.2 two inFront two (by simp) rfl
    rw [List.mem_singleton] at isOne
    exact behind.1 (by simp [isOne])
  refine inBack.join_of_not_mem ?_ ?_
  · exact fun isSrc => behind.1 ((List.dropLast_sublist _).subset isSrc)
  · exact (List.nodup_cons.mp behind.2).1

lemma Path.inserted (inFront : Path heap (front ++ [one])) (inMid : Path heap mid)
  (inBack : Path heap (two :: back)) (isFirst : mid.head? = some first)
  (isLast : mid.getLast? = some last) (nodup : (front ++ one :: (mid ++ two :: back)).Nodup) :
  Path (LinkHeap.join (LinkHeap.join heap one first) last two)
    (front ++ one :: (mid ++ two :: back)) := by
  rcases List.head?_eq_some_iff.mp isFirst with ⟨rest, rfl⟩
  have isRest := List.dropLast_append_getLast? last isLast
  have together : front ++ one :: (first :: rest ++ two :: back) =
      (front ++ one :: (first :: rest).dropLast) ++ last :: two :: back := by
    have split : first :: rest ++ two :: back =
        (first :: rest).dropLast ++ last :: two :: back := by
      conv_lhs => rw [← isRest]
      simp
    rw [split]
    simp
  have left : (front ++ one :: (first :: rest).dropLast) ++ [last] =
      front ++ one :: first :: rest := by
    rw [List.append_assoc, List.cons_append, isRest]
  rw [together] at nodup ⊢
  have leftNodup : (front ++ one :: first :: rest).Nodup := by
    rw [← left]
    refine nodup.sublist ?_
    simp
  refine Path.join ?_ ?_ nodup
  · rw [left]
    exact inFront.join inMid leftNodup
  have apart := List.nodup_append.mp nodup
  have notIn : ∀ node ∈ front ++ one :: first :: rest, node ∉ two :: back := by
    intro node isNode inBack
    rw [← left, List.mem_append, List.mem_singleton] at isNode
    rcases isNode with inFront | rfl
    · exact apart.2.2 node inFront node (List.mem_cons_of_mem _ inBack) rfl
    · exact (List.nodup_cons.mp apart.2.1).1 inBack
  refine inBack.join_of_not_mem ?_ ?_
  · exact fun isSrc => notIn one (by simp) ((List.dropLast_sublist _).subset isSrc)
  · exact fun isTarget => notIn first (by simp) (List.mem_of_mem_tail isTarget)

end LinkHeap

end Pintos
