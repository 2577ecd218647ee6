import Pintos.Kernel.Stop
import Pintos.Library.DoublyLinked

/-!
# Linked lists

`lib/kernel/list.c` on the level of pointers. A `struct list_elem` is a node of a
heap, a pointer is a node or null, and a list has two nodes of its own, its head and
its tail.
-/

namespace Pintos.LinkedList

universe u

open Pintos.Computation LinkHeap

structure KernelList (Node : Type u) where
  head : Node
  tail : Node

variable {Node : Type} [DecidableEq Node]

abbrev Uses (Node : Type) := Computation Stop (LinkHeap Node)

def loadPrev : Option Node → Uses Node (Option Node)
  | some elem => reads fun heap => (heap elem).prev
  | none => stop .fault

def loadNext : Option Node → Uses Node (Option Node)
  | some elem => reads fun heap => (heap elem).next
  | none => stop .fault

def storePrev (value : Option Node) : Option Node → Uses Node Unit
  | some elem => updates fun heap => heap.setPrev elem value
  | none => stop .fault

def storeNext (value : Option Node) : Option Node → Uses Node Unit
  | some elem => updates fun heap => heap.setNext elem value
  | none => stop .fault

def isHead (heap : LinkHeap Node) (elem : Option Node) : Bool :=
  elem.any fun elem => (heap elem).prev.isNone && (heap elem).next.isSome

def isInterior (heap : LinkHeap Node) (elem : Option Node) : Bool :=
  elem.any fun elem => (heap elem).prev.isSome && (heap elem).next.isSome

def isTail (heap : LinkHeap Node) (elem : Option Node) : Bool :=
  elem.any fun elem => (heap elem).prev.isSome && (heap elem).next.isNone

def ensure (condition : LinkHeap Node → Bool) : Uses Node Unit := fun heap =>
  if condition heap then .ok ((), heap) else .error .panic

def listBegin (list : KernelList Node) : Uses Node (Option Node) := loadNext (some list.head)

def listEnd (list : KernelList Node) : Option Node := some list.tail

def listPrev (elem : Option Node) : Uses Node (Option Node) := do
  ensure fun heap => isInterior heap elem || isTail heap elem
  loadPrev elem

def listInsert (before elem : Option Node) : Uses Node Unit := do
  ensure fun heap => isInterior heap before || isTail heap before
  ensure fun _ => elem.isSome
  storePrev (← loadPrev before) elem
  storeNext before elem
  storeNext elem (← loadPrev before)
  storePrev elem before

def listSplice (before first last : Option Node) : Uses Node Unit := do
  ensure fun heap => isInterior heap before || isTail heap before
  if first = last then pure ()
  else
    let last ← listPrev last
    ensure fun heap => isInterior heap first
    ensure fun heap => isInterior heap last
    storeNext (← loadNext last) (← loadPrev first)
    storePrev (← loadPrev first) (← loadNext last)
    storePrev (← loadPrev before) first
    storeNext before last
    storeNext first (← loadPrev before)
    storePrev last before

def listPushFront (list : KernelList Node) (elem : Option Node) : Uses Node Unit := do
  listInsert (← listBegin list) elem

def listPushBack (list : KernelList Node) (elem : Option Node) : Uses Node Unit :=
  listInsert (listEnd list) elem

def listRemove (elem : Option Node) : Uses Node (Option Node) := do
  ensure fun heap => isInterior heap elem
  storeNext (← loadNext elem) (← loadPrev elem)
  storePrev (← loadPrev elem) (← loadNext elem)
  loadNext elem

def listEmpty (list : KernelList Node) (heap : LinkHeap Node) : Bool :=
  (heap list.head).next = some list.tail

def listFront (list : KernelList Node) : Uses Node (Option Node) := do
  ensure fun heap => !listEmpty list heap
  loadNext (some list.head)

def listBack (list : KernelList Node) : Uses Node (Option Node) := do
  ensure fun heap => !listEmpty list heap
  loadPrev (some list.tail)

def listPopFront (list : KernelList Node) : Uses Node (Option Node) := do
  let front ← listFront list
  let _ ← listRemove front
  pure front

def listPopBack (list : KernelList Node) : Uses Node (Option Node) := do
  let back ← listBack list
  let _ ← listRemove back
  pure back

def reverseLoop (list : KernelList Node) : ℕ → Option Node → Uses Node Unit
  | 0, _ => stop .running
  | fuel + 1, elem =>
    if elem = listEnd list then pure ()
    else do
      let prev ← loadPrev elem
      let next ← loadNext elem
      storePrev next elem
      storeNext prev elem
      reverseLoop list fuel (← loadPrev elem)

def listReverse (fuel : ℕ) (list : KernelList Node) : Uses Node Unit := do
  if ← reads (listEmpty list) then pure ()
  else
    reverseLoop list fuel (← listBegin list)
    let first ← loadNext (some list.head)
    let last ← loadPrev (some list.tail)
    storeNext last (some list.head)
    storePrev first (some list.tail)
    let back ← loadNext (some list.head)
    let front ← loadPrev (some list.tail)
    let behind ← loadPrev back
    let ahead ← loadNext front
    storePrev ahead back
    storeNext behind front

def KernelList.chain (list : KernelList Node) (elems : List Node) : List Node :=
  list.head :: (elems ++ [list.tail])

/-- The list holds the given elements, its nodes are all different, and neighbours are linked both
ways. -/
structure WellFormed (heap : LinkHeap Node) (list : KernelList Node) (elems : List Node) :
    Prop where
  nodup : (list.chain elems).Nodup
  path : Path heap (list.chain elems)
  headPrev : (heap list.head).prev = none
  tailNext : (heap list.tail).next = none

def KernelList.before (list : KernelList Node) (behind : List Node) : Node :=
  behind.headD list.tail

def KernelList.after (list : KernelList Node) (ahead : List Node) : Node :=
  ahead.getLastD list.head

/-- The call returns and changes no other node. -/
def Returns {Value : Type} (action : Uses Node Value) (heap : LinkHeap Node) (value : Value)
    (touched : List Node) (holds : LinkHeap Node → Prop) : Prop :=
  ∃ after, action heap = .ok (value, after) ∧ holds after ∧
    ∀ node, node ∉ touched → after node = heap node

/-- The functions of `list.c` do to a well-formed list what they are to do to its sequence of
elements. -/
structure ImplementsSequences (Node : Type) [DecidableEq Node] : Prop where
  insert : ∀ (heap : LinkHeap Node) list ahead behind elem,
    WellFormed heap list (ahead ++ behind) → elem ∉ list.chain (ahead ++ behind) →
      Returns (listInsert (some (list.before behind)) (some elem)) heap ()
        [list.after ahead, elem, list.before behind]
        fun after => WellFormed after list (ahead ++ elem :: behind)
  pushFront : ∀ (heap : LinkHeap Node) list elems elem, WellFormed heap list elems →
    elem ∉ list.chain elems →
      Returns (listPushFront list (some elem)) heap () [list.head, elem, list.before elems]
        fun after => WellFormed after list (elem :: elems)
  pushBack : ∀ (heap : LinkHeap Node) list elems elem, WellFormed heap list elems →
    elem ∉ list.chain elems →
      Returns (listPushBack list (some elem)) heap () [list.after elems, elem, list.tail]
        fun after => WellFormed after list (elems ++ [elem])
  remove : ∀ (heap : LinkHeap Node) list ahead elem behind,
    WellFormed heap list (ahead ++ elem :: behind) →
      Returns (listRemove (some elem)) heap (some (list.before behind))
        [list.after ahead, list.before behind]
        fun after => WellFormed after list (ahead ++ behind)
  popFront : ∀ (heap : LinkHeap Node) list elem elems, WellFormed heap list (elem :: elems) →
    Returns (listPopFront list) heap (some elem) [list.head, list.before elems]
      fun after => WellFormed after list elems
  popBack : ∀ (heap : LinkHeap Node) list elems elem, WellFormed heap list (elems ++ [elem]) →
    Returns (listPopBack list) heap (some elem) [list.after elems, list.tail]
      fun after => WellFormed after list elems
  /-- Moving a range to another list. -/
  spliceAcross : ∀ (heap : LinkHeap Node) source target ahead range behind front back,
    WellFormed heap source (ahead ++ range ++ behind) → WellFormed heap target (front ++ back) →
      (source.chain (ahead ++ range ++ behind)).Disjoint (target.chain (front ++ back)) →
        Returns (listSplice (some (target.before back)) (some (source.before (range ++ behind)))
          (some (source.before behind))) heap ()
          ([source.after ahead, source.before behind, target.after front, target.before back] ++
            (range.head?.toList ++ range.getLast?.toList))
          fun after => WellFormed after source (ahead ++ behind) ∧
            WellFormed after target (front ++ range ++ back)
  /-- Moving a range towards the front of its list. -/
  spliceForward : ∀ (heap : LinkHeap Node) list front passed range behind, passed ≠ [] →
    WellFormed heap list (front ++ passed ++ range ++ behind) →
      Returns (listSplice (some (list.before passed)) (some (list.before (range ++ behind)))
        (some (list.before behind))) heap ()
        ([list.after (front ++ passed), list.before behind, list.after front,
          list.before passed] ++ (range.head?.toList ++ range.getLast?.toList))
        fun after => WellFormed after list (front ++ range ++ passed ++ behind)
  /-- Moving a range towards the back of its list, or to where it is. -/
  spliceBackward : ∀ (heap : LinkHeap Node) list ahead range passed back,
    WellFormed heap list (ahead ++ range ++ passed ++ back) →
      Returns (listSplice (some (list.before back)) (some (list.before (range ++ passed ++ back)))
        (some (list.before (passed ++ back)))) heap ()
        ([list.after ahead, list.before (passed ++ back), list.after (ahead ++ passed),
          list.before back] ++ (range.head?.toList ++ range.getLast?.toList))
        fun after => WellFormed after list (ahead ++ passed ++ range ++ back)
  reverse : ∀ (heap : LinkHeap Node) list elems, WellFormed heap list elems →
    ∃ bound, ∀ fuel ≥ bound, Returns (listReverse fuel list) heap () (list.chain elems)
      fun after => WellFormed after list elems.reverse

end Pintos.LinkedList
