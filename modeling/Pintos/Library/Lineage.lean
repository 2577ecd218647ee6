import Pintos.Library.Overlay

/-!
# Properties of nodes and of the nodes they created

A numbered collection in which a node may have been created by an older one. Many
invariants of such a collection say something about every node and about every
node together with its creator. A step that changes one node, changes a node and
its creator, or adds a node keeps such an invariant when it is kept for the pairs
that change.
-/

namespace Pintos

open Function

universe u

variable {Node : Type u} {parent index : ℕ}

def Descends (creator : Node → Option ℕ) (nodes : ℕ → Option Node) : Prop :=
  ∀ ⦃index node parent⦄, nodes index = some node → creator node = some parent → parent < index

structure Holds (creator : Node → Option ℕ) (Own : Node → Prop)
    (Kin : ℕ → Node → ℕ → Node → Prop) (nodes : ℕ → Option Node) : Prop where
  own : ∀ {index node}, nodes index = some node → Own node
  kin : ∀ {parent parentNode child childNode}, nodes parent = some parentNode →
    nodes child = some childNode → creator childNode = some parent →
      Kin parent parentNode child childNode

section Update

variable {creator : Node → Option ℕ} {nodes : ℕ → Option Node} {other : ℕ} {node moved : Node}

lemma update_some_eq_some (isNode : update nodes index (some moved) other = some node) :
  other = index ∧ node = moved ∨ other ≠ index ∧ nodes other = some node := by
  rcases update_eq_some isNode with ⟨same, isMoved⟩ | unchanged
  · exact Or.inl ⟨same, (Option.some.inj isMoved).symm⟩
  · exact Or.inr unchanged

lemma Descends.put (descends : Descends creator nodes) (isNode : nodes index = some node)
  (sameCreator : creator moved = creator node) :
  Descends creator (update nodes index (some moved)) := by
  intro other otherNode parent isOther isCreator
  rcases update_some_eq_some isOther with ⟨rfl, rfl⟩ | ⟨-, wasOther⟩
  · exact descends isNode (sameCreator ▸ isCreator)
  · exact descends wasOther isCreator

lemma Descends.add {added : Node} (descends : Descends creator nodes)
  (isCreator : creator added = some parent) (older : parent < index) :
  Descends creator (update nodes index (some added)) := by
  intro other otherNode otherParent isOther isParent
  rcases update_some_eq_some isOther with ⟨rfl, rfl⟩ | ⟨-, wasOther⟩
  · rw [isCreator] at isParent
    cases isParent
    exact older
  · exact descends wasOther isParent

end Update

namespace Holds

variable {creator : Node → Option ℕ} {Own : Node → Prop} {Kin : ℕ → Node → ℕ → Node → Prop}
  {nodes : ℕ → Option Node} {child : ℕ}

section

variable (holds : Holds creator Own Kin nodes)
include holds

lemma put {node moved : Node} (descends : Descends creator nodes) (isNode : nodes index = some node)
  (sameCreator : creator moved = creator node) (own : Own moved)
  (asParent : ∀ {child childNode}, nodes child = some childNode →
    creator childNode = some index → Kin index node child childNode →
      Kin index moved child childNode)
  (asChild : ∀ {parent parentNode}, nodes parent = some parentNode →
    creator node = some parent → Kin parent parentNode index node →
      Kin parent parentNode index moved) :
  Holds creator Own Kin (update nodes index (some moved)) := by
  rcases holds with ⟨wasOwn, kin⟩
  refine ⟨?_, ?_⟩
  · grind [update_apply]
  intro parent parentNode child childNode isParent isChild isCreator
  have older : creator node = some parent → parent < index := descends isNode
  grind [update_apply]

lemma putKin {parentNode childNode parentMoved childMoved : Node}
  (descends : Descends creator nodes) (isParent : nodes parent = some parentNode)
  (isChild : nodes child = some childNode) (isCreator : creator childNode = some parent)
  (sameParent : creator parentMoved = creator parentNode)
  (sameChild : creator childMoved = creator childNode) (ownParent : Own parentMoved)
  (ownChild : Own childMoved) (between : Kin parent parentMoved child childMoved)
  (siblings : ∀ {other otherNode}, other ≠ child → nodes other = some otherNode →
    creator otherNode = some parent → Kin parent parentNode other otherNode →
      Kin parent parentMoved other otherNode)
  (above : ∀ {other otherNode}, nodes other = some otherNode →
    creator parentNode = some other → Kin other otherNode parent parentNode →
      Kin other otherNode parent parentMoved)
  (below : ∀ {other otherNode}, nodes other = some otherNode →
    creator otherNode = some child → Kin child childNode other otherNode →
      Kin child childMoved other otherNode) : Holds creator Own Kin
    (update (update nodes child (some childMoved)) parent
      (some parentMoved)) := by
  rcases holds with ⟨wasOwn, kin⟩
  have older := descends isChild isCreator
  refine ⟨?_, ?_⟩
  · grind [update_apply]
  intro first firstNode second secondNode isFirst isSecond firstCreated
  have younger : creator parentNode = some first → first < parent := descends isParent
  grind [update_apply]

lemma add {parentNode parentMoved added : Node} (descends : Descends creator nodes)
  (isParent : nodes parent = some parentNode) (older : parent < child)
  (fresh : ∀ index, child ≤ index → nodes index = none)
  (sameParent : creator parentMoved = creator parentNode)
  (isCreator : creator added = some parent) (ownParent : Own parentMoved) (ownAdded : Own added)
  (between : Kin parent parentMoved child added)
  (siblings : ∀ {other otherNode}, nodes other = some otherNode →
    creator otherNode = some parent → Kin parent parentNode other otherNode →
      Kin parent parentMoved other otherNode)
  (above : ∀ {other otherNode}, nodes other = some otherNode →
    creator parentNode = some other → Kin other otherNode parent parentNode →
      Kin other otherNode parent parentMoved) :
  Holds creator Own Kin (update (update nodes child (some added)) parent (some parentMoved)) := by
  rcases holds with ⟨wasOwn, kin⟩
  refine ⟨?_, ?_⟩
  · grind [update_apply]
  intro first firstNode second secondNode isFirst isSecond firstCreated
  have younger : creator parentNode = some first → first < parent := descends isParent
  have notCreator : ∀ {other otherNode}, nodes other = some otherNode →
      creator otherNode ≠ some child := by
    intro other otherNode isOther isCreated
    grind [fresh other (Nat.le_of_lt (descends isOther isCreated))]
  grind [update_apply]

end

end Holds

end Pintos
