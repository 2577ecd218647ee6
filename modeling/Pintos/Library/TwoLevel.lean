import Mathlib.Data.Set.Basic

/-!
# Tables of two levels

Pages hold tables. The entries of a root table are empty or lead to a leaf table, and
an entry of a leaf is found by two indices. As long as no leaf is shared and none of
them is the root, a store into a leaf changes one entry, and a new leaf changes the
entries below one index of the root.
-/

namespace Pintos

open Function

universe u v

namespace TwoLevel

variable {Page : Type u} {Entry : Type v}

variable (leads : Entry → Option Page)

def entryAt (tables : Page → ℕ → Entry) (root : Page) (outer inner : ℕ) : Option Entry :=
  (leads (tables root outer)).map fun leaf => tables leaf inner

structure Separate (tables : Page → ℕ → Entry) (root : Page) (size : ℕ) : Prop where
  not_root : ∀ outer, outer < size → leads (tables root outer) ≠ some root
  inj : ∀ left right leaf, left < size → right < size → leads (tables root left) = some leaf →
    leads (tables root right) = some leaf → left = right

variable {leads} {tables after : Page → ℕ → Entry} {root leaf : Page} {size outer inner : ℕ}
  {entry : Entry}

lemma entryAt_of_leads (isLeaf : leads (tables root outer) = some leaf) (inner : ℕ) :
  entryAt leads tables root outer inner = some (tables leaf inner) := by
  rw [entryAt, isLeaf, Option.map_some]

lemma entryAt_congr (sameRoot : after root = tables root)
  (sameLeaf : ∀ leaf, leads (tables root outer) = some leaf → after leaf = tables leaf)
  (inner : ℕ) : entryAt leads after root outer inner = entryAt leads tables root outer inner := by
  unfold entryAt
  rw [sameRoot]
  cases isLeaf : leads (tables root outer) with
  | none => rfl
  | some leaf => rw [Option.map_some, Option.map_some, sameLeaf leaf isLeaf]

lemma Separate.congr (separate : Separate leads tables root size)
  (sameRoot : after root = tables root) : Separate leads after root size := by
  constructor
  · rw [sameRoot]
    exact separate.not_root
  rw [sameRoot]
  exact separate.inj

lemma leaf_ne_root (separate : Separate leads tables root size) (outerLt : outer < size)
  (isLeaf : leads (tables root outer) = some leaf) : leaf ≠ root := by
  rintro rfl
  exact separate.not_root outer outerLt isLeaf

variable [DecidableEq Page]

def store (tables : Page → ℕ → Entry) (page : Page) (index : ℕ) (entry : Entry) :
    Page → ℕ → Entry :=
  update tables page (update (tables page) index entry)

lemma store_self (tables : Page → ℕ → Entry) (page : Page) (idx : ℕ) (entry : Entry) :
  store tables page idx entry page = update (tables page) idx entry :=
  update_self _ _ _

lemma store_of_ne {page other : Page} (ne : other ≠ page) (idx : ℕ) (entry : Entry) :
  store tables page idx entry other = tables other :=
  update_of_ne ne _ _

section StoreLeaf

variable (separate : Separate leads tables root size) (outerLt : outer < size)
  (isLeaf : leads (tables root outer) = some leaf)

include separate outerLt isLeaf

lemma store_leaf_root : store tables leaf inner entry root = tables root :=
  store_of_ne (leaf_ne_root separate outerLt isLeaf).symm _ _

lemma entryAt_store_self :
  entryAt leads (store tables leaf inner entry) root outer inner = some entry := by
  unfold entryAt
  rw [store_leaf_root separate outerLt isLeaf, isLeaf, Option.map_some, store_self, update_self]

lemma entryAt_store_of_ne {otherOuter otherInner : ℕ} (otherLt : otherOuter < size)
  (ne : otherOuter ≠ outer ∨ otherInner ≠ inner) :
  entryAt leads (store tables leaf inner entry) root otherOuter otherInner =
    entryAt leads tables root otherOuter otherInner := by
  unfold entryAt
  rw [store_leaf_root separate outerLt isLeaf]
  cases isOther : leads (tables root otherOuter) with
  | none => rfl
  | some other =>
    rw [Option.map_some, Option.map_some]
    by_cases sameLeaf : other = leaf
    · subst sameLeaf
      have sameOuter := separate.inj otherOuter outer other otherLt outerLt isOther isLeaf
      have otherDiffers : otherInner ≠ inner := by
        rcases ne with outerDiffers | innerDiffers
        · exact absurd sameOuter outerDiffers
        · exact innerDiffers
      rw [store_self, update_of_ne otherDiffers]
    · rw [store_of_ne sameLeaf]

end StoreLeaf

def attach (tables : Page → ℕ → Entry) (root : Page) (outer : ℕ) (pointer : Entry) (leaf : Page)
    (empty : Entry) : Page → ℕ → Entry :=
  store (update tables leaf fun _ => empty) root outer pointer

section Attach

variable {ptr empty : Entry} (isLeaf : leads ptr = some leaf) (notRoot : leaf ≠ root)
  (fresh : ∀ other, other < size → leads (tables root other) ≠ some leaf)

lemma attach_root (notRoot : leaf ≠ root) :
  attach tables root outer ptr leaf empty root = update (tables root) outer ptr := by
  rw [attach, store_self, update_of_ne notRoot.symm]

lemma attach_leaf (notRoot : leaf ≠ root) :
  attach tables root outer ptr leaf empty leaf = fun _ => empty := by
  rw [attach, store_of_ne notRoot, update_self]

lemma attach_of_ne {other : Page} (notRoot : other ≠ root) (notLeaf : other ≠ leaf) :
  attach tables root outer ptr leaf empty other = tables other := by
  rw [attach, store_of_ne notRoot, update_of_ne notLeaf]

include isLeaf notRoot

lemma entryAt_attach_self (inner : ℕ) :
  entryAt leads (attach tables root outer ptr leaf empty) root outer inner = some empty := by
  unfold entryAt
  rw [attach_root notRoot, update_self, isLeaf, Option.map_some, attach_leaf notRoot]

include fresh

lemma entryAt_attach_of_ne (separate : Separate leads tables root size) {other : ℕ}
  (otherLt : other < size) (ne : other ≠ outer) (inner : ℕ) :
  entryAt leads (attach tables root outer ptr leaf empty) root other inner =
    entryAt leads tables root other inner := by
  unfold entryAt
  rw [attach_root notRoot, update_of_ne ne]
  cases isOther : leads (tables root other) with
  | none => rfl
  | some page =>
    have notLeaf : page ≠ leaf := by
      rintro rfl
      exact fresh other otherLt isOther
    have pageNotRoot : page ≠ root := leaf_ne_root separate otherLt isOther
    rw [Option.map_some, Option.map_some, attach_of_ne pageNotRoot notLeaf]

lemma Separate.attach (separate : Separate leads tables root size) :
  Separate leads (attach tables root outer ptr leaf empty) root size := by
  have entries : ∀ other page, other < size →
      leads (TwoLevel.attach tables root outer ptr leaf empty root other) = some page →
      (other = outer ∧ page = leaf) ∨ (page ≠ leaf ∧ leads (tables root other) = some page) := by
    intro other page otherLt isPage
    rw [attach_root notRoot] at isPage
    by_cases same : other = outer
    · subst same
      rw [update_self, isLeaf] at isPage
      cases isPage
      exact Or.inl ⟨rfl, rfl⟩
    rw [update_of_ne same] at isPage
    refine Or.inr ⟨?_, isPage⟩
    rintro rfl
    exact fresh other otherLt isPage
  constructor
  · intro other otherLt isRoot
    rcases entries other root otherLt isRoot with ⟨_, isLeafRoot⟩ | ⟨_, isOld⟩
    · exact notRoot isLeafRoot.symm
    · exact separate.not_root other otherLt isOld
  intro left right page leftLt rightLt isLeft isRight
  rcases entries left page leftLt isLeft with ⟨rfl, rfl⟩ | ⟨leftNot, leftOld⟩
  · rcases entries right page rightLt isRight with ⟨same, _⟩ | ⟨rightNot, _⟩
    · exact same.symm
    · exact absurd rfl rightNot
  rcases entries right page rightLt isRight with ⟨_, isNew⟩ | ⟨_, rightOld⟩
  · exact absurd isNew leftNot
  · exact separate.inj left right page leftLt rightLt leftOld rightOld

end Attach

end TwoLevel

end Pintos
