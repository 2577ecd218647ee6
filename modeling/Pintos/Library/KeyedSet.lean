import Mathlib.Data.Set.Insert

/-!
# Sets keyed by an equivalence

A set in which no two members are equivalent, as an abstract dictionary: a member
is found by anything equivalent to it, and a new member takes the place of an
equivalent one or is refused.
-/

namespace Pintos

universe u

namespace KeyedSet

variable {Item : Type u}

def Keyed (related : Item → Item → Prop) (members : Set Item) : Prop :=
  ∀ ⦃one⦄, one ∈ members → ∀ ⦃two⦄, two ∈ members → related one two → one = two

open Classical in
noncomputable def find (related : Item → Item → Prop) (members : Set Item) (item : Item) :
    Option Item :=
  if found : ∃ old ∈ members, related old item then some found.choose else none

noncomputable def insert (related : Item → Item → Prop) (members : Set Item) (item : Item) :
    Option Item × Set Item :=
  match find related members item with
  | some old => (some old, members)
  | none => (none, Insert.insert item members)

noncomputable def replace (related : Item → Item → Prop) (members : Set Item) (item : Item) :
    Option Item × Set Item :=
  match find related members item with
  | some old => (some old, Insert.insert item (members \ {old}))
  | none => (none, Insert.insert item members)

noncomputable def delete (related : Item → Item → Prop) (members : Set Item) (item : Item) :
    Option Item × Set Item :=
  match find related members item with
  | some old => (some old, members \ {old})
  | none => (none, members)

variable {rel : Item → Item → Prop} {members : Set Item} {item old : Item}

lemma find_eq_none (missing : ∀ old ∈ members, ¬ rel old item) :
  find rel members item = none := by
  refine dif_neg ?_
  rintro ⟨old, mem, isRel⟩
  exact missing old mem isRel

lemma find_eq_some (equivalence : Equivalence rel) (keyed : Keyed rel members)
  (mem : old ∈ members) (isRel : rel old item) :
  find rel members item = some old := by
  have found : ∃ old ∈ members, rel old item := ⟨old, mem, isRel⟩
  rw [find, dif_pos found, Option.some.injEq]
  refine keyed found.choose_spec.1 mem ?_
  exact equivalence.trans found.choose_spec.2 (equivalence.symm isRel)

lemma of_find_eq_some (found : find rel members item = some old) :
  old ∈ members ∧ rel old item := by
  rw [find] at found
  split at found
  · next isFound =>
      cases found
      exact isFound.choose_spec
  · cases found

lemma of_find_eq_none (missing : find rel members item = none) :
  ∀ old ∈ members, ¬ rel old item := by
  intro old mem isRel
  rw [find, dif_pos ⟨old, mem, isRel⟩] at missing
  cases missing

lemma Keyed.mono {fewer : Set Item} (keyed : Keyed rel members) (subset : fewer ⊆ members) :
  Keyed rel fewer :=
  fun _ inOne _ inTwo isRel => keyed (subset inOne) (subset inTwo) isRel

lemma Keyed.insert (equivalence : Equivalence rel) (keyed : Keyed rel members)
  (missing : ∀ old ∈ members, ¬ rel old item) :
  Keyed rel (Insert.insert item members) := by
  rintro one (rfl | inOne) two (rfl | inTwo) isRel
  · rfl
  · exact absurd (equivalence.symm isRel) (missing two inTwo)
  · exact absurd isRel (missing one inOne)
  · exact keyed inOne inTwo isRel

end KeyedSet

end Pintos
