import Mathlib.Data.List.Sort

/-!
# Sorting by merging runs

A list falls into runs of elements that are in order. Merging two runs leaves one, and the elements
that are equivalent to a given one keep their order. For a strict weak order given by a function
"less", two elements are in order if the second is not less than the first.
-/

namespace Pintos

variable {α : Type} {less : α → α → Bool} {a b c : α} {elems left right run rest : List α}

def InOrder (less : α → α → Bool) (a b : α) : Bool := !less b a

def Equivalent (less : α → α → Bool) (a b : α) : Bool := !less a b && !less b a

section Order

variable [order : IsStrictWeakOrder α fun a b => less a b = true]

include order

lemma Equivalent.trans (first : Equivalent less a b) (second : Equivalent less b c) :
  Equivalent less a c := by
  have trans := order.incomp_trans a b c
  simp only [Equivalent, Bool.and_eq_true, Bool.not_eq_true', ← Bool.not_eq_true] at *
  exact trans first second

lemma InOrder.total (a b : α) : (InOrder less a b || InOrder less b a) = true := by
  have asymm := fun isLess : less a b = true => fun isGreater =>
    order.irrefl a (order.trans _ _ _ isLess isGreater)
  simp only [InOrder]
  grind

lemma InOrder.trans (first : InOrder less a b) (second : InOrder less b c) :
  InOrder less a c := by
  have incomp := order.incomp_trans
  have trans := order.trans
  simp only [InOrder] at *
  grind

end Order

lemma Equivalent.symm (equivalent : Equivalent less a b) : Equivalent less b a := by
  simp only [Equivalent] at *
  grind

structure MovedStably (less : α → α → Bool) (elems after : List α) : Prop where
  perm : after.Perm elems
  stable : ∀ elem, after.filter (Equivalent less elem) = elems.filter (Equivalent less elem)

/-- One list has the elements of the other in order, and those that are equivalent to one another
as they were. -/
structure SortedStably (less : α → α → Bool) (elems sorted : List α) : Prop
    extends MovedStably less elems sorted where
  inOrder : sorted.Pairwise fun a b => less b a = false

lemma MovedStably.refl (elems : List α) : MovedStably less elems elems :=
  ⟨.refl _, fun _ => rfl⟩

lemma MovedStably.trans (first : MovedStably less left run)
  (second : MovedStably less run right) : MovedStably less left right :=
  ⟨second.perm.trans first.perm, fun elem => (second.stable elem).trans (first.stable elem)⟩

lemma MovedStably.append {leftAfter rightAfter : List α}
  (first : MovedStably less left leftAfter) (second : MovedStably less right rightAfter) :
  MovedStably less (left ++ right) (leftAfter ++ rightAfter) := by
  refine ⟨first.perm.append second.perm, ?_⟩
  intro elem
  rw [List.filter_append, List.filter_append, first.stable, second.stable]

def runs (less : α → α → Bool) : List α → ℕ
  | [] => 0
  | [_] => 1
  | a :: b :: rest => runs less (b :: rest) + if less b a then 1 else 0

lemma runs_le_length (elems : List α) : runs less elems ≤ elems.length := by
  fun_induction runs less elems with
  | case1 => simp
  | case2 => simp
  | case3 a b rest ih => split <;> simp at * <;> omega

lemma runs_pos (a : α) (rest : List α) : 0 < runs less (a :: rest) := by
  induction rest generalizing a with
  | nil => simp [runs]
  | cons b rest ih =>
    have pos := ih b
    rw [runs]
    omega

lemma runs_append_le (left right : List α) :
  runs less (left ++ right) ≤ runs less left + runs less right := by
  induction left with
  | nil => simp
  | cons a left ih =>
    cases left with
    | nil =>
      cases right with
      | nil => simp
      | cons b right =>
        simp only [List.cons_append, List.nil_append, runs]
        split <;> omega
    | cons b left =>
      simp only [List.cons_append, runs] at ih ⊢
      omega

lemma runs_of_run (isRun : (a :: run).IsChain fun a b => InOrder less a b)
  (ends : ∀ next ∈ rest.head?, less next ((a :: run).getLast (by simp)) = true) :
  runs less (a :: run ++ rest) = runs less rest + 1 := by
  induction run generalizing a with
  | nil =>
    cases rest with
    | nil => simp [runs]
    | cons b rest => simp_all [runs]
  | cons b run ih =>
    rw [List.isChain_cons_cons] at isRun
    have notLess : less b a = false := by simpa [InOrder] using isRun.1
    have inner := ih isRun.2 (by simpa using ends)
    simp only [List.cons_append, runs, notLess] at inner ⊢
    simpa using inner

lemma isChain_of_runs (single : runs less elems ≤ 1) :
  elems.IsChain fun a b => InOrder less a b := by
  fun_induction runs less elems with
  | case1 => simp
  | case2 => simp
  | case3 a b rest ih =>
    have pos : 0 < runs less (b :: rest) := runs_pos b rest
    simp only [InOrder] at *
    grind

lemma runs_of_isChain (isRun : elems.IsChain fun a b => InOrder less a b) :
  runs less elems ≤ 1 := by
  fun_induction runs less elems with
  | case1 => simp
  | case2 => simp
  | case3 a b rest ih =>
    rw [List.isChain_cons_cons] at isRun
    have inner := ih isRun.2
    simp only [InOrder] at isRun
    grind

section Order

variable [order : IsStrictWeakOrder α fun a b => less a b = true]

include order

lemma pairwise_of_isChain (isRun : elems.IsChain fun a b => InOrder less a b) :
  elems.Pairwise fun a b => InOrder less a b := by
  have isTrans : IsTrans α fun a b => InOrder less a b = true := ⟨fun _ _ _ => InOrder.trans⟩
  exact List.isChain_iff_pairwise.mp isRun

lemma merge_movedStably (isLeft : left.Pairwise fun a b => InOrder less a b) :
  MovedStably less (left ++ right) (left.merge right (InOrder less)) := by
  refine ⟨List.merge_perm_append _, ?_⟩
  intro elem
  fun_induction List.merge left right (InOrder less) with
  | case1 right => rfl
  | case2 left notNil => simp
  | case3 a left b right pre ih =>
    rw [List.filter_cons, ih (List.pairwise_cons.mp isLeft).2, List.cons_append, List.filter_cons]
  | case4 a left b right behind ih =>
    by_cases isSame : Equivalent less elem b
    · have none : (a :: left).filter (Equivalent less elem) = [] := by
        rw [List.filter_eq_nil_iff]
        intro other isOther same
        have later : InOrder less a other := by
          rcases List.mem_cons.mp isOther with rfl | isLater
          · simpa using InOrder.total other other
          · exact (List.pairwise_cons.mp isLeft).1 other isLater
        have between : Equivalent less other b := Equivalent.trans (Equivalent.symm same) isSame
        simp only [Equivalent, Bool.and_eq_true] at between
        exact behind (InOrder.trans later between.2)
      rw [List.filter_cons_of_pos isSame, ih isLeft, List.filter_append, List.filter_append, none,
        List.filter_cons_of_pos isSame, List.nil_append, List.nil_append]
    rw [List.filter_cons_of_neg isSame, ih isLeft, List.filter_append, List.filter_append,
      List.filter_cons_of_neg isSame]

lemma merge_isChain (isLeft : left.Pairwise fun a b => InOrder less a b)
  (isRight : right.Pairwise fun a b => InOrder less a b) :
  (left.merge right (InOrder less)).IsChain fun a b => InOrder less a b :=
  (List.pairwise_merge (fun _ _ _ => InOrder.trans) InOrder.total left right isLeft isRight).isChain

end Order

end Pintos
