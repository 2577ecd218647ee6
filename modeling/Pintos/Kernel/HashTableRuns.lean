import Mathlib.Data.Nat.Log
import Pintos.Kernel.HashTable
import Pintos.Library.PowersOfTwo

/-!
# Runs of a hash table

Whatever `rehash` can and cannot allocate, the elements stay where their hash values
say and the table behaves like the set of its elements.
-/

namespace Pintos.Hash

open Function

section PowerLoop

variable {num : Word} {high fuel : ℕ}

lemma turnOffLeast1bit_toNat (notZero : num ≠ 0) :
  (turnOffLeast1bit num).toNat = num.toNat &&& (num.toNat - 1) := by
  rw [turnOffLeast1bit, BitVec.toNat_and, toNat_sub_one notZero]

lemma isPowerOf2_iff (lower : 2 ^ high ≤ num.toNat) (upper : num.toNat < 2 ^ (high + 1)) :
  isPowerOf2 num = true ↔ num.toNat = 2 ^ high := by
  have notZero : num ≠ 0 := by
    rintro rfl
    exact absurd lower (Nat.not_le.mpr (Nat.two_pow_pos high))
  rw [← and_pred_eq_zero_iff lower upper, ← turnOffLeast1bit_toNat notZero]
  simp only [isPowerOf2, Bool.and_eq_true, decide_eq_true_eq, ne_eq, notZero, not_false_eq_true,
    true_and]
  rw [← BitVec.toNat_inj]
  rfl

lemma powerLoop_eq (lower : 2 ^ high ≤ num.toNat) (upper : num.toNat < 2 ^ (high + 1))
  (enough : fuel ≤ 32) (divides : 2 ^ (32 - fuel) ∣ num.toNat) :
  ∃ power, powerLoop fuel num = .ok power ∧ power.toNat = 2 ^ high := by
  induction fuel generalizing num with
  | zero =>
    omega
  | succ fuel ih =>
    rw [powerLoop]
    by_cases isPower : isPowerOf2 num = true
    · rw [if_pos isPower]
      exact ⟨num, rfl, (isPowerOf2_iff lower upper).mp isPower⟩
    have others : num.toNat ≠ 2 ^ high := fun same =>
      isPower ((isPowerOf2_iff lower upper).mpr same)
    have pos : 0 < num.toNat := (Nat.two_pow_pos high).trans_le lower
    have notZero : num ≠ 0 := by
      rintro rfl
      exact absurd pos (by decide)
    have val := turnOffLeast1bit_toNat notZero
    rw [if_neg isPower]
    refine ih ?_ ?_ (by omega) ?_
    · rw [val]
      exact two_pow_le_and_pred lower upper others
    · rw [val]
      exact Nat.and_le_left.trans_lt upper
    rw [val]
    have steps : 32 - fuel = 32 - (fuel + 1) + 1 := by omega
    rw [steps]
    exact two_pow_dvd_and_pred divides pos

lemma bestBucketCnt_eq (elemCnt : Word) : ∃ bucketCnt, bestBucketCnt elemCnt = .ok bucketCnt ∧
    (∃ exponent ≥ 2, bucketCnt.toNat = 2 ^ exponent) ∧
    bucketCnt.toNat ≤ max 4 (elemCnt.toNat / 2) := by
  have start : ∃ num : Word, num = (if elemCnt / 2 < 4 then 4 else elemCnt / 2) ∧
      4 ≤ num.toNat ∧ num.toNat ≤ max 4 (elemCnt.toNat / 2) := by
    refine ⟨_, rfl, ?_⟩
    split
    · exact ⟨le_rfl, le_max_left _ _⟩
    next many =>
      rw [BitVec.not_lt, BitVec.le_def] at many
      exact ⟨many, le_max_right _ _⟩
  rcases start with ⟨num, isNum, four, atMost⟩
  have lower := Nat.pow_log_le_self 2 (show num.toNat ≠ 0 by omega)
  have upper := Nat.lt_pow_succ_log_self (show 1 < 2 by omega) num.toNat
  rcases powerLoop_eq lower upper le_rfl (by simp) with ⟨power, ends, isPower⟩
  refine ⟨power, ?_, ⟨_, ?_, isPower⟩, ?_⟩
  · rw [bestBucketCnt, ← isNum]
    exact ends
  · exact Nat.le_log_of_pow_le (by omega) four
  rw [isPower]
  exact lower.trans atMost

end PowerLoop

variable {items : List HashElem}

section Objects

lemma separate_symm {one two : HashElem} (separate : Separate one two) : Separate two one :=
  Or.symm separate

lemma length_lt_of_objects (nodup : items.Nodup) (objects : ∀ elem ∈ items, IsObject elem)
  (separate : ∀ one ∈ items, ∀ two ∈ items, one ≠ two → Separate one two) :
  items.length < 2 ^ 29 := by
  have slots : (items.map fun elem => (elem.toNat - 1) / 8).Nodup := by
    refine nodup.map_on ?_
    intro one inOne two inTwo same
    by_contra differ
    have oneObject := toNat_pos_of_ne_zero (objects one inOne).1
    have twoObject := toNat_pos_of_ne_zero (objects two inTwo).1
    rcases separate one inOne two inTwo differ with pre | behind
    · omega
    · omega
  have within : (items.map fun elem => (elem.toNat - 1) / 8) ⊆ List.range (2 ^ 29 - 1) := by
    intro slot isSlot
    rcases List.mem_map.mp isSlot with ⟨elem, member, rfl⟩
    rw [List.mem_range]
    have fits := (objects elem member).2
    omega
  have atMost := (slots.subperm within).length_le
  rw [List.length_map, List.length_range] at atMost
  omega

end Objects

section Equivalent

variable {less : HashElem → HashElem → Bool}

lemma StrictWeak.equivalence (order : StrictWeak less) : Equivalence (Equivalent less) where
  refl elem := ⟨order.irrefl elem, order.irrefl elem⟩
  symm rel := ⟨rel.2, rel.1⟩
  trans first second := order.equivalent _ _ _ first second

end Equivalent

structure Table.Kept (hash : HashElem → Word) (less : HashElem → HashElem → Bool)
    (table : Table) : Prop where
  sound : table.Sound hash less
  objects : ∀ elem ∈ table.items, IsObject elem
  separate : ∀ one ∈ table.items, ∀ two ∈ table.items, one ≠ two → Separate one two

variable {hash : HashElem → Word} {less : HashElem → HashElem → Bool} {table after : Table}

lemma findBucket_lt {bucketCnt : Word} (power : ∃ exponent ≥ 2, bucketCnt.toNat = 2 ^ exponent)
  (elem : HashElem) : findBucket hash bucketCnt elem < bucketCnt.toNat := by
  rcases power with ⟨exponent, _, isPower⟩
  have pos := Nat.two_pow_pos exponent
  have notZero : bucketCnt ≠ 0 := by
    rintro rfl
    simp at isPower
    omega
  rw [findBucket, BitVec.toNat_and, toNat_sub_one notZero, isPower, Nat.and_two_pow_sub_one_eq_mod]
  exact Nat.mod_lt _ pos

lemma Table.Sound.mem_items_iff (sound : table.Sound hash less) {elem : HashElem} :
  elem ∈ table.items ↔ elem ∈ table.buckets (findBucket hash table.bucketCnt elem) :=
  sound.placed.mem_iff (findBucket_lt sound.power)

lemma Table.Sound.bucket_nodup (sound : table.Sound hash less) {bucket : ℕ}
  (bound : bucket < table.bucketCnt.toNat) : (table.buckets bucket).Nodup :=
  (List.nodup_flatMap.mp sound.nodup).1 bucket (List.mem_range.mpr bound)

lemma Table.Kept.of_items (power : ∃ exponent ≥ 2, table.bucketCnt.toNat = 2 ^ exponent)
  (placed : Placed (findBucket hash table.bucketCnt) table.bucketCnt.toNat table.buckets)
  (bucketNodup : ∀ bucket < table.bucketCnt.toNat, (table.buckets bucket).Nodup)
  (same : ∀ elem, elem ∈ table.items ↔ elem ∈ items) (nodup : items.Nodup)
  (counted : table.elemCnt.toNat = items.length)
  (keyed : KeyedSet.Keyed (Equivalent less) { elem | elem ∈ items })
  (objects : ∀ elem ∈ items, IsObject elem)
  (separate : ∀ one ∈ items, ∀ two ∈ items, one ≠ two → Separate one two) :
  table.Kept hash less ∧ table.members = { elem | elem ∈ items } := by
  have sameMembers : table.members = { elem | elem ∈ items } := Set.ext same
  have tableNodup : table.items.Nodup := placed.nodup bucketNodup
  refine ⟨⟨⟨power, placed, tableNodup, ?_, ?_⟩, ?_, ?_⟩, sameMembers⟩
  · rw [counted]
    exact ((List.perm_ext_iff_of_nodup tableNodup nodup).mpr same).length_eq.symm
  · rw [sameMembers]
    exact keyed
  · intro elem member
    exact objects elem ((same elem).mp member)
  intro one inOne two inTwo differ
  exact separate one ((same one).mp inOne) two ((same two).mp inTwo) differ

lemma findElem_eq (order : StrictWeak less)
  (agrees : ∀ one two, Equivalent less one two → hash one = hash two)
  (sound : table.Sound hash less) (elem : HashElem) :
  findElem less table (findBucket hash table.bucketCnt elem) elem =
    KeyedSet.find (Equivalent less) table.members elem := by
  cases found : findElem less table (findBucket hash table.bucketCnt elem) elem with
  | some old =>
    have member := List.mem_of_find?_eq_some found
    have rel := List.find?_some found
    simp only [Bool.and_eq_true, Bool.not_eq_true'] at rel
    refine (KeyedSet.find_eq_some order.equivalence sound.keyed ?_ rel).symm
    exact mem_bucketItems.mpr ⟨_, findBucket_lt sound.power elem, member⟩
  | none =>
    refine (KeyedSet.find_eq_none ?_).symm
    intro old member rel
    have inBucket := sound.mem_items_iff.mp member
    have sameBucket : findBucket hash table.bucketCnt old =
        findBucket hash table.bucketCnt elem := by
      rw [findBucket, findBucket, agrees old elem rel]
    rw [sameBucket] at inBucket
    refine List.find?_eq_none.mp found old inBucket ?_
    simp [rel.1, rel.2]

lemma moveElems_eq (bucketCnt : Word) (table : Table) : moveElems hash bucketCnt table =
    table.items.foldl (pushBucket (findBucket hash bucketCnt)) fun _ => [] := by
  rw [moveElems, Table.items, bucketItems, List.foldl_flatMap]

lemma rehash_kept (kept : table.Kept hash less) (granted : Bool) :
  ∃ after, rehash hash granted table = .ok after ∧ after.Kept hash less ∧
    after.members = table.members := by
  rcases bestBucketCnt_eq table.elemCnt with ⟨bucketCnt, best, power, atMost⟩
  have sound := kept.sound
  have few := length_lt_of_objects sound.nodup kept.objects kept.separate
  rw [sound.counted] at atMost
  have fits : ¬ (listSize * bucketCnt).toNat < listSize.toNat * bucketCnt.toNat := by
    simp only [listSize, BitVec.toNat_mul, BitVec.reduceToNat]
    omega
  rw [rehash, best]
  simp only [bind, Except.bind, pure, if_neg fits]
  split
  · exact ⟨table, rfl, kept, rfl⟩
  split
  · exact ⟨table, rfl, kept, rfl⟩
  refine ⟨_, rfl, ?_⟩
  refine Table.Kept.of_items power ?_ ?_ ?_ sound.nodup sound.counted sound.keyed kept.objects
    kept.separate
  · simp only [moveElems_eq]
    exact placed_foldl_pushBucket
  · intro bucket _
    simp only [moveElems_eq]
    exact nodup_foldl_pushBucket sound.nodup bucket
  intro elem
  simp only [moveElems_eq]
  exact mem_foldl_pushBucket (findBucket_lt power)

lemma insertElem_kept {new : HashElem} (order : StrictWeak less) (kept : table.Kept hash less)
  (missing : ∀ old ∈ table.members, ¬ Equivalent less old new) (object : IsObject new)
  (separate : ∀ old ∈ table.items, Separate old new) :
  (insertElem table (findBucket hash table.bucketCnt new) new).Kept hash less ∧
    (insertElem table (findBucket hash table.bucketCnt new) new).members =
      insert new table.members := by
  have sound := kept.sound
  have isNew : new ∉ table.items := fun member =>
    missing new member (order.equivalence.refl new)
  have nodup : (new :: table.items).Nodup := List.nodup_cons.mpr ⟨isNew, sound.nodup⟩
  have objects : ∀ elem ∈ new :: table.items, IsObject elem := by
    intro elem member
    rcases List.mem_cons.mp member with rfl | old
    · exact object
    · exact kept.objects elem old
  have allSeparate : ∀ one ∈ new :: table.items, ∀ two ∈ new :: table.items, one ≠ two →
      Separate one two := by
    intro one inOne two inTwo differ
    rcases List.mem_cons.mp inOne with rfl | oldOne
    · rcases List.mem_cons.mp inTwo with rfl | oldTwo
      · exact absurd rfl differ
      · exact separate_symm (separate two oldTwo)
    rcases List.mem_cons.mp inTwo with rfl | oldTwo
    · exact separate one oldOne
    · exact kept.separate one oldOne two oldTwo differ
  have few := length_lt_of_objects nodup objects allSeparate
  have isInserted : { elem | elem ∈ new :: table.items } = insert new table.members := by
    ext elem
    simp [Table.members]
  rw [← isInserted]
  have inBucket : ∀ bucket elem, elem ∈ (insertElem table (findBucket hash table.bucketCnt new)
      new).buckets bucket ↔ findBucket hash table.bucketCnt new = bucket ∧ elem = new ∨
        elem ∈ table.buckets bucket := by
    intro bucket elem
    by_cases same : bucket = findBucket hash table.bucketCnt new
    · subst same
      simp [insertElem]
    · simp [insertElem, update_of_ne same, Ne.symm same]
  refine Table.Kept.of_items sound.power ?_ ?_ ?_ nodup ?_ ?_ objects allSeparate
  · intro bucket bound elem member
    rcases (inBucket bucket elem).mp member with ⟨isBucket, rfl⟩ | old
    · exact isBucket
    · exact sound.placed bucket bound elem old
  · intro bucket bound
    by_cases same : bucket = findBucket hash table.bucketCnt new
    · subst same
      simp only [insertElem, update_self]
      refine List.nodup_cons.mpr ⟨?_, sound.bucket_nodup bound⟩
      exact fun member => isNew (sound.mem_items_iff.mpr member)
    simp only [insertElem, update_of_ne same]
    exact sound.bucket_nodup bound
  · intro elem
    rw [Table.items, mem_bucketItems, List.mem_cons]
    simp only [inBucket]
    constructor
    · rintro ⟨bucket, bound, ⟨_, isElem⟩ | old⟩
      · exact Or.inl isElem
      · exact Or.inr (mem_bucketItems.mpr ⟨bucket, bound, old⟩)
    rintro (rfl | old)
    · exact ⟨_, findBucket_lt sound.power elem, Or.inl ⟨rfl, rfl⟩⟩
    rcases mem_bucketItems.mp old with ⟨bucket, bound, member⟩
    exact ⟨bucket, bound, Or.inr member⟩
  · simp only [insertElem, List.length_cons]
    rw [List.length_cons] at few
    rw [toNat_add_one, sound.counted]
    omega
  rw [isInserted]
  exact sound.keyed.insert order.equivalence missing

lemma removeElem_kept {old : HashElem} (kept : table.Kept hash less) (member : old ∈ table.items) :
  (removeElem table old).Kept hash less ∧
    (removeElem table old).members = table.members \ {old} := by
  have sound := kept.sound
  have isRemoved : { elem | elem ∈ table.items.erase old } = table.members \ {old} := by
    ext elem
    simp only [Set.mem_ofPred_eq, sound.nodup.mem_erase_iff, Table.members, Set.mem_sdiff,
      Set.mem_singleton_iff]
    exact and_comm
  rw [← isRemoved]
  refine Table.Kept.of_items sound.power ?_ ?_ ?_ (sound.nodup.erase old) ?_ ?_ ?_ ?_
  · intro bucket bound elem inBucket
    exact sound.placed bucket bound elem (List.mem_of_mem_erase inBucket)
  · intro bucket bound
    exact (sound.bucket_nodup bound).erase old
  · intro elem
    rw [Table.items, mem_bucketItems, sound.nodup.mem_erase_iff, Table.items, mem_bucketItems]
    constructor
    · rintro ⟨bucket, bound, inBucket⟩
      rcases (sound.bucket_nodup bound).mem_erase_iff.mp inBucket with ⟨ne, inOld⟩
      exact ⟨ne, bucket, bound, inOld⟩
    rintro ⟨ne, bucket, bound, inOld⟩
    exact ⟨bucket, bound, (sound.bucket_nodup bound).mem_erase_iff.mpr ⟨ne, inOld⟩⟩
  · have pos := List.length_pos_of_mem member
    have notZero : table.elemCnt ≠ 0 := by
      intro isZero
      have counted := sound.counted
      rw [isZero] at counted
      simp at counted
      omega
    simp only [removeElem]
    rw [toNat_sub_one notZero, sound.counted, List.length_erase_of_mem member]
  · rw [isRemoved]
    exact sound.keyed.mono Set.sdiff_subset
  · intro elem inErased
    exact kept.objects elem (List.mem_of_mem_erase inErased)
  intro one inOne two inTwo differ
  exact kept.separate one (List.mem_of_mem_erase inOne) two (List.mem_of_mem_erase inTwo) differ

lemma hashClear_kept (power : ∃ exponent ≥ 2, table.bucketCnt.toNat = 2 ^ exponent)
  (destructor : Bool) :
  (hashClear destructor table).2.Kept hash less ∧ (hashClear destructor table).2.members = ∅ := by
  have empty : ∀ bucket < table.bucketCnt.toNat,
      (hashClear destructor table).2.buckets bucket = [] := by
    intro bucket bound
    simp [hashClear, if_pos bound]
  have none : (hashClear destructor table).2.members = { elem | elem ∈ ([] : List HashElem) } →
      (hashClear destructor table).2.members = ∅ := by
    intro same
    rw [same]
    simp
  refine And.imp_right none (Table.Kept.of_items power ?_ ?_ ?_ List.nodup_nil rfl ?_ ?_ ?_)
  · intro bucket bound elem member
    rw [empty bucket bound] at member
    cases member
  · intro bucket bound
    rw [empty bucket bound]
    exact List.nodup_nil
  · intro elem
    rw [Table.items, mem_bucketItems]
    constructor
    · rintro ⟨bucket, bound, member⟩
      rw [empty bucket bound] at member
      exact member
    intro member
    cases member
  · rintro one inOne
    cases inOne
  · simp
  · simp

lemma missing_of_find {new old : HashElem} (order : StrictWeak less)
  (sound : table.Sound hash less)
  (found : KeyedSet.find (Equivalent less) table.members new = some old) :
  ∀ other ∈ table.members \ {old}, ¬ Equivalent less other new := by
  rcases KeyedSet.of_find_eq_some found with ⟨member, rel⟩
  rintro other ⟨isOther, ne⟩ alsoRel
  refine ne (sound.keyed isOther member ?_)
  exact order.equivalence.trans alsoRel (order.equivalence.symm rel)

lemma separate_of_missing {new : HashElem} (order : StrictWeak less)
  (missing : ∀ old ∈ table.members, ¬ Equivalent less old new)
  (separate : ∀ old ∈ table.items, old = new ∨ Separate old new) :
  ∀ old ∈ table.items, Separate old new := by
  intro old member
  refine (separate old member).resolve_left ?_
  rintro rfl
  exact missing old member (order.equivalence.refl old)

lemma perform_kept {call : Call} (order : StrictWeak less)
  (agrees : ∀ one two, Equivalent less one two → hash one = hash two)
  (kept : table.Kept hash less) (permits : Permits table call) :
  ∃ res after, perform hash less table call = .ok (res, after) ∧ after.Kept hash less ∧
    (res, after.members) = abstractCall less table.members call := by
  have findElem_eq := findElem_eq order agrees kept.sound
  cases call with
  | insert granted new =>
    rcases permits with ⟨object, separate⟩
    simp only [perform, hashInsert, findElem_eq, abstractCall, KeyedSet.insert]
    cases found : KeyedSet.find (Equivalent less) table.members new with
    | some old =>
      rcases rehash_kept kept granted with ⟨after, rehashed, keptAfter, same⟩
      refine ⟨some old, after, ?_, keptAfter, by rw [same]⟩
      simp only [reduceCtorEq, if_false, rehashed]
      rfl
    | none =>
      have missing := KeyedSet.of_find_eq_none found
      have apart := separate_of_missing order missing separate
      rcases insertElem_kept order kept missing object apart with ⟨inserted, members⟩
      rcases rehash_kept inserted granted with ⟨after, rehashed, keptAfter, same⟩
      refine ⟨none, after, ?_, keptAfter, by rw [same, members]⟩
      simp only [if_true, rehashed]
      rfl
  | replace granted new =>
    rcases permits with ⟨object, separate⟩
    simp only [perform, hashReplace, findElem_eq, abstractCall, KeyedSet.replace]
    cases found : KeyedSet.find (Equivalent less) table.members new with
    | some old =>
      rcases KeyedSet.of_find_eq_some found with ⟨member, -⟩
      rcases removeElem_kept kept member with ⟨removed, left⟩
      have missing := missing_of_find order kept.sound found
      rw [← left] at missing
      have apart : ∀ other ∈ (removeElem table old).items, Separate other new := by
        refine separate_of_missing order missing ?_
        intro other isOther
        have inLeft : other ∈ (removeElem table old).members := isOther
        rw [left] at inLeft
        exact separate other inLeft.1
      rcases insertElem_kept order removed missing object apart with ⟨inserted, members⟩
      rcases rehash_kept inserted granted with ⟨after, rehashed, keptAfter, same⟩
      refine ⟨some old, after, ?_, keptAfter, by rw [same, members, left]⟩
      simp only [removeElem] at rehashed ⊢
      rw [rehashed]
      rfl
    | none =>
      have missing := KeyedSet.of_find_eq_none found
      have apart := separate_of_missing order missing separate
      rcases insertElem_kept order kept missing object apart with ⟨inserted, members⟩
      rcases rehash_kept inserted granted with ⟨after, rehashed, keptAfter, same⟩
      refine ⟨none, after, ?_, keptAfter, by rw [same, members]⟩
      simp only [rehashed]
      rfl
  | find elem =>
    refine ⟨_, table, rfl, kept, ?_⟩
    simp [hashFind, findElem_eq, abstractCall]
  | delete granted elem =>
    simp only [perform, hashDelete, findElem_eq, abstractCall, KeyedSet.delete]
    cases found : KeyedSet.find (Equivalent less) table.members elem with
    | some old =>
      rcases KeyedSet.of_find_eq_some found with ⟨member, -⟩
      rcases removeElem_kept kept member with ⟨removed, left⟩
      rcases rehash_kept removed granted with ⟨after, rehashed, keptAfter, same⟩
      refine ⟨some old, after, ?_, keptAfter, by rw [same, left]⟩
      simp only [rehashed]
      rfl
    | none => exact ⟨none, table, rfl, kept, rfl⟩
  | clear destructor =>
    rcases hashClear_kept kept.sound.power destructor with ⟨cleared, empty⟩
    exact ⟨none, _, rfl, cleared, by rw [empty]; rfl⟩

lemma Reached.kept (order : StrictWeak less)
  (agrees : ∀ one two, Equivalent less one two → hash one = hash two)
  (reached : Reached hash less table) : table.Kept hash less := by
  refine @Calls.invariant _ _ _ Starts _ Permits _ (Table.Kept hash less) ?_ ?_ reached
  · rintro table ⟨mem, isTable⟩
    cases isTable
    exact (hashClear_kept ⟨2, le_rfl, rfl⟩ false).1
  intro table call after kept permits ran
  rcases perform_kept order agrees kept permits with ⟨res, next, done, keptAfter, _⟩
  rw [done] at ran
  cases ran
  exact keptAfter

/-- The table is sound whenever it is reached, and every call does what it does to a set. -/
theorem refinesSet_of_reached (order : StrictWeak less)
    (agrees : ∀ one two, Equivalent less one two → hash one = hash two)
    (reached : Reached hash less table) :
    table.Sound hash less ∧ ∀ call, Permits table call → ∃ result after,
      perform hash less table call = .ok (result, after) ∧
        (result, after.members) = abstractCall less table.members call := by
  refine ⟨(reached.kept order agrees).sound, ?_⟩
  intro call permits
  rcases perform_kept order agrees (reached.kept order agrees) permits with
    ⟨result, after, performed, _, isAbstract⟩
  exact ⟨result, after, performed, isAbstract⟩

section Samples

def lineLess (one two : HashElem) : Bool := one.toNat / 16 < two.toNat / 16

def lineHash (elem : HashElem) : Word := elem >>> 4

lemma lineLess_strictWeak : StrictWeak lineLess := by
  refine ⟨?_, ?_, ?_⟩ <;> intros <;> simp_all only [lineLess, Equivalent, decide_eq_true_eq,
    decide_eq_false_iff_not] <;> omega

lemma lineHash_agrees (one two : HashElem) (rel : Equivalent lineLess one two) :
  lineHash one = lineHash two := by
  simp only [Equivalent, lineLess, decide_eq_false_iff_not] at rel
  refine BitVec.eq_of_toNat_eq ?_
  simp only [lineHash, BitVec.toNat_ushiftRight]
  omega

instance (elem : HashElem) : Decidable (IsObject elem) := inferInstanceAs (Decidable (_ ∧ _))

instance (one two : HashElem) : Decidable (Separate one two) :=
  inferInstanceAs (Decidable (_ ∨ _))

instance (table : Table) : DecidablePred (Permits table)
  | .insert _ new | .replace _ new =>
    decidable_of_iff (IsObject new ∧
      table.items.all (fun old => decide (old = new ∨ Separate old new)) = true) (by
        simp only [Permits, List.all_eq_true, decide_eq_true_eq])
  | .find _ | .delete _ _ | .clear _ => inferInstanceAs (Decidable True)

def emptyTable : Table :=
  (hashClear false { elemCnt := 0, bucketCnt := 4, buckets := fun _ => [] }).2

lemma emptyTable_starts : Starts emptyTable := ⟨fun _ => [], rfl⟩

/-- Sixteen elements are in eight buckets. -/
theorem refinesSet_sixteen : ∃ table : Table, (table.bucketCnt = 8 ∧ table.elemCnt = 16) ∧
    table.Sound lineHash lineLess ∧ ∀ call, Permits table call → ∃ result after,
      perform lineHash lineLess table call = .ok (result, after) ∧
        (result, after.members) = abstractCall lineLess table.members call := by
  have ran : (Calls.run (fun table call => (perform lineHash lineLess table call).map Prod.snd)
      Permits ((List.range 16).map fun index => .insert true (BitVec.ofNat 32 (16 * index + 16)))
        emptyTable).any (fun table =>
          decide (table.bucketCnt = 8 ∧ table.elemCnt = 16)) = true := by
    decide +kernel
  rcases Calls.reaches_of_run _ emptyTable_starts ran with ⟨table, reached, checks⟩
  exact ⟨table, of_decide_eq_true checks,
    refinesSet_of_reached lineLess_strictWeak lineHash_agrees reached⟩

end Samples

end Pintos.Hash
