import Pintos.Filesys.Counts
import Pintos.Filesys.CreateOpen
import Mathlib.Data.Prod.Lex

/-!
# Removing a file by its name

`filesys_remove` resolves the whole path with `get_dir`, as if it named a
directory, and goes on only if the directory it gets has its flag `empty` set.
`dir_open` clears the flag, and no path with a component leads to another directory, so
no file is ever removed. The flag of the current directory decides about the empty path;
only a stray store of `dir_add` can set it. A name that is not in the root directory is
refused; only if nothing had to be opened to find that out does the file system stay as
it was.
-/

namespace Pintos

open Pintos.Computation

variable {fs after : Fs} {dir : Dir} {name path token : List Byte} {fuel : ℕ} {found : FoundDir}
  {curIno : Bool}

/-- The directory is the root directory, and open. -/
structure Fs.IsRoot (fs : Fs) (dir : Dir) : Prop where
  member : dir.inode ∈ fs.openInodes
  isOpen : ∃ inode, fs.inodes dir.inode = some inode ∧ inode.sector = rootDirSector

/-- A file that was at a slot of the root directory has been removed: its name cannot be opened,
the other slots are as they were, and a new file can be created under the name. -/
structure Removed (fs after : Fs) (currentDir : Dir) (name : List Byte) (step : ℕ) : Prop where
  gone : ∃ bound, ∀ fuel, bound ≤ fuel → ∃ last, filesysOpen fuel name after = .ok (none, last)
  others : ∀ other, other ≠ step → 20 * other + 20 ≤ (fs.diskAt 1).len →
    (after.diskAt 1).entryAt after.device (20 * other) =
      (fs.diskAt 1).entryAt fs.device (20 * other)
  again : ∃ bound, ∀ fuel, bound ≤ fuel →
    ∃ last, filesysCreate fuel (some currentDir) name 0 after = .ok (true, last)

/-- `filesys_remove` removes a regular file of the root directory, and refuses a name that is not
there without changing anything. `IsRegular` says which inodes are regular files. -/
def RemovesRight (fs : Fs) (IsRegular : Word → Prop) (currentDir : Dir) (name : List Byte) :
    Prop :=
  (∀ step, (fs.diskAt 1).FirstEntry fs.device (DirEntry.Matches · name) step →
    IsRegular (DirEntry.inodeSector ((fs.diskAt 1).entryAt fs.device (20 * step))) →
      ∃ bound, ∀ fuel, bound ≤ fuel → ∃ after,
        filesysRemove fuel (some currentDir) name fs = .ok (true, after) ∧
          Removed fs after currentDir name step) ∧
  ((fs.diskAt 1).NoEntry fs.device (DirEntry.Matches · name) →
    ∃ bound, ∀ fuel, bound ≤ fuel →
      filesysRemove fuel (some currentDir) name fs = .ok (false, fs))

/-- The path is refused before anything is opened: it is "/", or it is relative and its first
component is not in the root directory. -/
def RefusedAtOnce (fs : Fs) (path : List Byte) : Prop :=
  path = [slash] ∨
    path.head? ≠ some slash ∧ ∀ token, (pathTokens path).head? = some token →
      (fs.diskAt 1).NoEntry fs.device (DirEntry.Matches · token)

section Flag

lemma dirOpen_empty {ino : Option ℕ} (ran : dirOpen fuel ino fs = .ok (some dir, after)) :
  dir.empty = false := by
  cases ino with
  | none =>
    rcases bind_eq_ok ran with ⟨_, _, _, nothing⟩
    cases nothing
  | some addr =>
    rcases bind_eq_ok ran with ⟨alloc, _, _, opened⟩
    cases alloc with
    | true =>
      cases opened
      rfl
    | false =>
      rcases bind_eq_ok opened with ⟨_, _, _, nothing⟩
      cases nothing

lemma dirOpenRoot_empty (ran : dirOpenRoot fuel fs = .ok (some dir, after)) :
  dir.empty = false := by
  rcases bind_eq_ok ran with ⟨_, _, _, opened⟩
  exact dirOpen_empty opened

def FlagCleared (dir : Option Dir) : Prop := ∀ isDir, dir = some isDir → isDir.empty = false

lemma getDirLoop_flag {tokens : List (List Byte)} {currDir : Option Dir} {found : Option Dir}
  (cleared : tokens = [] → FlagCleared currDir)
  (ran : getDirLoop fuel curIno tokens currDir fs = .ok (.found found, after)) :
  FlagCleared found := by
  induction tokens generalizing currDir fs with
  | nil =>
    cases ran
    exact cleared rfl
  | cons token rest ih =>
    cases currDir with
    | none => cases ran
    | some currDir =>
      rcases bind_eq_ok ran with ⟨opened, looked, _, stepping⟩
      split at stepping
      · cases opened with
        | none => cases stepping
        | some _ =>
          rcases bind_eq_ok stepping with ⟨addr, _, _, opening⟩
          rcases bind_eq_ok opening with ⟨next, _, opens, looping⟩
          refine ih ?_ looping
          intro _ isDir isNext
          subst isNext
          exact dirOpen_empty opens
      · cases stepping

variable {currentDir : Option Dir}

lemma getDir_eq_ok (ran : getDir fuel currentDir path fs = .ok (found, after)) :
  ∃ first currDir second curIno third, malloc fs = .ok (true, first) ∧
    (if path.head? = some slash then dirOpenRoot fuel first = .ok (currDir, second)
      else currDir = currentDir ∧ second = first) ∧
    malloc second = .ok (curIno, third) ∧
    getDirLoop fuel curIno (pathTokens path) currDir third = .ok (found, after) := by
  rcases bind_eq_ok ran with ⟨badDir, first, asks, resolving⟩
  cases badDir with
  | false => cases resolving
  | true =>
    by_cases absolute : path.head? = some slash
    · simp only [if_pos absolute] at resolving
      rcases bind_eq_ok resolving with ⟨currDir, second, opens, allocating⟩
      rcases bind_eq_ok allocating with ⟨curIno, third, asksIno, looping⟩
      exact ⟨first, currDir, second, curIno, third, asks, by rwa [if_pos absolute], asksIno,
        looping⟩
    simp only [if_true, if_neg absolute, pure_bind_apply] at resolving
    rcases bind_eq_ok resolving with ⟨curIno, third, asksIno, looping⟩
    exact ⟨first, currentDir, first, curIno, third, asks,
      by rw [if_neg absolute]; exact ⟨rfl, rfl⟩, asksIno, looping⟩

lemma getDir_flag {found : Option Dir} (cleared : pathTokens path = [] → FlagCleared currentDir)
  (ran : getDir fuel currentDir path fs = .ok (.found found, after)) : FlagCleared found := by
  rcases getDir_eq_ok ran with ⟨first, currDir, second, curIno, third, _, starts, _, looping⟩
  refine getDirLoop_flag ?_ looping
  split at starts
  · intro _ isDir isCur
    subst isCur
    exact dirOpenRoot_empty starts
  rcases starts with ⟨rfl, _⟩
  exact cleared

lemma filesysRemove_eq_ok {success : Bool}
  (ran : filesysRemove fuel currentDir path fs = .ok (success, after)) : success = false ∧
    (path = [slash] ∨ ∃ found, getDir fuel currentDir path fs = .ok (found, after) ∧
      ∀ target, found = .found (some target) → target.empty = false) := by
  unfold filesysRemove at ran
  split at ran
  · next isSlash =>
      cases ran
      exact ⟨rfl, Or.inl isSlash⟩
  rcases bind_eq_ok ran with ⟨found, _, resolves, deciding⟩
  cases found with
  | bad =>
    cases deciding
    exact ⟨rfl, Or.inr ⟨_, resolves, nofun⟩⟩
  | found target =>
    cases target with
    | none => cases deciding
    | some target =>
      -- With the flag set the path has no component, and there is no name to remove.
      have notEmpty : target.empty = false := by
        by_contra isEmpty
        simp only [if_pos (Bool.not_eq_false _ ▸ isEmpty)] at deciding
        cases isLast : (pathTokens path).getLast? with
        | none =>
          rw [isLast] at deciding
          cases deciding
        | some delete =>
          refine isEmpty (getDir_flag ?_ resolves target rfl)
          intro noTokens
          rw [noTokens] at isLast
          cases isLast
      simp only [notEmpty] at deciding
      cases deciding
      refine ⟨rfl, Or.inr ⟨_, resolves, ?_⟩⟩
      rintro _ ⟨⟩
      exact notEmpty

lemma eq_nil_of_pathTokens (relative : path.head? ≠ some slash)
  (noTokens : pathTokens path = []) : path = [] := by
  cases path with
  | nil => rfl
  | cons byte rest =>
    have notSlash : byte ≠ slash := by simpa using relative
    cases split : rest.splitOnP (· == slash) with
    | nil => exact absurd split (List.splitOnP_ne_nil _ _)
    | cons first others =>
      simp [pathTokens, List.splitOn, List.splitOnP_cons_eq_if_modifyHead, notSlash, split]
        at noTokens

end Flag

section Growth

/-- What tells whether inodes have been opened: how many were ever in memory, and the counts of
their openers. -/
def Fs.opened (fs : Fs) : ℕ ×ₗ (ℕ → ℤ) := toLex (fs.nextInode, fs.openAt)

def Fs.Grows (fs after : Fs) : Prop := fs.HeapOk → after.HeapOk ∧ fs.opened ≤ after.opened

instance : IsPreorder Fs Fs.Grows where
  refl _ heap := ⟨heap, le_rfl⟩
  trans _ _ _ first second heap :=
    ⟨(second (first heap).1).1, (first heap).2.trans (second (first heap).1).2⟩

lemma malloc_grows : Preserves Fs.Grows malloc := by
  intro pre val after ran heap
  rw [malloc_untouched ran heap]
  exact ⟨heap, le_rfl⟩

lemma inodeOpen_opens {num : Word} {target : Option ℕ} (heap : fs.HeapOk)
  (ran : inodeOpen num fs = .ok (target, after)) :
  after.HeapOk ∧ fs.opened ≤ after.opened ∧ ¬ after.opened ≤ fs.opened := by
  rcases inodeOpen_eq_ok ran with ⟨addr, record, _, isOpen, _, rfl, rfl⟩ |
    ⟨_, alloc, mid, asked, rest⟩
  · refine ⟨heap, lt_iff_le_not_ge.mp (Prod.Lex.toLex_lt_toLex.mpr (Or.inr ⟨rfl, ?_⟩))⟩
    rw [Pi.lt_def]
    constructor
    · intro other
      by_cases same : other = addr
      · simp [Fs.openAt, Fs.setInode, same, isOpen]
      · simp [Fs.openAt, Fs.setInode, same]
    · exact ⟨addr, by simp [Fs.openAt, Fs.setInode, isOpen]⟩
  rw [malloc_of_heapOk heap] at asked
  cases asked
  rcases rest with ⟨⟨⟩, _⟩ | ⟨_, _, rfl⟩
  exact ⟨heap, lt_iff_le_not_ge.mp (Prod.Lex.toLex_lt_toLex.mpr (Or.inl (Nat.lt_succ_self _)))⟩

lemma inodeOpen_grows (num : Word) : Preserves Fs.Grows (inodeOpen num) := by
  intro pre val after ran heap
  rcases inodeOpen_opens heap ran with ⟨heapAfter, less, _⟩
  exact ⟨heapAfter, less⟩

lemma dirLookup_grows (fuel : ℕ) (dir : Dir) (name : List Byte) :
  Preserves Fs.Grows (dirLookup fuel dir name) := by
  refine .bind (lookupLoop_preserves malloc_grows _ _ _ _) fun found => ?_
  cases found with
  | none => exact .pure _
  | some entry => exact inodeOpen_grows _

lemma dirOpen_grows (fuel : ℕ) (ino : Option ℕ) : Preserves Fs.Grows (dirOpen fuel ino) := by
  cases ino with
  | none => exact .bind malloc_grows fun _ => .pure _
  | some addr =>
    intro pre val after ran heap
    rw [dirOpen_of_heapOk heap] at ran
    cases ran
    exact ⟨heap, le_rfl⟩

lemma callocInode_grows : Preserves Fs.Grows callocInode := by
  intro pre val after ran heap
  cases ran
  exact ⟨heap, (Prod.Lex.toLex_lt_toLex.mpr (Or.inl (Nat.lt_succ_self _))).le⟩

lemma getDirLoop_cons_grows {rest : List (List Byte)}
  (restGrows : ∀ next, Preserves Fs.Grows (getDirLoop fuel curIno rest next))
  (ran : getDirLoop fuel curIno (token :: rest) (some dir) fs = .ok (found, after)) :
  ∃ opened looked, dirLookup fuel dir token fs = .ok (opened, looked) ∧ looked.Grows after := by
  rcases bind_eq_ok ran with ⟨opened, looked, looks, stepping⟩
  refine ⟨opened, looked, looks, ?_⟩
  cases curIno with
  | false => cases stepping
  | true =>
    cases opened with
    | none =>
      cases stepping
      exact Std.Refl.refl _
    | some _ =>
      rcases bind_eq_ok stepping with ⟨addr, _, allocates, opening⟩
      rcases bind_eq_ok opening with ⟨next, _, opens, looping⟩
      exact IsTrans.trans _ _ _
        (IsTrans.trans _ _ _ (callocInode_grows allocates) (dirOpen_grows _ _ opens))
        (restGrows next looping)

lemma getDirLoop_grows (fuel : ℕ) (curIno : Bool) (tokens : List (List Byte))
  (currDir : Option Dir) : Preserves Fs.Grows (getDirLoop fuel curIno tokens currDir) := by
  induction tokens generalizing currDir with
  | nil => exact .pure _
  | cons token rest ih =>
    cases currDir with
    | none => exact .stop _
    | some currDir =>
      intro pre found after ran
      rcases getDirLoop_cons_grows ih ran with ⟨opened, looked, looks, grows⟩
      exact IsTrans.trans _ _ _ (dirLookup_grows _ _ _ looks) grows

end Growth

section Refusing

variable (ready : fs.RootReady) (isRoot : fs.IsRoot dir)

include ready isRoot

lemma Fs.IsRoot.readable : ∃ ino, fs.inodes dir.inode = some ino ∧
  ino.data = fs.diskAt 1 ∧ ino.data.Readable fs.device ∧ ino.data.len = 320 := by
  rcases isRoot.isOpen with ⟨ino, isOpen, sec⟩
  rcases ready.cached _ _ isRoot.member isOpen sec with ⟨_, _, data⟩
  refine ⟨ino, isOpen, data, ?_, ?_⟩
  · rw [data]
    exact ready.readable
  rw [data]
  exact ready.len_eq

lemma filesysRemove_of_refused (cleared : name = [] → dir.empty = false)
    (refused : RefusedAtOnce fs name)
  (enough : 320 < fuel) : filesysRemove fuel (some dir) name fs = .ok (false, fs) := by
  unfold filesysRemove
  split
  · rfl
  next notRoot =>
    rcases refused.resolve_left notRoot with ⟨relative, missing⟩
    have resolves : ∃ found, getDir fuel (some dir) name fs = .ok (found, fs) ∧
        (found = .bad ∨ found = .found (some dir) ∧ name = []) := by
      unfold getDir
      rw [bind_of_ok (malloc_of_heapOk ready.heap)]
      simp only [if_true, if_neg relative, pure_bind_apply]
      rw [bind_of_ok (malloc_of_heapOk ready.heap)]
      cases tokens : pathTokens name with
      | nil => exact ⟨_, rfl, Or.inr ⟨rfl, eq_nil_of_pathTokens relative tokens⟩⟩
      | cons token rest =>
        rcases isRoot.readable ready with ⟨ino, isOpen, data, readable, len⟩
        have absent := missing token (by rw [tokens]; rfl)
        rw [← data] at absent
        have looks : dirLookup fuel dir token fs = .ok (none, fs) :=
          (bind_of_ok (lookup_of_noEntry ready.heap isOpen readable (by omega) absent
            (by omega))).trans rfl
        exact ⟨.bad, (bind_of_ok looks).trans rfl, Or.inl rfl⟩
    rcases resolves with ⟨found, resolves, rfl | ⟨rfl, isNil⟩⟩
    · exact (bind_of_ok resolves).trans rfl
    refine (bind_of_ok resolves).trans ?_
    simp only [cleared isNil]
    rfl

lemma dirLookup_opens {opened : Option ℕ}
  (present : ¬ (fs.diskAt 1).NoEntry fs.device (DirEntry.Matches · token))
  (ran : dirLookup fuel dir token fs = .ok (opened, after)) :
  after.HeapOk ∧ ¬ after.opened ≤ fs.opened := by
  rcases isRoot.readable ready with ⟨ino, isOpen, data, readable, _⟩
  rcases bind_eq_ok ran with ⟨found, mid, looks, opens⟩
  rcases lookup_eq_ok ready.heap isOpen readable looks with ⟨rfl, ⟨_, _, rfl⟩ | ⟨_, missing⟩⟩
  · rcases inodeOpen_opens ready.heap opens with ⟨heap, _, more⟩
    exact ⟨heap, more⟩
  rw [data] at missing
  exact absurd missing present

lemma getDir_opens (walks : ¬ RefusedAtOnce fs path)
  (ran : getDir fuel (some dir) path fs = .ok (found, after)) : ¬ after.opened ≤ fs.opened := by
  rcases getDir_eq_ok ran with
    ⟨first, currDir, second, curIno, third, asks, starts, asksIno, looping⟩
  rcases malloc_untouched asks ready.heap with rfl
  split at starts
  · rcases bind_eq_ok starts with ⟨root, mid, opens, opensDir⟩
    rcases inodeOpen_opens ready.heap opens with ⟨heap, _, more⟩
    have grows : Fs.Grows mid after := IsTrans.trans _ _ _
      (IsTrans.trans _ _ _ (dirOpen_grows fuel root opensDir) (malloc_grows asksIno))
      (getDirLoop_grows _ _ _ _ looping)
    exact fun less => more ((grows heap).2.trans less)
  next relative =>
    rcases starts with ⟨rfl, rfl⟩
    rcases malloc_untouched asksIno ready.heap with rfl
    have present : ∃ token rest, pathTokens path = token :: rest ∧
        ¬ (third.diskAt 1).NoEntry third.device (DirEntry.Matches · token) := by
      by_contra absent
      refine walks (Or.inr ⟨relative, ?_⟩)
      intro token isHead
      rcases List.head?_eq_some_iff.mp isHead with ⟨rest, tokens⟩
      by_contra present
      exact absent ⟨token, rest, tokens, present⟩
    rcases present with ⟨token, rest, tokens, present⟩
    rw [tokens] at looping
    rcases getDirLoop_cons_grows (getDirLoop_grows _ _ _) looping with
      ⟨opened, looked, looks, grows⟩
    rcases dirLookup_opens ready isRoot present looks with ⟨heap, more⟩
    exact fun less => more ((grows heap).2.trans less)

end Refusing

lemma empty_of_removed (ran : filesysRemove fuel (some dir) [] fs = .ok (false, after)) :
  dir.empty = false := by
  rcases filesysRemove_eq_ok ran with ⟨_, isSlash | ⟨found, resolves, cleared⟩⟩
  · cases isSlash
  rcases getDir_eq_ok resolves with ⟨_, currDir, _, _, _, _, ⟨rfl, _⟩, _, looping⟩
  cases looping
  exact cleared dir rfl

/-- No file is ever removed. -/
lemma RemovesRight.not_regular {IsRegular : Word → Prop} {step : ℕ}
  (right : RemovesRight fs IsRegular dir name)
  (isFirst : (fs.diskAt 1).FirstEntry fs.device (DirEntry.Matches · name) step) :
  ¬ IsRegular (DirEntry.inodeSector ((fs.diskAt 1).entryAt fs.device (20 * step))) := by
  intro regular
  rcases right.1 step isFirst regular with ⟨bound, run⟩
  rcases run bound le_rfl with ⟨after, ran, _⟩
  rcases filesysRemove_eq_ok ran with ⟨impossible, _⟩
  cases impossible

end Pintos
