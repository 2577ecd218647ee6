import Pintos.Filesys.NamesFrame
import Pintos.Library.Holdings

/-!
# What the counts of the inodes account for

The counts `open_cnt` and `deny_write_cnt` of the in-memory inodes account for
what is held: every open file and directory is one use of its inode, which is
locked while the file denies writes to it. The functions of the file system that
open and close are specified by what they take from, and add to, the holdings
the counts account for. They leave alone whatever else is held.
-/

namespace Pintos

open Pintos.Computation Function

variable {address : ℕ} {after : Fs}

namespace Fs

def openAt (fs : Fs) (address : ℕ) : ℤ := (fs.inodes address).elim 0 Inode.openCnt

def denyAt (fs : Fs) (address : ℕ) : ℤ := (fs.inodes address).elim 0 Inode.denyWriteCnt

structure Holds (fs : Fs) (held : Holdings ℕ) : Prop where
  unused : ∀ address, fs.nextInode ≤ address → fs.inodes address = none
  openAt_eq : ∀ address, fs.openAt address = held.uses address
  denyAt_eq : ∀ address, fs.denyAt address = held.locks address

variable {fs : Fs} {held frame : Holdings ℕ} {ino : Inode}

lemma openAt_of_some (isOpen : fs.inodes address = some ino) :
  fs.openAt address = ino.openCnt := by
  simp [openAt, isOpen]

lemma denyAt_of_some (isOpen : fs.inodes address = some ino) :
  fs.denyAt address = ino.denyWriteCnt := by
  simp [denyAt, isOpen]

section

variable (holds : fs.Holds held)
include holds

lemma Holds.of_inodes (inodes : after.inodes = fs.inodes)
  (nextInode : after.nextInode = fs.nextInode) : after.Holds held where
  unused address := by
    rw [inodes, nextInode]
    exact holds.unused address
  openAt_eq address := by
    rw [openAt, inodes]
    exact holds.openAt_eq address
  denyAt_eq address := by
    rw [denyAt, inodes]
    exact holds.denyAt_eq address

lemma Holds.of_onlyData (onlyData : fs.OnlyData after) : after.Holds held :=
  holds.of_inodes onlyData.inodes_eq onlyData.nextInode_eq

lemma Holds.update {ino : Option Inode} (inodes : after.inodes = update fs.inodes address ino)
  (nextInode : fs.nextInode ≤ after.nextInode) (bound : address < after.nextInode)
  (uses : ino.elim 0 Inode.openCnt = (frame.uses address : ℤ))
  (locks : ino.elim 0 Inode.denyWriteCnt = (frame.locks address : ℤ))
  (elsewhere : ∀ other, other ≠ address →
    frame.uses other = held.uses other ∧ frame.locks other = held.locks other) :
  after.Holds frame where
  unused other free := by
    rw [inodes, update_of_ne (by omega)]
    exact holds.unused other (by omega)
  openAt_eq other := by
    rw [openAt, inodes]
    by_cases same : other = address
    · rw [same, update_self, uses]
    rw [update_of_ne same, (elsewhere other same).1]
    exact holds.openAt_eq other
  denyAt_eq other := by
    rw [denyAt, inodes]
    by_cases same : other = address
    · rw [same, update_self, locks]
    rw [update_of_ne same, (elsewhere other same).2]
    exact holds.denyAt_eq other

lemma Holds.lt_nextInode (isOpen : fs.inodes address = some ino) : address < fs.nextInode := by
  by_contra beyond
  have free := holds.unused address (by omega)
  simp [isOpen] at free

end

end Fs

def File.holdings (file : File) : Holdings ℕ := .single file.inode file.denyWrite

def Dir.holdings (dir : Dir) : Holdings ℕ := .single dir.inode false

def inodeHoldings (address : ℕ) : Holdings ℕ := .single address false

lemma malloc_eq_ok {fs : Fs} {alloc : Bool} (ran : malloc fs = .ok (alloc, after)) :
  ∃ mallocs, after = { fs with mallocs := mallocs } := by
  cases ran
  exact ⟨_, rfl⟩

section Specifications

variable {pre : Fs} {frame : Holdings ℕ} {opened ino : Option ℕ} {fuel : ℕ} {file : File}
  {name : List Byte}

lemma inodeOpen_holds {sec : Word} (holds : pre.Holds frame)
  (ran : inodeOpen sec pre = .ok (opened, after)) :
  after.Holds (frame + .ofOption inodeHoldings opened) := by
  rcases inodeOpen_eq_ok ran with ⟨address, ino, _, isOpen, _, rfl, rfl⟩ |
    ⟨_, alloc, mid, asked, ⟨_, rfl, rfl⟩ | ⟨_, rfl, rfl⟩⟩
  · have uses := holds.openAt_eq address
    have locks := holds.denyAt_eq address
    rw [Fs.openAt_of_some isOpen] at uses
    rw [Fs.denyAt_of_some isOpen] at locks
    refine holds.update rfl le_rfl (holds.lt_nextInode isOpen) ?_ ?_ ?_
    · simp [Holdings.ofOption, inodeHoldings, uses]
    · simp [Holdings.ofOption, inodeHoldings, locks]
    intro other ne
    simp [Holdings.ofOption, inodeHoldings, ne]
  · simpa [Holdings.ofOption] using holds.of_onlyData (malloc_onlyData asked)
  have holdsMid := holds.of_onlyData (malloc_onlyData asked)
  have free := holdsMid.unused mid.nextInode le_rfl
  have uses := holdsMid.openAt_eq mid.nextInode
  have locks := holdsMid.denyAt_eq mid.nextInode
  simp only [Fs.openAt, Fs.denyAt, free] at uses locks
  refine holdsMid.update rfl (Nat.le_succ _) (Nat.lt_succ_self _) ?_ ?_ ?_
  · simp [Holdings.ofOption, inodeHoldings, openedInode, ← uses]
  · simp [Holdings.ofOption, inodeHoldings, openedInode, ← locks]
  intro other ne
  simp [Holdings.ofOption, inodeHoldings, ne]

lemma inodeClose_holds {fuel address : ℕ} (holds : pre.Holds (frame + inodeHoldings address))
  (ran : inodeClose fuel address pre = .ok ((), after)) : after.Holds frame := by
  rcases inodeClose_eq_ok ran with ⟨ino, isOpen, closed⟩
  have uses := holds.openAt_eq address
  have locks := holds.denyAt_eq address
  have lockedUses := frame.locks_le_uses address
  rw [Fs.openAt_of_some isOpen] at uses
  rw [Fs.denyAt_of_some isOpen] at locks
  simp [inodeHoldings] at uses locks
  have elsewhere : ∀ other, other ≠ address →
      frame.uses other = (frame + inodeHoldings address).uses other ∧
        frame.locks other = (frame + inodeHoldings address).locks other := by
    intro other ne
    simp [inodeHoldings, ne]
  have bound := holds.lt_nextInode isOpen
  rcases closed with ⟨_, rfl⟩ | ⟨isLast, _, rfl⟩ | ⟨isLast, _, mid, last, hdr, data, rfl⟩
  · refine holds.update rfl le_rfl bound ?_ ?_ elsewhere
    · simp [uses]
    · simp [locks]
  · refine holds.update rfl le_rfl bound ?_ ?_ elsewhere
    · simp only [Option.elim_none]
      omega
    simp only [Option.elim_none]
    omega
  have onlyData : (pre.closing address ino).OnlyData last :=
    IsTrans.trans _ _ _ (freeMapRelease_onlyData _ _ _ hdr) (freeMapRelease_onlyData _ _ _ data)
  have freed : update last.inodes address none = update pre.inodes address none := by
    rw [onlyData.inodes_eq]
    exact update_idem _ _ _
  refine holds.update freed (le_of_eq onlyData.nextInode_eq.symm)
    (onlyData.nextInode_eq.symm ▸ bound) ?_ ?_ elsewhere
  · simp only [Option.elim_none]
    omega
  simp only [Option.elim_none]
  omega

lemma inodeDenyWrite_holds (holds : pre.Holds (frame + .single address false))
  (ran : inodeDenyWrite address pre = .ok ((), after)) :
  after.Holds (frame + .single address true) := by
  rcases bind_eq_ok ran with ⟨ino, same, deref, rest⟩
  rcases derefInode_eq_ok deref with ⟨isOpen, rfl⟩
  have uses := holds.openAt_eq address
  have locks := holds.denyAt_eq address
  rw [Fs.openAt_of_some isOpen] at uses
  rw [Fs.denyAt_of_some isOpen] at locks
  split at rest
  · cases rest
    refine holds.update rfl le_rfl (holds.lt_nextInode isOpen) ?_ ?_ ?_
    · simp [uses]
    · simp [locks]
    intro other ne
    simp [ne]
  · simp at rest

lemma inodeAllowWrite_holds (holds : pre.Holds (frame + .single address true))
  (ran : inodeAllowWrite address pre = .ok ((), after)) :
  after.Holds (frame + .single address false) := by
  rcases bind_eq_ok ran with ⟨ino, same, deref, rest⟩
  rcases derefInode_eq_ok deref with ⟨isOpen, rfl⟩
  have uses := holds.openAt_eq address
  have locks := holds.denyAt_eq address
  rw [Fs.openAt_of_some isOpen] at uses
  rw [Fs.denyAt_of_some isOpen] at locks
  split at rest
  · cases rest
    refine holds.update rfl le_rfl (holds.lt_nextInode isOpen) ?_ ?_ ?_
    · simp [uses]
    · simp [locks]
    intro other ne
    simp [ne]
  · simp at rest

/-- The object made for an inode takes over its use; without memory for it the inode is closed. -/
lemma wrapped_holds {Object : Type} {holdings : Object → Holdings ℕ} {wrapped : Object}
  {opened : Option Object} (same : holdings wrapped = inodeHoldings address)
  (holds : pre.Holds (frame + inodeHoldings address))
  (ran : (do
    let alloc ← malloc
    if alloc then pure (some wrapped)
    else do
      inodeClose fuel address
      pure none : Kernel (Option Object)) pre = .ok (opened, after)) :
  after.Holds (frame + .ofOption holdings opened) := by
  rcases bind_eq_ok ran with ⟨alloc, mid, asked, rest⟩
  have holdsMid := holds.of_onlyData (malloc_onlyData asked)
  cases alloc with
  | true =>
    cases rest
    simpa [Holdings.ofOption, same] using holdsMid
  | false =>
    rcases bind_eq_ok rest with ⟨_, closed, closes, isNull⟩
    cases isNull
    simpa [Holdings.ofOption] using inodeClose_holds holdsMid closes

lemma fileOpen_holds {opened : Option File}
  (holds : pre.Holds (frame + .ofOption inodeHoldings ino))
  (ran : fileOpen fuel ino pre = .ok (opened, after)) :
  after.Holds (frame + .ofOption File.holdings opened) := by
  cases ino with
  | none =>
    rcases bind_eq_ok ran with ⟨_, mid, asked, rest⟩
    cases rest
    exact holds.of_onlyData (malloc_onlyData asked)
  | some address => exact wrapped_holds rfl holds ran

lemma dirOpen_holds {opened : Option Dir}
  (holds : pre.Holds (frame + .ofOption inodeHoldings ino))
  (ran : dirOpen fuel ino pre = .ok (opened, after)) :
  after.Holds (frame + .ofOption Dir.holdings opened) := by
  cases ino with
  | none =>
    rcases bind_eq_ok ran with ⟨_, mid, asked, rest⟩
    cases rest
    exact holds.of_onlyData (malloc_onlyData asked)
  | some address => exact wrapped_holds rfl holds ran

lemma dirOpenRoot_holds {opened : Option Dir} (holds : pre.Holds frame)
  (ran : dirOpenRoot fuel pre = .ok (opened, after)) :
  after.Holds (frame + .ofOption Dir.holdings opened) := by
  rcases bind_eq_ok ran with ⟨ino, mid, opens, rest⟩
  exact dirOpen_holds (inodeOpen_holds holds opens) rest

lemma dirClose_holds {dir : Option Dir} (holds : pre.Holds (frame + .ofOption Dir.holdings dir))
  (ran : dirClose fuel dir pre = .ok ((), after)) : after.Holds frame := by
  cases dir with
  | none =>
    cases ran
    simpa [Holdings.ofOption] using holds
  | some dir => exact inodeClose_holds holds ran

lemma fileAllowWrite_holds {opened : File} (holds : pre.Holds (frame + file.holdings))
  (ran : fileAllowWrite file pre = .ok (opened, after)) :
  after.Holds (frame + inodeHoldings file.inode) ∧ opened.inode = file.inode := by
  unfold fileAllowWrite at ran
  split at ran
  · next denies =>
      rcases bind_eq_ok ran with ⟨_, mid, allowed, rest⟩
      cases rest
      rw [File.holdings, denies] at holds
      exact ⟨inodeAllowWrite_holds holds allowed, rfl⟩
  next allows =>
    cases ran
    rw [File.holdings, Bool.eq_false_of_not_eq_true allows] at holds
    exact ⟨holds, rfl⟩

lemma fileClose_holds {file : Option File}
  (holds : pre.Holds (frame + .ofOption File.holdings file))
  (ran : fileClose fuel file pre = .ok ((), after)) : after.Holds frame := by
  cases file with
  | none =>
    cases ran
    simpa [Holdings.ofOption] using holds
  | some file =>
    rcases bind_eq_ok ran with ⟨opened, mid, allowed, closes⟩
    rcases fileAllowWrite_holds holds allowed with ⟨holdsMid, same⟩
    rw [same] at closes
    exact inodeClose_holds holdsMid closes

lemma fileDenyWrite_holds {opened : File} (allows : file.denyWrite = false)
  (holds : pre.Holds (frame + file.holdings))
  (ran : fileDenyWrite file pre = .ok (opened, after)) :
  after.Holds (frame + opened.holdings) := by
  unfold fileDenyWrite at ran
  rw [allows] at ran
  rcases bind_eq_ok ran with ⟨_, mid, denied, rest⟩
  cases rest
  rw [File.holdings, allows] at holds
  exact inodeDenyWrite_holds holds denied

lemma lookupLoop_onlyData (address : ℕ) (name : List Byte) (fuel : ℕ) (ofs : ℤ) :
  Preserves Fs.OnlyData (lookupLoop address name fuel ofs) :=
  lookupLoop_preserves malloc_onlyData address name fuel ofs

lemma dirReaddirLoop_onlyData (address fuel : ℕ) (pos : ℤ) :
  Preserves Fs.OnlyData (dirReaddirLoop address fuel pos) := by
  induction fuel generalizing pos with
  | zero => exact .stop _
  | succ fuel ih =>
    refine .bind (inodeReadLoop_preserves malloc_onlyData _ _ _ _ _ _ _) fun read => ?_
    exact .ite (.ite (.pure _) (ih _)) (.pure _)

lemma dirLookup_holds {dir : Dir} (holds : pre.Holds frame)
  (ran : dirLookup fuel dir name pre = .ok (opened, after)) :
  after.Holds (frame + .ofOption inodeHoldings opened) := by
  rcases bind_eq_ok ran with ⟨found, mid, looked, rest⟩
  have holdsMid := holds.of_onlyData (lookupLoop_onlyData _ _ _ _ looked)
  cases found with
  | none =>
    cases rest
    simpa [Holdings.ofOption] using holdsMid
  | some entry => exact inodeOpen_holds holdsMid rest

lemma filesysOpen_holds {opened : Option File} (holds : pre.Holds frame)
  (ran : filesysOpen fuel name pre = .ok (opened, after)) :
  after.Holds (frame + .ofOption File.holdings opened) := by
  rcases bind_eq_ok ran with ⟨root, rooted, opensRoot, rest⟩
  have holdsRoot := dirOpenRoot_holds holds opensRoot
  cases root with
  | none =>
    simp only at rest
    split at rest <;> simp at rest
  | some dir =>
    simp only at rest
    split at rest
    · exact fileOpen_holds holdsRoot rest
    rcases bind_eq_ok rest with ⟨ino, looked, looks, afterLookup⟩
    rcases bind_eq_ok afterLookup with ⟨_, closed, closes, opensFile⟩
    have holdsBoth := dirLookup_holds holdsRoot looks
    rw [add_right_comm] at holdsBoth
    exact fileOpen_holds (dirClose_holds holdsBoth closes) opensFile

lemma fileOpen_fresh (ran : fileOpen fuel ino pre = .ok (some file, after)) :
  file.pos = 0 ∧ file.denyWrite = false := by
  cases ino with
  | none =>
    rcases bind_eq_ok ran with ⟨_, _, _, rest⟩
    cases rest
  | some address =>
    rcases bind_eq_ok ran with ⟨alloc, mid, _, rest⟩
    cases alloc with
    | true =>
      cases rest
      exact ⟨rfl, rfl⟩
    | false =>
      rcases bind_eq_ok rest with ⟨_, _, _, isNull⟩
      cases isNull

lemma filesysOpen_fresh (ran : filesysOpen fuel name pre = .ok (some file, after)) :
  file.pos = 0 ∧ file.denyWrite = false := by
  rcases bind_eq_ok ran with ⟨root, rooted, _, rest⟩
  cases root with
  | none =>
    simp only at rest
    split at rest <;> simp at rest
  | some dir =>
    simp only at rest
    split at rest
    · exact fileOpen_fresh rest
    rcases bind_eq_ok rest with ⟨_, _, _, afterLookup⟩
    rcases bind_eq_ok afterLookup with ⟨_, _, _, opensFile⟩
    exact fileOpen_fresh opensFile

end Specifications

end Pintos
