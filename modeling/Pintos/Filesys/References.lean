import Pintos.Filesys.Counts
import Pintos.Filesys.FormatRoot
import Pintos.Library.Runs

/-!
# References to inodes

A caller holds open files, open directories and pointers to inodes, and calls the
functions of `filesys/` that create and give back such handles. Beside these
there are the file of the free map and `struct dir` objects that nobody refers
to: the root directory that `filesys_create` opens for the first two files, and
the new directory in `dir_create`, are never closed. Such an object refers to its
inode all the same.

`dir_add` looks up the name it has added. The inode that `dir_lookup` opens for
it goes where an uninitialized pointer points, and no object refers to it. So the
counts of the inodes are right in the runs in which every `dir_add` is refused because
of its name.
-/

namespace Pintos

open Pintos.Computation Function

inductive Handle
  | file (file : File)
  | dir (dir : Dir)
  | inode (address : ℕ)

def Handle.address : Handle → ℕ
  | .file openFile => openFile.inode
  | .dir openDir => openDir.inode
  | .inode held => held

/-- The file system, the handles of the caller, and the objects that are not in the hands of the
caller: the file of the free map, and those that were never closed. -/
structure References where
  fs : Fs
  handles : List Handle
  others : List Handle

/-- The calls; a handle is named by its place in the list of handles. `currentDir` is the handle
that the field `current_dir` of the running thread refers to. -/
inductive RefCall
  | filesysCreate (currentDir : Option ℕ) (name : List Byte) (initialSize : ℤ)
  | filesysOpen (name : List Byte)
  | fileClose (place : ℕ)
  | dirOpenRoot
  | dirLookup (place : ℕ) (name : List Byte)
  | dirAdd (place : ℕ) (name : List Byte) (inodeSector : Word)
  | dirRemove (place : ℕ) (name : List Byte)
  | dirCreate (sector : Word) (entryCnt : ℕ)
  | dirClose (place : ℕ)

inductive RefStop
  | kernel (reason : Stop)
  | noHandle

namespace References

def refs (state : References) (address : ℕ) : ℕ :=
  state.handles.countP (fun handle => handle.address = address) +
    state.others.countP (fun handle => handle.address = address)

def onKernel {Value : Type} (action : Kernel Value) (fs : Fs) : Except RefStop (Value × Fs) :=
  match action fs with
  | .ok outcome => .ok outcome
  | .error reason => .error (.kernel reason)

def dirAt (state : References) (place : ℕ) : Except RefStop Dir :=
  match state.handles[place]? with
  | some (.dir dir) => .ok dir
  | _ => .error .noHandle

def fileAt (state : References) (place : ℕ) : Except RefStop File :=
  match state.handles[place]? with
  | some (.file file) => .ok file
  | _ => .error .noHandle

def currentDirAt (state : References) : Option ℕ → Except RefStop (Option Dir)
  | none => .ok none
  | some place => (state.dirAt place).map some

def lostByCreate (fuel : ℕ) (currentDir : Option Dir) (name : List Byte) (fs : Fs) : List Handle :=
  if fs.i ≤ 1 then
    match filesysCreateEntry fuel currentDir name fs with
    | .ok ((dir, _), _) => (dir.map Handle.dir).toList
    | .error _ => []
  else []

def lostByDirCreate (fuel : ℕ) (sector : Word) (entryCnt : ℕ) (fs : Fs) : List Handle :=
  match dirCreateFirst fuel sector entryCnt fs with
  | .ok ((_, firstDir), _) => (firstDir.map Handle.dir).toList
  | .error _ => []

def step (fuel : ℕ) (state : References) : RefCall → Except RefStop (Unit × References)
  | .filesysCreate currentDir name initialSize =>
    (state.currentDirAt currentDir).bind fun dir =>
      (onKernel (Pintos.filesysCreate fuel dir name initialSize) state.fs).map fun outcome =>
        ((), { state with
          fs := outcome.2
          others := lostByCreate fuel dir name state.fs ++ state.others })
  | .filesysOpen name =>
    (onKernel (Pintos.filesysOpen fuel name) state.fs).map fun outcome =>
      ((), { state with
        fs := outcome.2
        handles := (outcome.1.map Handle.file).toList ++ state.handles })
  | .fileClose place =>
    (state.fileAt place).bind fun file =>
      (onKernel (Pintos.fileClose fuel (some file)) state.fs).map fun outcome =>
        ((), { state with fs := outcome.2, handles := state.handles.eraseIdx place })
  | .dirOpenRoot =>
    (onKernel (Pintos.dirOpenRoot fuel) state.fs).map fun outcome =>
      ((), { state with
        fs := outcome.2
        handles := (outcome.1.map Handle.dir).toList ++ state.handles })
  | .dirLookup place name =>
    (state.dirAt place).bind fun dir =>
      (onKernel (Pintos.dirLookup fuel dir name) state.fs).map fun outcome =>
        ((), { state with
          fs := outcome.2
          handles := (outcome.1.map Handle.inode).toList ++ state.handles })
  | .dirAdd place name inodeSector =>
    (state.dirAt place).bind fun dir =>
      (onKernel (Pintos.dirAdd fuel dir name inodeSector) state.fs).map fun outcome =>
        ((), { state with fs := outcome.2 })
  | .dirRemove place name =>
    (state.dirAt place).bind fun dir =>
      (onKernel (Pintos.dirRemove fuel dir name) state.fs).map fun outcome =>
        ((), { state with fs := outcome.2 })
  | .dirCreate sector entryCnt =>
    (onKernel (Pintos.dirCreate fuel sector entryCnt) state.fs).map fun outcome =>
      ((), { state with
        fs := outcome.2
        others := lostByDirCreate fuel sector entryCnt state.fs ++ state.others })
  | .dirClose place =>
    (state.dirAt place).bind fun dir =>
      (onKernel (Pintos.dirClose fuel (some dir)) state.fs).map fun outcome =>
        ((), { state with fs := outcome.2, handles := state.handles.eraseIdx place })

structure Counted (state : References) : Prop where
  openCnt_eq : ∀ address inode, state.fs.inodes address = some inode →
    inode.openCnt = state.refs address
  noStray : ∀ address, state.refs address = 0 → address ∉ state.fs.openInodes

end References

variable {success : Bool} {address entryCnt place : ℕ} {opened : Option ℕ} {initialSize : ℤ}
  {name : List Byte} {sector : Word} {dir : Dir} {handle : Handle}

section DirAdd

variable {fuel : ℕ} {fs after : Fs} {frame : Holdings ℕ}

/-- `dir_add` returns before it writes: the name is empty or too long, or `lookup` finds it. -/
def AddRefused (fuel : ℕ) (dir : Dir) (name : List Byte) (fs : Fs) : Prop :=
  name = [] ∨ name.length > nameMax ∨
    ∃ found after, lookup fuel dir name fs = .ok (some found, after)

/-- A `dir_add` that is refused leaves nothing open. -/
lemma dirAdd_holds (holds : fs.Holds frame) (refused : AddRefused fuel dir name fs)
  (returned : dirAdd fuel dir name sector fs = .ok (success, after)) : after.Holds frame := by
  unfold dirAdd at returned
  split at returned
  · cases returned
    exact holds
  next isValid =>
    rcases bind_eq_ok returned with ⟨found, first, looks, adding⟩
    rcases refused with isEmpty | isLong | ⟨found, _, finds⟩
    · exact absurd (Or.inl isEmpty) isValid
    · exact absurd (Or.inr isLong) isValid
    · rw [looks] at finds
      cases finds
      cases adding
      exact holds.of_onlyData (lookupLoop_onlyData _ _ _ _ looks)

lemma inodeRemove_holds (holds : fs.Holds frame)
  (returned : inodeRemove address fs = .ok ((), after)) : after.Holds frame := by
  rcases bind_eq_ok returned with ⟨ino, same, deref, rest⟩
  rcases derefInode_eq_ok deref with ⟨isOpen, rfl⟩
  cases rest
  have uses := holds.openAt_eq address
  have locks := holds.denyAt_eq address
  rw [Fs.openAt_of_some isOpen] at uses
  rw [Fs.denyAt_of_some isOpen] at locks
  exact holds.update rfl le_rfl (holds.lt_nextInode isOpen) uses locks fun _ _ => ⟨rfl, rfl⟩

lemma dirRemove_holds (holds : fs.Holds frame)
  (returned : dirRemove fuel dir name fs = .ok (success, after)) : after.Holds frame := by
  rcases bind_eq_ok returned with ⟨found, first, looks, removing⟩
  have holdsFirst := holds.of_onlyData (lookupLoop_onlyData _ _ _ _ looks)
  cases found with
  | none =>
    cases removing
    exact holdsFirst
  | some found =>
    rcases bind_eq_ok removing with ⟨opened, second, opens, erasing⟩
    have holdsSecond := inodeOpen_holds holdsFirst opens
    cases opened with
    | none =>
      cases erasing
      simpa [Holdings.ofOption] using holdsSecond
    | some address =>
      rcases bind_eq_ok erasing with ⟨written, third, writes, finishing⟩
      have holdsThird := holdsSecond.of_onlyData (inodeWriteAt_onlyData _ _ _ _ _ writes)
      split at finishing
      · rcases bind_eq_ok finishing with ⟨_, fourth, removes, closing⟩
        rcases bind_eq_ok closing with ⟨_, fifth, closes, done⟩
        cases done
        exact inodeClose_holds (inodeRemove_holds holdsThird removes) closes
      rcases bind_eq_ok finishing with ⟨_, fourth, closes, done⟩
      cases done
      exact inodeClose_holds holdsThird closes

end DirAdd

section Listed

structure Fs.Listed (fs : Fs) : Prop where
  unused : ∀ address, fs.nextInode ≤ address → fs.inodes address = none
  nodup : fs.openInodes.Nodup
  isOpen : ∀ address ∈ fs.openInodes, ∃ inode, fs.inodes address = some inode ∧ 1 ≤ inode.openCnt

def Fs.KeepsListed (fs after : Fs) : Prop := fs.Listed → after.Listed

instance : IsPreorder Fs Fs.KeepsListed where
  refl _ listed := listed
  trans _ _ _ first second := second ∘ first

variable {fs after : Fs}

lemma Fs.OnlyData.keepsListed (same : fs.OnlyData after) : fs.KeepsListed after := by
  intro listed
  rcases listed with ⟨unused, nodup, isOpen⟩
  refine ⟨?_, ?_, ?_⟩ <;> simpa only [same.nextInode_eq, same.inodes_eq, same.openInodes_eq]

lemma keepsListed_of_onlyData {Value : Type} {action : Kernel Value}
  (same : Preserves Fs.OnlyData action) : Preserves Fs.KeepsListed action :=
  fun _ _ _ returned => (same returned).keepsListed

lemma Fs.Listed.setInode {old new : Inode} (listed : fs.Listed)
  (isThere : fs.inodes address = some old) (kept : 1 ≤ old.openCnt → 1 ≤ new.openCnt) :
  (fs.setInode address new).Listed := by
  have openInodes : (fs.setInode address new).openInodes = fs.openInodes := rfl
  have nextInode : (fs.setInode address new).nextInode = fs.nextInode := rfl
  rcases listed with ⟨unused, nodup, isOpen⟩
  refine ⟨?_, ?_, ?_⟩ <;> grind

lemma malloc_keepsListed : Preserves Fs.KeepsListed malloc :=
  keepsListed_of_onlyData malloc_onlyData

lemma Fs.Listed.pushed {ino : Inode} (listed : fs.Listed) (isOpen : 1 ≤ ino.openCnt)
  (inodes : after.inodes = update fs.inodes fs.nextInode (some ino))
  (openInodes : after.openInodes = fs.nextInode :: fs.openInodes)
  (nextInode : after.nextInode = fs.nextInode + 1) : after.Listed := by
  have inoAt : ∀ other, after.inodes other =
      if other = fs.nextInode then some ino else fs.inodes other := by
    rw [inodes]
    exact fun _ => update_apply ..
  rcases listed with ⟨unused, nodup, wereOpen⟩
  refine ⟨?_, ?_, ?_⟩ <;> grind

lemma inodeOpen_keepsListed (sector : Word) : Preserves Fs.KeepsListed (inodeOpen sector) := by
  intro pre opened after returned listed
  rcases inodeOpen_eq_ok returned with ⟨address, ino, _, isThere, _, rfl, rfl⟩ |
    ⟨_, alloc, mid, asked, ⟨_, rfl, rfl⟩ | ⟨_, rfl, rfl⟩⟩
  · exact listed.setInode isThere fun pos => by simp only; omega
  · exact malloc_keepsListed asked listed
  · exact (malloc_keepsListed asked listed).pushed le_rfl rfl rfl rfl

lemma Fs.Listed.dropped (listed : fs.Listed)
  (inodes : after.inodes = update fs.inodes address none)
  (openInodes : after.openInodes = fs.openInodes.erase address)
  (nextInode : after.nextInode = fs.nextInode) : after.Listed := by
  have inoAt : ∀ other, after.inodes other =
      if other = address then none else fs.inodes other := by
    rw [inodes]
    exact fun _ => update_apply ..
  rcases listed with ⟨unused, nodup, isOpen⟩
  refine ⟨?_, ?_, ?_⟩ <;> grind

lemma inodeClose_keepsListed (fuel address : ℕ) :
  Preserves Fs.KeepsListed (inodeClose fuel address) := by
  intro pre val after returned listed
  rcases inodeClose_eq_ok returned with ⟨ino, isThere, closed⟩
  rcases closed with ⟨notLast, rfl⟩ | ⟨_, _, rfl⟩ | ⟨_, _, mid, last, hdr, data, rfl⟩
  · exact listed.setInode isThere fun pos => by simp only; omega
  · exact listed.dropped rfl rfl rfl
  have same : (pre.closing address ino).OnlyData last :=
    IsTrans.trans _ _ _ (freeMapRelease_onlyData _ _ _ hdr) (freeMapRelease_onlyData _ _ _ data)
  refine listed.dropped ?_ same.openInodes_eq same.nextInode_eq
  rw [same.inodes_eq]
  exact update_idem _ _ _

lemma inodeRemove_keepsListed (address : ℕ) : Preserves Fs.KeepsListed (inodeRemove address) := by
  intro pre val after returned listed
  rcases bind_eq_ok returned with ⟨ino, same, deref, rest⟩
  rcases derefInode_eq_ok deref with ⟨isThere, rfl⟩
  cases rest
  exact listed.setInode isThere id

lemma fileAllowWrite_keepsListed (file : File) :
  Preserves Fs.KeepsListed (fileAllowWrite file) := by
  refine .ite (.bind ?_ fun _ => .pure _) (.pure _)
  intro pre val after returned listed
  rcases bind_eq_ok returned with ⟨ino, same, deref, rest⟩
  rcases derefInode_eq_ok deref with ⟨isThere, rfl⟩
  split at rest
  · cases rest
    exact listed.setInode isThere id
  · cases rest

section

variable (fuel : ℕ)
include fuel

lemma fileClose_keepsListed (file : Option File) :
  Preserves Fs.KeepsListed (fileClose fuel file) := by
  cases file with
  | none => exact .pure _
  | some file =>
    exact .bind (fileAllowWrite_keepsListed file) fun _ => inodeClose_keepsListed fuel _

lemma dirOpenRoot_keepsListed : Preserves Fs.KeepsListed (dirOpenRoot fuel) :=
  dirOpenRoot_preserves malloc_keepsListed inodeOpen_keepsListed inodeClose_keepsListed fuel

lemma dirAdd_keepsListed (dir : Dir) (name : List Byte) (sector : Word) :
  Preserves Fs.KeepsListed (dirAdd fuel dir name sector) :=
  dirAdd_preserves malloc_keepsListed inodeOpen_keepsListed
    (fun _ _ _ _ _ => keepsListed_of_onlyData (inodeWriteAt_onlyData _ _ _ _ _)) fuel dir name
    sector

lemma dirRemove_keepsListed (dir : Dir) (name : List Byte) :
  Preserves Fs.KeepsListed (dirRemove fuel dir name) := by
  refine .bind (lookupLoop_preserves malloc_keepsListed _ _ _ _) fun found => ?_
  cases found with
  | none => exact .pure _
  | some entry =>
    refine .bind (inodeOpen_keepsListed _) fun opened => ?_
    cases opened with
    | none => exact .pure _
    | some address =>
      refine .bind (keepsListed_of_onlyData (inodeWriteAt_onlyData _ _ _ _ _)) fun written =>
        .ite ?_ (.bind (inodeClose_keepsListed _ _) fun _ => .pure _)
      exact .bind (inodeRemove_keepsListed _) fun _ =>
        .bind (inodeClose_keepsListed _ _) fun _ => .pure _

lemma filesysCreate_keepsListed (currentDir : Option Dir) (name : List Byte)
  (initialSize : ℤ) :
  Preserves Fs.KeepsListed (filesysCreate fuel currentDir name initialSize) := by
  have entryKeeps : Preserves Fs.KeepsListed (filesysCreateEntry fuel currentDir name) := by
    refine .bind (.reads _) fun i => .ite (.bind (dirOpenRoot_keepsListed fuel) fun _ => .pure _) ?_
    cases (pathTokens name).getLast? with
    | none => exact .stop _
    | some last => exact .pure _
  have inoKeeps : ∀ dir, Preserves Fs.KeepsListed (filesysCreateInode fuel dir initialSize) := by
    intro dir
    cases dir with
    | none => exact .pure _
    | some dir =>
      refine .bind (keepsListed_of_onlyData (freeMapAllocate_onlyData fuel 1)) fun sector => ?_
      cases sector with
      | none => exact .pure _
      | some sector =>
        exact .bind (keepsListed_of_onlyData (inodeCreate_onlyData fuel sector _)) fun _ =>
          .pure _
  refine .bind (.reads _) fun i => .bind entryKeeps fun found => .bind (inoKeeps _) fun ready => ?_
  have counting : Preserves Fs.KeepsListed
      (updates fun fs => { fs with i := fs.i + 1 } : Kernel PUnit) :=
    .updates fun _ listed => ⟨listed.unused, listed.nodup, listed.isOpen⟩
  cases ready with
  | none => exact .bind (.pure _) fun _ => .ite (.bind counting fun _ => .pure _) (.pure _)
  | some ready =>
    exact .bind (dirAdd_keepsListed _ _ _ _) fun _ =>
      .ite (.bind counting fun _ => .pure _) (.pure _)

lemma dirCreate_keepsListed (sector : Word) (entryCnt : ℕ) :
  Preserves Fs.KeepsListed (dirCreate fuel sector entryCnt) := by
  have firstKeeps : Preserves Fs.KeepsListed (dirCreateFirst fuel sector entryCnt) :=
    .bind (keepsListed_of_onlyData (inodeCreate_onlyData fuel sector _)) fun _ =>
      .bind (inodeOpen_keepsListed sector) fun ino =>
        .bind (dirOpen_preserves malloc_keepsListed inodeClose_keepsListed fuel ino) fun _ =>
          .pure _
  refine .bind firstKeeps fun made => ?_
  rcases made with ⟨_, _ | dir⟩
  · exact .stop _
  · exact .bind (dirAdd_keepsListed _ _ _ _) fun _ =>
      .bind (dirAdd_keepsListed _ _ _ _) fun _ => .pure _

end

end Listed

section Creating

variable {fuel : ℕ} {fs after : Fs} {frame : Holdings ℕ}

lemma dirCreateFirst_holds {firstDir : Option Dir} (holds : fs.Holds frame)
  (returned : dirCreateFirst fuel sector entryCnt fs = .ok ((success, firstDir), after)) :
  after.Holds (frame + .ofOption Dir.holdings firstDir) := by
  rcases bind_eq_ok returned with ⟨created, first, creates, opening⟩
  rcases bind_eq_ok opening with ⟨ino, second, opens, making⟩
  rcases bind_eq_ok making with ⟨dir, third, makes, done⟩
  cases done
  exact dirOpen_holds
    (inodeOpen_holds (holds.of_onlyData (inodeCreate_onlyData _ _ _ creates)) opens) makes

lemma dirCreate_splits (returned : dirCreate fuel sector entryCnt fs = .ok (success, after)) :
  ∃ firstDir first dotAdded second dotDotAdded,
    dirCreateFirst fuel sector entryCnt fs = .ok ((success, some firstDir), first) ∧
    dirAdd fuel firstDir dotName sector first = .ok (dotAdded, second) ∧
    dirAdd fuel firstDir dotDotName sector second = .ok (dotDotAdded, after) := by
  rcases bind_eq_ok returned with ⟨⟨created, dir⟩, first, makes, adding⟩
  cases dir with
  | none => cases adding
  | some dir =>
    rcases bind_eq_ok adding with ⟨dotAdded, second, addsDot, addingDotDot⟩
    rcases bind_eq_ok addingDotDot with ⟨dotDotAdded, third, addsDotDot, done⟩
    cases done
    exact ⟨dir, first, dotAdded, second, dotDotAdded, makes, addsDot, addsDotDot⟩

lemma filesysCreateEntry_holds {currentDir dir : Option Dir} {entry : List Byte}
  (holds : fs.Holds frame)
  (returned : filesysCreateEntry fuel currentDir name fs = .ok ((dir, entry), after)) :
  after.Holds (frame + .ofOption Dir.holdings (if fs.i ≤ 1 then dir else none)) := by
  unfold filesysCreateEntry at returned
  rw [reads_bind_apply] at returned
  split at returned
  · next early =>
      rcases bind_eq_ok returned with ⟨root, mid, opens, done⟩
      cases done
      rw [if_pos early]
      exact dirOpenRoot_holds holds opens
  next late =>
    rw [if_neg late]
    cases isLast : (pathTokens name).getLast? with
    | none =>
      rw [isLast] at returned
      cases returned
    | some last =>
      rw [isLast] at returned
      cases returned
      simpa [Holdings.ofOption] using holds

lemma filesysCreateInode_holds {dir : Option Dir} {ready : Option (Dir × Word)}
  (holds : fs.Holds frame)
  (returned : filesysCreateInode fuel dir initialSize fs = .ok (ready, after)) :
  after.Holds frame := by
  cases dir with
  | none =>
    cases returned
    exact holds
  | some dir =>
    rcases bind_eq_ok returned with ⟨sector, first, allocates, creating⟩
    have holdsFirst := holds.of_onlyData (freeMapAllocate_onlyData _ _ allocates)
    cases sector with
    | none =>
      cases creating
      exact holdsFirst
    | some sector =>
      rcases bind_eq_ok creating with ⟨created, second, creates, done⟩
      cases done
      exact holdsFirst.of_onlyData (inodeCreate_onlyData _ _ _ creates)

end Creating

def Handle.holdings : Handle → Holdings ℕ
  | .file openFile => openFile.holdings
  | .dir openDir => openDir.holdings
  | .inode held => inodeHoldings held

def heldBy (handles : List Handle) : Holdings ℕ := (handles.map Handle.holdings).sum

section HeldBy

variable {handles : List Handle}

lemma heldBy_append (left right : List Handle) :
  heldBy (left ++ right) = heldBy left + heldBy right := by
  rw [heldBy, List.map_append, List.sum_append]
  rfl

lemma heldBy_toList {Object : Type} {make : Object → Handle} {holdings : Object → Holdings ℕ}
  (same : ∀ object, (make object).holdings = holdings object) (object : Option Object) :
  heldBy (object.map make).toList = .ofOption holdings object := by
  cases object with
  | none => rfl
  | some object => simp [heldBy, Holdings.ofOption, same]

lemma heldBy_eraseIdx (isHandle : handles[place]? = some handle) :
  heldBy handles = heldBy (handles.eraseIdx place) + handle.holdings := by
  rcases List.getElem?_eq_some_iff.mp isHandle with ⟨bound, isThere⟩
  have perm := (List.getElem_cons_eraseIdx_perm bound).map Handle.holdings
  rw [heldBy, ← perm.sum_eq, List.map_cons, isThere, add_comm]
  rfl

lemma uses_holdings (handle : Handle) (address : ℕ) :
  handle.holdings.uses address = if handle.address = address then 1 else 0 := by
  cases handle with
  | file openFile => simp [Handle.holdings, Handle.address, File.holdings, eq_comm]
  | dir openDir => simp [Handle.holdings, Handle.address, Dir.holdings, eq_comm]
  | inode held => simp [Handle.holdings, Handle.address, inodeHoldings, eq_comm]

lemma uses_heldBy (handles : List Handle) (address : ℕ) :
  (heldBy handles).uses address = handles.countP (fun handle => handle.address = address) := by
  induction handles with
  | nil => rfl
  | cons handle rest ih =>
    have split : heldBy (handle :: rest) = handle.holdings + heldBy rest := by
      simp [heldBy]
    rw [split, Holdings.add_uses, uses_holdings, List.countP_cons]
    simp only [decide_eq_true_eq]
    omega

end HeldBy

namespace References

variable {fuel : ℕ} {state after : References} {call : RefCall} {fs : Fs} {Value : Type}
  {action : Kernel Value}

def held (state : References) : Holdings ℕ := heldBy state.handles + heldBy state.others

lemma uses_held (state : References) (address : ℕ) :
  state.held.uses address = state.refs address := by
  rw [held, Holdings.add_uses, uses_heldBy, uses_heldBy, refs]

/-- The call comes to a call of `dir_add` for this directory and name, in this state. -/
inductive AddsAt (fuel : ℕ) (state : References) : RefCall → Dir → List Byte → Fs → Prop
  | create {currentDir : Option ℕ} {name entry : List Byte} {initialSize : ℤ}
      {current dir : Option Dir} {target : Dir} {sector : Word} {first middle : Fs}
      (isCurrent : state.currentDirAt currentDir = .ok current)
      (enters : filesysCreateEntry fuel current name state.fs = .ok ((dir, entry), first))
      (makes : filesysCreateInode fuel dir initialSize first =
        .ok (some (target, sector), middle)) :
      AddsAt fuel state (.filesysCreate currentDir name initialSize) target entry middle
  | add {place : ℕ} {dir : Dir} {name : List Byte} {sector : Word}
      (isDir : state.dirAt place = .ok dir) :
      AddsAt fuel state (.dirAdd place name sector) dir name state.fs
  | dot {sector : Word} {entryCnt : ℕ} {success : Bool} {firstDir : Dir} {first : Fs}
      (makes : dirCreateFirst fuel sector entryCnt state.fs =
        .ok ((success, some firstDir), first)) :
      AddsAt fuel state (.dirCreate sector entryCnt) firstDir dotName first
  | dotDot {sector : Word} {entryCnt : ℕ} {success dotAdded : Bool} {firstDir : Dir}
      {first second : Fs}
      (makes : dirCreateFirst fuel sector entryCnt state.fs =
        .ok ((success, some firstDir), first))
      (addsDot : dirAdd fuel firstDir dotName sector first = .ok (dotAdded, second)) :
      AddsAt fuel state (.dirCreate sector entryCnt) firstDir dotDotName second

/-- Every `dir_add` of the call is refused because of its name. -/
def Refuses (fuel : ℕ) (state : References) (call : RefCall) : Prop :=
  ∀ dir name fs, AddsAt fuel state call dir name fs → AddRefused fuel dir name fs

structure Balanced (state : References) : Prop where
  holds : state.fs.Holds state.held
  listed : state.fs.Listed

lemma Balanced.counted (balanced : state.Balanced) : state.Counted where
  openCnt_eq address ino isThere := by
    have cnt := balanced.holds.openAt_eq address
    rw [Fs.openAt_of_some isThere, uses_held] at cnt
    exact cnt
  noStray address noRef member := by
    rcases balanced.listed.isOpen address member with ⟨ino, isThere, pos⟩
    have cnt := balanced.holds.openAt_eq address
    rw [Fs.openAt_of_some isThere, uses_held] at cnt
    omega

lemma onKernel_eq_ok {out : Value × Fs} (returned : onKernel action fs = .ok out) :
  action fs = .ok out := by
  unfold onKernel at returned
  grind

lemma dirAt_eq_ok (found : state.dirAt place = .ok dir) :
  state.handles[place]? = some (.dir dir) := by
  unfold dirAt at found
  grind

lemma fileAt_eq_ok {file : File} (found : state.fileAt place = .ok file) :
  state.handles[place]? = some (.file file) := by
  unfold fileAt at found
  grind

lemma map_onKernel_eq_ok {res : Value × Fs → References}
  (returned : (onKernel action fs).map (fun out => ((), res out)) = .ok ((), after)) :
  ∃ val mid, action fs = .ok (val, mid) ∧ after = res (val, mid) := by
  rcases Performs.map_eq_ok returned with ⟨⟨val, mid⟩, acted, same⟩
  cases same
  exact ⟨val, mid, onKernel_eq_ok acted, rfl⟩

section Steps

lemma holds_opened {Object : Type} {make : Object → Handle} {holdings : Object → Holdings ℕ}
  (same : ∀ object, (make object).holdings = holdings object) {object : Option Object}
  (holdsAfter : fs.Holds (state.held + .ofOption holdings object)) : fs.Holds (held { state with
    fs := fs, handles := (object.map make).toList ++ state.handles }) := by
  have account : held { state with
      fs := fs, handles := (object.map make).toList ++ state.handles } =
      state.held + .ofOption holdings object := by
    rw [held, held, heldBy_append, heldBy_toList same, add_comm (Holdings.ofOption holdings object),
      add_right_comm]
  rw [account]
  exact holdsAfter

lemma held_lost (fs : Fs) (lost : List Handle) :
  held { state with fs := fs, others := lost ++ state.others } = state.held + heldBy lost := by
  rw [held, held, heldBy_append, add_assoc, add_comm (heldBy lost)]

variable (holds : state.fs.Holds state.held)

include holds

lemma holds_dirCreate (refuses : state.Refuses fuel (.dirCreate sector entryCnt))
  (stepped : state.step fuel (.dirCreate sector entryCnt) = .ok ((), after)) :
  after.fs.Holds after.held := by
  rcases map_onKernel_eq_ok stepped with ⟨success, fs, created, rfl⟩
  rcases dirCreate_splits created with
    ⟨firstDir, first, dotAdded, second, dotDotAdded, makes, addsDot, addsDotDot⟩
  have holdsFirst := dirCreateFirst_holds holds makes
  have holdsSecond := dirAdd_holds holdsFirst (refuses _ _ _ (.dot makes)) addsDot
  have lost : heldBy (lostByDirCreate fuel sector entryCnt state.fs) =
      .ofOption Dir.holdings (some firstDir) := by
    rw [lostByDirCreate, makes]
    exact heldBy_toList (fun _ => rfl) (some firstDir)
  rw [held_lost, lost]
  exact dirAdd_holds holdsSecond (refuses _ _ _ (.dotDot makes addsDot)) addsDotDot

lemma holds_create {currentDir : Option ℕ}
  (refuses : state.Refuses fuel (.filesysCreate currentDir name initialSize))
  (stepped : state.step fuel (.filesysCreate currentDir name initialSize) = .ok ((), after)) :
  after.fs.Holds after.held := by
  rcases Performs.bind_eq_ok stepped with ⟨cur, isCur, creating⟩
  rcases map_onKernel_eq_ok creating with ⟨success, fs, created, rfl⟩
  rcases filesysCreate_eq_ok created with
    ⟨dir, entry, first, ready, mid, last, enters, makes, adding, isAfter⟩
  have inodes : fs.inodes = last.inodes := by
    rw [isAfter]
    split <;> rfl
  have nextInode : fs.nextInode = last.nextInode := by
    rw [isAfter]
    split <;> rfl
  have holdsFirst := filesysCreateEntry_holds holds enters
  have holdsMid := filesysCreateInode_holds holdsFirst makes
  have lost : heldBy (lostByCreate fuel cur name state.fs) =
      .ofOption Dir.holdings (if state.fs.i ≤ 1 then dir else none) := by
    rw [lostByCreate]
    split
    · rw [enters]
      exact heldBy_toList (fun _ => rfl) dir
    · rfl
  rw [held_lost, lost]
  rcases adding with ⟨rfl, _, rfl⟩ | ⟨⟨target, sector⟩, rfl, adds⟩
  · exact holdsMid.of_inodes inodes nextInode
  · have holdsLast := dirAdd_holds holdsMid (refuses _ _ _ (.create isCur enters makes)) adds
    exact holdsLast.of_inodes inodes nextInode

lemma holds_closing (isHandle : state.handles[place]? = some handle) : state.fs.Holds
    (held { state with handles := state.handles.eraseIdx place } + handle.holdings) := by
  have account : state.held =
      held { state with handles := state.handles.eraseIdx place } + handle.holdings := by
    rw [held, held, heldBy_eraseIdx isHandle, add_right_comm]
  rw [← account]
  exact holds

lemma step_holds (refuses : state.Refuses fuel call)
  (stepped : state.step fuel call = .ok ((), after)) : after.fs.Holds after.held := by
  cases call with
  | filesysCreate currentDir name initialSize => exact holds_create holds refuses stepped
  | filesysOpen name =>
    rcases map_onKernel_eq_ok stepped with ⟨file, fs, opened, rfl⟩
    exact holds_opened (fun _ => rfl) (filesysOpen_holds holds opened)
  | fileClose place =>
    rcases Performs.bind_eq_ok stepped with ⟨file, isFile, closing⟩
    rcases map_onKernel_eq_ok closing with ⟨_, fs, closed, rfl⟩
    exact fileClose_holds (holds_closing holds (fileAt_eq_ok isFile)) closed
  | dirOpenRoot =>
    rcases map_onKernel_eq_ok stepped with ⟨dir, fs, opened, rfl⟩
    exact holds_opened (fun _ => rfl) (dirOpenRoot_holds holds opened)
  | dirLookup place name =>
    rcases Performs.bind_eq_ok stepped with ⟨dir, isDir, looking⟩
    rcases map_onKernel_eq_ok looking with ⟨ino, fs, opened, rfl⟩
    exact holds_opened (fun _ => rfl) (dirLookup_holds holds opened)
  | dirAdd place name sector =>
    rcases Performs.bind_eq_ok stepped with ⟨dir, isDir, adding⟩
    rcases map_onKernel_eq_ok adding with ⟨success, fs, added, rfl⟩
    exact dirAdd_holds holds (refuses _ _ _ (.add isDir)) added
  | dirRemove place name =>
    rcases Performs.bind_eq_ok stepped with ⟨dir, isDir, removing⟩
    rcases map_onKernel_eq_ok removing with ⟨success, fs, removed, rfl⟩
    exact dirRemove_holds holds removed
  | dirCreate sector entryCnt => exact holds_dirCreate holds refuses stepped
  | dirClose place =>
    rcases Performs.bind_eq_ok stepped with ⟨dir, isDir, closing⟩
    rcases map_onKernel_eq_ok closing with ⟨_, fs, closed, rfl⟩
    exact inodeClose_holds (holds_closing holds (dirAt_eq_ok isDir)) closed

end Steps

lemma kept_of_map {res : Value × Fs → References} (keeps : Preserves Fs.KeepsListed action)
  (isFs : ∀ out, (res out).fs = out.2)
  (returned : (onKernel action state.fs).map (fun out => ((), res out)) =
    .ok ((), after)) : state.fs.KeepsListed after.fs := by
  rcases map_onKernel_eq_ok returned with ⟨val, fs, acted, rfl⟩
  rw [isFs]
  exact keeps acted

lemma step_keepsListed (stepped : state.step fuel call = .ok ((), after)) :
  state.fs.KeepsListed after.fs := by
  cases call with
  | filesysCreate currentDir name initialSize =>
    rcases Performs.bind_eq_ok stepped with ⟨cur, isCur, creating⟩
    exact kept_of_map (filesysCreate_keepsListed _ _ _ _) (fun _ => rfl) creating
  | filesysOpen name =>
    exact kept_of_map (filesysOpen_preserves malloc_keepsListed inodeOpen_keepsListed
      inodeClose_keepsListed _ _) (fun _ => rfl) stepped
  | fileClose place =>
    rcases Performs.bind_eq_ok stepped with ⟨file, isFile, closing⟩
    exact kept_of_map (fileClose_keepsListed _ _) (fun _ => rfl) closing
  | dirOpenRoot => exact kept_of_map (dirOpenRoot_keepsListed _) (fun _ => rfl) stepped
  | dirLookup place name =>
    rcases Performs.bind_eq_ok stepped with ⟨dir, isDir, looking⟩
    exact kept_of_map (dirLookup_preserves malloc_keepsListed inodeOpen_keepsListed _ _ _)
      (fun _ => rfl) looking
  | dirAdd place name sector =>
    rcases Performs.bind_eq_ok stepped with ⟨dir, isDir, adding⟩
    exact kept_of_map (dirAdd_keepsListed _ _ _ _) (fun _ => rfl) adding
  | dirRemove place name =>
    rcases Performs.bind_eq_ok stepped with ⟨dir, isDir, removing⟩
    exact kept_of_map (dirRemove_keepsListed _ _ _) (fun _ => rfl) removing
  | dirCreate sector entryCnt =>
    exact kept_of_map (dirCreate_keepsListed _ _ _) (fun _ => rfl) stepped
  | dirClose place =>
    rcases Performs.bind_eq_ok stepped with ⟨dir, isDir, closing⟩
    exact kept_of_map (inodeClose_keepsListed _ _) (fun _ => rfl) closing

lemma Balanced.of_refuses (balanced : state.Balanced) (refuses : state.Refuses fuel call)
  (stepped : state.step fuel call = .ok ((), after)) : after.Balanced :=
  ⟨step_holds balanced.holds refuses stepped, step_keepsListed stepped balanced.listed⟩

/-- The counts are right in every state of a run. -/
def AlwaysCounted (fuel : ℕ) (start : References) (calls : List RefCall) : Prop :=
  ∀ earlier, earlier <+: calls → ∀ units middle,
    Performs.runAll (step fuel) earlier start = .ok (units, middle) → middle.Counted

section Booting

lemma filesysInit_balanced {mem : ℕ → Word} {booted : Fs}
  (noInodes : ∀ address, fs.inodes address = none)
  (returned : filesysInit fuel mem false fs = .ok ((), booted)) :
  Balanced ⟨booted, [], (booted.freeMapFile.map Handle.file).toList⟩ := by
  rw [filesysInit, inodeInit, updates_bind_apply] at returned
  rcases bind_eq_ok returned with ⟨_, mapped, allocates, opening⟩
  have nothing : mapped.Holds 0 ∧ mapped.Listed := by
    rcases bind_eq_ok allocates with ⟨first, _, asksFirst, askingSecond⟩
    rcases bind_eq_ok askingSecond with ⟨second, _, asksSecond, creating⟩
    cases asksFirst
    cases asksSecond
    split at creating
    · cases creating
      refine ⟨⟨fun address _ => noInodes address, ?_, ?_⟩,
        ⟨fun address _ => noInodes address, List.nodup_nil, by simp⟩⟩
      · intro address
        simp [Fs.openAt, noInodes]
      intro address
      simp [Fs.denyAt, noInodes]
    · cases creating
  rcases bind_eq_ok opening with ⟨_, opened, opens, done⟩
  cases done
  rcases bind_eq_ok opens with ⟨ino, first, opensIno, openingFile⟩
  rcases bind_eq_ok openingFile with ⟨file, second, opensFile, reading⟩
  have holdsSecond := fileOpen_holds (inodeOpen_holds nothing.1 opensIno) opensFile
  have listedSecond := fileOpen_preserves malloc_keepsListed inodeClose_keepsListed _ _ opensFile
    (inodeOpen_keepsListed _ opensIno nothing.2)
  rw [updates_bind_apply] at reading
  cases file with
  | none => cases reading
  | some file =>
    simp only [reads_bind_apply] at reading
    rcases bind_eq_ok reading with ⟨⟨success, freeMap⟩, third, reads, finishing⟩
    have same := bitmapRead_onlyData _ _ reads
    split at finishing
    · cases finishing
      have isFile : third.freeMapFile = some file := same.freeMapFile_eq
      constructor
      · have holdsFile : Fs.Holds { second with freeMapFile := some file }
            (0 + .ofOption File.holdings (some file)) := holdsSecond.of_inodes rfl rfl
        have holdsThird := holdsFile.of_onlyData same
        simp only [isFile]
        exact holdsThird.of_inodes rfl rfl
      have listed := same.keepsListed ⟨listedSecond.unused, listedSecond.nodup,
        listedSecond.isOpen⟩
      exact ⟨listed.unused, listed.nodup, listed.isOpen⟩
    · cases finishing

lemma booted_of_check {check : Fs → Bool}
  (checked : ((filesysInit 30 (fun _ => 0) true (blankFs 16)).toOption.any fun formatted =>
    (filesysInit 30 (fun _ => 0) false
      { blankFs 16 with device := formatted.2.device }).toOption.any fun booted =>
        check booted.2) = true) :
  ∃ booted, Balanced ⟨booted, [], (booted.freeMapFile.map Handle.file).toList⟩ ∧
    check booted = true := by
  rcases exists_ok_of_any checked with ⟨formatted, _, checked⟩
  rcases exists_ok_of_any checked with ⟨⟨_, booted⟩, boots, checked⟩
  exact ⟨booted, filesysInit_balanced (fun _ => rfl) boots, checked⟩

end Booting

end References

end Pintos
