import Pintos.Filesys.Names
import Pintos.Filesys.OwnershipSteps

/-!
# What opening a file by its name leaves alone

`filesys_open` asks for memory, opens inodes, reads directories and closes inodes, and
does nothing else to the state. What the first three leave alone is left alone by the
whole function.
-/

namespace Pintos

open Pintos.Computation Function

section Preserving

variable {rel : Fs → Fs → Prop} [IsPreorder Fs rel]
  (mallocKeeps : Preserves rel malloc)
  (openKeeps : ∀ sec, Preserves rel (inodeOpen sec))
  (closeKeeps : ∀ fuel addr, Preserves rel (inodeClose fuel addr))

include mallocKeeps

lemma lookupLoop_preserves (addr : ℕ) (name : List Byte) (fuel : ℕ) (ofs : ℤ) :
  Preserves rel (lookupLoop addr name fuel ofs) := by
  induction fuel generalizing ofs with
  | zero => exact .stop _
  | succ fuel ih =>
    refine .bind (inodeReadLoop_preserves mallocKeeps _ _ _ _ _ _ _) fun read => ?_
    exact .ite (.ite (.pure _) (ih _)) (.pure _)

lemma freeSlotLoop_preserves (addr fuel : ℕ) (ofs : ℤ) :
  Preserves rel (freeSlotLoop addr fuel ofs) := by
  induction fuel generalizing ofs with
  | zero => exact .stop _
  | succ fuel ih =>
    exact .bind (inodeReadLoop_preserves mallocKeeps _ _ _ _ _ _ _) fun read =>
      .ite (ih _) (.pure _)

include closeKeeps in
lemma dirOpen_preserves (fuel : ℕ) (ino : Option ℕ) :
  Preserves rel (dirOpen fuel ino) := by
  cases ino with
  | none => exact .bind mallocKeeps fun _ => .pure _
  | some addr =>
    exact .bind mallocKeeps fun _ =>
      .ite (.pure _) (.bind (closeKeeps fuel addr) fun _ => .pure _)

include closeKeeps in
lemma fileOpen_preserves (fuel : ℕ) (ino : Option ℕ) :
  Preserves rel (fileOpen fuel ino) := by
  cases ino with
  | none => exact .bind mallocKeeps fun _ => .pure _
  | some addr =>
    exact .bind mallocKeeps fun _ =>
      .ite (.pure _) (.bind (closeKeeps fuel addr) fun _ => .pure _)

include openKeeps

lemma dirLookup_preserves (fuel : ℕ) (dir : Dir) (name : List Byte) :
  Preserves rel (dirLookup fuel dir name) := by
  refine .bind (lookupLoop_preserves mallocKeeps _ _ _ _) fun found => ?_
  cases found with
  | none => exact .pure _
  | some entry => exact openKeeps _

lemma dirAdd_preserves (writeKeeps : ∀ fuel addr buf size offset,
    Preserves rel (inodeWriteAt fuel addr buf size offset)) (fuel : ℕ) (dir : Dir)
  (name : List Byte) (sec : Word) : Preserves rel (dirAdd fuel dir name sec) := by
  refine .ite (.pure _) (.bind (lookupLoop_preserves mallocKeeps _ _ _ _) fun found => ?_)
  cases found with
  | some _ => exact .pure _
  | none =>
    exact .bind (freeSlotLoop_preserves mallocKeeps _ _ _) fun slot =>
      .bind (writeKeeps _ _ _ _ _) fun _ =>
        .bind (dirLookup_preserves mallocKeeps openKeeps fuel dir name) fun _ =>
          .bind mallocKeeps fun _ => .ite (.pure _) (.stop _)

include closeKeeps

lemma dirOpenRoot_preserves (fuel : ℕ) : Preserves rel (dirOpenRoot fuel) :=
  .bind (openKeeps _) fun _ => dirOpen_preserves mallocKeeps closeKeeps fuel _

lemma filesysOpen_preserves (fuel : ℕ) (name : List Byte) :
  Preserves rel (filesysOpen fuel name) := by
  refine .bind (dirOpenRoot_preserves mallocKeeps openKeeps closeKeeps fuel) fun root => ?_
  cases root with
  | none => exact .ite (.stop _) (.stop _)
  | some dir =>
    exact .ite (fileOpen_preserves mallocKeeps closeKeeps fuel _)
      (.bind (dirLookup_preserves mallocKeeps openKeeps fuel dir _) fun _ =>
        .bind (closeKeeps fuel _) fun _ => fileOpen_preserves mallocKeeps closeKeeps fuel _)

end Preserving

namespace Fs

def KeepsHeap (fs after : Fs) : Prop := fs.HeapOk → after.HeapOk

instance : IsPreorder Fs KeepsHeap where
  refl _ heap := heap
  trans _ _ _ first second := second ∘ first

def NoneRemoved (fs : Fs) : Prop :=
  ∀ address inode, fs.inodes address = some inode → inode.removed = false

structure SameDevice (fs after : Fs) : Prop where
  device_eq : after.device = fs.device
  freeMap_eq : after.freeMap = fs.freeMap
  i_eq : after.i = fs.i

instance : IsPreorder Fs SameDevice where
  refl _ := ⟨rfl, rfl, rfl⟩
  trans _ _ _ first second :=
    ⟨second.device_eq.trans first.device_eq, second.freeMap_eq.trans first.freeMap_eq,
      second.i_eq.trans first.i_eq⟩

lemma SameDevice.trans {fs mid after : Fs} (first : fs.SameDevice mid)
  (second : mid.SameDevice after) : fs.SameDevice after :=
  IsTrans.trans _ _ _ first second

structure Steady (fs after : Fs) : Prop where
  i_eq : after.i = fs.i
  noneRemoved : fs.NoneRemoved → after.NoneRemoved

instance : IsPreorder Fs Steady where
  refl _ := ⟨rfl, id⟩
  trans _ _ _ first second := ⟨second.i_eq.trans first.i_eq, second.noneRemoved ∘ first.noneRemoved⟩

variable {fs after : Fs}

lemma OnlyData.steady (onlyData : fs.OnlyData after) : fs.Steady after where
  i_eq := onlyData.i_eq
  noneRemoved none := by
    unfold NoneRemoved
    rw [onlyData.inodes_eq]
    exact none

lemma steady_update {addr : ℕ} {entry : Option Inode} (i_eq : after.i = fs.i)
  (inodes : after.inodes = update fs.inodes addr entry)
  (kept : fs.NoneRemoved → ∀ ino, entry = some ino → ino.removed = false) :
  fs.Steady after where
  i_eq := i_eq
  noneRemoved none other ino isIno := by
    rw [inodes] at isIno
    by_cases same : other = addr
    · rw [same, update_self] at isIno
      exact kept none ino isIno
    rw [update_of_ne same] at isIno
    exact none other ino isIno

end Fs

section Heap

lemma keepsHeap_of_onlyData {Value : Type} {action : Kernel Value}
  (onlyData : Preserves Fs.OnlyData action) : Preserves Fs.KeepsHeap action :=
  fun _ _ _ ran => (onlyData ran).heapOk

lemma malloc_keepsHeap : Preserves Fs.KeepsHeap malloc := keepsHeap_of_onlyData malloc_onlyData

lemma inodeOpen_keepsHeap (sec : Word) : Preserves Fs.KeepsHeap (inodeOpen sec) := by
  refine .bind (.reads _) fun found => ?_
  cases found with
  | none =>
    refine .bind malloc_keepsHeap fun _ => .ite (.bind (blockRead_preserves _) fun _ =>
      .bind (.reads _) fun _ => .bind (.updates fun _ heap => heap) fun _ => .pure _) (.pure _)
  | some addr =>
    exact .bind (derefInode_preserves _) fun _ => .bind (.updates fun _ heap => heap) fun _ =>
      .pure _

lemma inodeClose_keepsHeap (fuel addr : ℕ) : Preserves Fs.KeepsHeap (inodeClose fuel addr) := by
  have releases : ∀ sec cnt, Preserves Fs.KeepsHeap (freeMapRelease fuel sec cnt) :=
    fun sec cnt => keepsHeap_of_onlyData (freeMapRelease_onlyData fuel sec cnt)
  refine .bind (derefInode_preserves _) fun ino => .bind (.updates fun _ heap => heap) fun _ =>
    .ite (.bind (.updates fun _ heap => heap) fun _ => ?_) (.pure _)
  exact .ite (.bind (releases _ _) fun _ => .bind (releases _ _) fun _ =>
    .updates fun _ heap => heap) (.updates fun _ heap => heap)

lemma filesysOpen_keepsHeap (fuel : ℕ) (name : List Byte) :
  Preserves Fs.KeepsHeap (filesysOpen fuel name) :=
  filesysOpen_preserves malloc_keepsHeap inodeOpen_keepsHeap inodeClose_keepsHeap fuel name

end Heap

section Opening

lemma malloc_sameDevice : Preserves Fs.SameDevice malloc := by
  intro fs val after ran
  cases ran
  exact ⟨rfl, rfl, rfl⟩

lemma inodeOpen_sameDevice (sec : Word) : Preserves Fs.SameDevice (inodeOpen sec) := by
  refine .bind (.reads _) fun found => ?_
  cases found with
  | none =>
    exact .bind malloc_sameDevice fun _ => .ite (.bind (blockRead_preserves _) fun _ =>
      .bind (.reads _) fun _ => .bind (.updates fun _ => ⟨rfl, rfl, rfl⟩) fun _ => .pure _)
        (.pure _)
  | some addr =>
    exact .bind (derefInode_preserves _) fun _ =>
      .bind (.updates fun _ => ⟨rfl, rfl, rfl⟩) fun _ => .pure _

end Opening

section Steady

variable {Value : Type} {action : Kernel Value}

lemma steady_of_onlyData (onlyData : Preserves Fs.OnlyData action) : Preserves Fs.Steady action :=
  fun _ _ _ ran => (onlyData ran).steady

lemma malloc_steady : Preserves Fs.Steady malloc := steady_of_onlyData malloc_onlyData

lemma inodeOpen_steady (sec : Word) : Preserves Fs.Steady (inodeOpen sec) := by
  refine .bind (.reads _) fun found => ?_
  cases found with
  | none =>
    refine .bind malloc_steady fun _ => .ite (.bind (blockRead_preserves _) fun data =>
      .bind (.reads _) fun _ => .bind (.updates fun fs => ?_) fun _ => .pure _) (.pure _)
    exact Fs.steady_update rfl rfl (by rintro _ _ ⟨⟩; rfl)
  | some addr =>
    intro fs val after ran
    rcases bind_eq_ok ran with ⟨ino, mid, deref, counting⟩
    rcases derefInode_eq_ok deref with ⟨isOpen, rfl⟩
    cases counting
    exact Fs.steady_update rfl rfl (by rintro none _ ⟨⟩; exact none addr ino isOpen)

lemma inodeClose_steady (fuel addr : ℕ) : Preserves Fs.Steady (inodeClose fuel addr) := by
  intro fs val after ran
  rcases inodeClose_eq_ok ran with ⟨ino, isOpen, others | last | releasing⟩
  · rcases others with ⟨_, rfl⟩
    exact Fs.steady_update rfl rfl (by rintro none _ ⟨⟩; exact none addr ino isOpen)
  · rcases last with ⟨_, _, rfl⟩
    exact Fs.steady_update rfl rfl (by rintro _ _ ⟨⟩)
  rcases releasing with ⟨_, removed, mid, final, releaseHdr, releaseData, rfl⟩
  have closing : fs.Steady (fs.closing addr ino) :=
    Fs.steady_update rfl rfl (by rintro none _ ⟨⟩; exact none addr ino isOpen)
  have hdr := (freeMapRelease_onlyData _ _ _ releaseHdr).steady
  have data := (freeMapRelease_onlyData _ _ _ releaseData).steady
  refine IsTrans.trans _ _ _ (IsTrans.trans _ _ _ (IsTrans.trans _ _ _ closing hdr) data) ?_
  exact Fs.steady_update rfl rfl (by rintro _ _ ⟨⟩)

lemma dirAdd_steady (fuel : ℕ) (dir : Dir) (name : List Byte) (sec : Word) :
  Preserves Fs.Steady (dirAdd fuel dir name sec) :=
  dirAdd_preserves malloc_steady inodeOpen_steady (fun fuel addr buf size offset =>
      steady_of_onlyData (inodeWriteAt_onlyData fuel addr buf size offset)) fuel dir name sec

end Steady

end Pintos
