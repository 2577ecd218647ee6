import Pintos.Filesys.Counts
import Pintos.Userprog.Files

/-!
# What a process holds

A process holds its open files and its executable. A machine is accounted for
when the counts of its inodes are the sum of what the process holds and of what
everybody else holds. The calls that leave nothing open keep this account.
-/

namespace Pintos.Files

open Pintos.Computation Function

variable {file : File} {fd : ℤ} {slot : Fin 130} {fuel : ℕ} {val : Unit} {thr : ThreadFiles}
  {fs : Fs} {pre after mach : Machine} {others : Holdings ℕ} {Value : Type} {action : Kernel Value}

section Inversion

lemma onFs_eq_ok {val : Value} (ran : onFs action mach = .ok (val, after)) :
  ∃ fs, action mach.fs = .ok (val, fs) ∧ after = { mach with fs := fs } := by
  unfold onFs at ran
  cases out : action mach.fs with
  | ok res =>
    rw [out] at ran
    cases ran
    exact ⟨res.2, rfl, rfl⟩
  | error reason =>
    rw [out] at ran
    cases ran

lemma asserting_eq_ok {val : Value} (ran : asserting action mach = .ok (val, after)) :
  ∃ fs, action mach.fs = .ok (val, fs) ∧ after = { mach with fs := fs } := by
  unfold asserting at ran
  cases out : action mach.fs with
  | ok res =>
    rw [out] at ran
    cases ran
    exact ⟨res.2, rfl, rfl⟩
  | error reason =>
    rw [out] at ran
    cases reason <;> cases ran

lemma closeFile_eq_ok (ran : closeFile fuel file mach = .ok (val, after)) :
  ∃ fs, fileClose fuel (some file) mach.fs = .ok ((), fs) ∧ after = { mach with fs := fs } := by
  rcases bind_eq_ok ran with ⟨allowed, mid, allows, closes⟩
  rcases asserting_eq_ok allows with ⟨fsAllowed, allowsFile, rfl⟩
  rcases onFs_eq_ok closes with ⟨fs, closesFile, rfl⟩
  exact ⟨fs, (bind_of_ok allowsFile).trans closesFile, rfl⟩

lemma slotOf_eq_ok (ran : slotOf fd mach = .ok (slot, after)) :
  (slot.val : ℤ) = fd ∧ after = mach := by
  unfold slotOf at ran
  split at ran
  · next inside =>
      cases ran
      exact ⟨Int.toNat_of_nonneg inside.1, rfl⟩
  · simp at ran

lemma getFile_eq_ok {file : Option File} (ran : getFile fd mach = .ok (file, after)) :
  ∃ slot : Fin 130, (slot.val : ℤ) = fd ∧ mach.thread.filePointers slot = file ∧
    after = mach := by
  rcases bind_eq_ok ran with ⟨slot, same, isSlot, read⟩
  rcases slotOf_eq_ok isSlot with ⟨isFd, rfl⟩
  cases read
  exact ⟨slot, isFd, rfl, rfl⟩

lemma derefFile_eq_ok (ran : derefFile fd mach = .ok (file, after)) :
  ∃ slot : Fin 130, (slot.val : ℤ) = fd ∧ mach.thread.filePointers slot = some file ∧
    after = mach := by
  rcases bind_eq_ok ran with ⟨ptr, same, got, rest⟩
  rcases getFile_eq_ok got with ⟨slot, isFd, isPtr, rfl⟩
  cases ptr with
  | none => simp at rest
  | some pointed =>
    cases rest
    exact ⟨slot, isFd, isPtr, rfl⟩

def ThreadFiles.put (thread : ThreadFiles) (slot : Fin 130) (file : Option File) : ThreadFiles :=
  { thread with filePointers := update thread.filePointers slot file }

lemma setFile_eq_ok {fd : ℤ} {file : Option File} {val : Unit}
  (ran : setFile fd file mach = .ok (val, after)) : ∃ slot : Fin 130, (slot.val : ℤ) = fd ∧
    after = { mach with thread := mach.thread.put slot file } := by
  rcases bind_eq_ok ran with ⟨slot, same, isSlot, stored⟩
  rcases slotOf_eq_ok isSlot with ⟨isFd, rfl⟩
  cases stored
  exact ⟨slot, isFd, rfl⟩

end Inversion

structure ThreadFiles.Tidy (thread : ThreadFiles) : Prop where
  checked : ∀ slot : Fin 130, thread.filePointers slot ≠ none →
    2 ≤ slot.val ∧ slot.val < thread.fdIndex
  two_le : 2 ≤ thread.fdIndex
  allowsWrites : ∀ slot file, thread.filePointers slot = some file → file.denyWrite = false

lemma ThreadFiles.Tidy.put {file : Option File} (tidy : thr.Tidy)
  (checked : file ≠ none → 2 ≤ slot.val ∧ slot.val < thr.fdIndex)
  (allowsWrites : ∀ opened, file = some opened → opened.denyWrite = false) :
  (thr.put slot file).Tidy where
  checked other isFile := by
    by_cases same : other = slot
    · subst same
      exact checked (by simpa [ThreadFiles.put] using isFile)
    refine tidy.checked other ?_
    simpa [ThreadFiles.put, update_of_ne same] using isFile
  two_le := tidy.two_le
  allowsWrites other opened isFile := by
    by_cases same : other = slot
    · subst same
      exact allowsWrites opened (by simpa [ThreadFiles.put] using isFile)
    refine tidy.allowsWrites other opened ?_
    simpa [ThreadFiles.put, update_of_ne same] using isFile

lemma ThreadFiles.Tidy.elsewhere (tidy : thr.Tidy) (save : Option File)
  (currentDir : Option Dir) :
  ({ thr with save := save, currentDir := currentDir } : ThreadFiles).Tidy :=
  ⟨tidy.checked, tidy.two_le, tidy.allowsWrites⟩

lemma newThread_tidy : newThread.Tidy where
  checked slot isFile := absurd rfl isFile
  two_le := le_rfl
  allowsWrites slot file isFile := by cases isFile

lemma ThreadFiles.Tidy.opened (tidy : thr.Tidy) (isIdx : slot.val = thr.fdIndex)
  (allows : file.denyWrite = false) :
  ({ thr.put slot (some file) with fdIndex := thr.fdIndex + 1 } : ThreadFiles).Tidy := by
  have raised : ({ thr with fdIndex := thr.fdIndex + 1 } : ThreadFiles).Tidy :=
    ⟨fun other isFile => ⟨(tidy.checked other isFile).1,
      Nat.lt_succ_of_lt (tidy.checked other isFile).2⟩, Nat.le_succ_of_le tidy.two_le,
      tidy.allowsWrites⟩
  refine raised.put (fun _ => ?_) ?_
  · have := tidy.two_le
    simp only [isIdx]
    omega
  rintro _ ⟨⟩
  exact allows

def ThreadFiles.descriptors (thread : ThreadFiles) : Holdings ℕ :=
  .ofTable File.holdings thread.filePointers

/-- The counts of the inodes account for what others hold, for the descriptors of the thread and
for its executable. The current directory has the flag `empty` as `calloc` left it. -/
structure Accounted (others : Holdings ℕ) (save : Option File) (machine : Machine) : Prop where
  holds : machine.fs.Holds
    (others + machine.thread.descriptors + .ofOption File.holdings save)
  tidy : machine.thread.Tidy
  notEmpty : ∀ dir, machine.thread.currentDir = some dir → dir.empty = false

namespace Accounted

variable {save : Option File}

lemma of_onlyData {fs : Fs} (accounted : Accounted others save mach)
  (onlyData : mach.fs.OnlyData fs) : Accounted others save { mach with fs := fs } :=
  ⟨accounted.holds.of_onlyData onlyData, accounted.tidy, accounted.notEmpty⟩

lemma set_apart (accounted : Accounted others save mach) (slot : Fin 130) :
  mach.fs.Holds (others + (mach.thread.put slot none).descriptors +
    .ofOption File.holdings save +
    .ofOption File.holdings (mach.thread.filePointers slot)) := by
  have holds := accounted.holds
  rw [ThreadFiles.descriptors, Holdings.ofTable_eq_clear_add _ _ slot, ← add_assoc,
    add_right_comm] at holds
  exact holds

end Accounted

lemma holds_put {save file : Option File}
  (holds : fs.Holds (others + (thr.put slot none).descriptors +
    .ofOption File.holdings save + .ofOption File.holdings file)) :
  fs.Holds (others + (thr.put slot file).descriptors + .ofOption File.holdings save) := by
  rw [add_right_comm] at holds
  change fs.Holds (others + Holdings.ofTable File.holdings
    (update thr.filePointers slot file) + _)
  rw [Holdings.ofTable_update, ← add_assoc]
  exact holds

def unmoved (file : File) : File := { file with pos := 0 }

structure Moves (before after : Machine) : Prop where
  onlyData : before.fs.OnlyData after.fs
  unmoved_eq : ∀ slot, (after.thread.filePointers slot).map unmoved =
    (before.thread.filePointers slot).map unmoved
  fdIndex_eq : after.thread.fdIndex = before.thread.fdIndex
  save_eq : after.thread.save = before.thread.save
  currentDir_eq : after.thread.currentDir = before.thread.currentDir

instance : IsPreorder Machine Moves where
  refl _ := ⟨Std.Refl.refl _, fun _ => rfl, rfl, rfl, rfl⟩
  trans _ _ _ first second :=
    { onlyData := IsTrans.trans _ _ _ first.onlyData second.onlyData
      unmoved_eq := fun slot => (second.unmoved_eq slot).trans (first.unmoved_eq slot)
      fdIndex_eq := second.fdIndex_eq.trans first.fdIndex_eq
      save_eq := second.save_eq.trans first.save_eq
      currentDir_eq := second.currentDir_eq.trans first.currentDir_eq }

section Moving

lemma onFs_moves (onlyData : Preserves Fs.OnlyData action) : Preserves Moves (onFs action) := by
  intro pre val after ran
  rcases onFs_eq_ok ran with ⟨fs, acted, rfl⟩
  exact ⟨onlyData acted, fun _ => rfl, rfl, rfl, rfl⟩

lemma asserting_moves (onlyData : Preserves Fs.OnlyData action) :
  Preserves Moves (asserting action) := by
  intro pre val after ran
  rcases asserting_eq_ok ran with ⟨fs, acted, rfl⟩
  exact ⟨onlyData acted, fun _ => rfl, rfl, rfl, rfl⟩

lemma getFile_moves (fd : ℤ) : Preserves Moves (getFile fd) := by
  intro pre val after ran
  rcases getFile_eq_ok ran with ⟨_, _, _, rfl⟩
  exact Std.Refl.refl _

lemma derefFile_moves (fd : ℤ) : Preserves Moves (derefFile fd) := by
  intro pre val after ran
  rcases derefFile_eq_ok ran with ⟨_, _, _, rfl⟩
  exact Std.Refl.refl _

variable {moved : File}

lemma setFile_moves {res : Unit} (isFd : (slot.val : ℤ) = fd)
  (isFile : mach.thread.filePointers slot = some file) (onlyData : mach.fs.OnlyData fs)
  (same : unmoved moved = unmoved file)
  (stored : setFile fd (some moved) { mach with fs := fs } = .ok (res, after)) :
  Moves mach after := by
  rcases setFile_eq_ok stored with ⟨other, isOther, rfl⟩
  have sameSlot : other = slot := Fin.ext (by omega)
  subst sameSlot
  refine ⟨onlyData, ?_, rfl, rfl, rfl⟩
  intro checked
  by_cases isSlot : checked = other
  · subst isSlot
    simp [ThreadFiles.put, isFile, same]
  · simp [ThreadFiles.put, update_of_ne isSlot]

lemma fileRead_unmoved {buf filled : ℕ → Byte} {size bytesRead : ℤ} {pre after : Fs}
  (ran : fileRead file buf size pre = .ok ((moved, bytesRead, filled), after)) :
  unmoved moved = unmoved file := by
  rcases bind_eq_ok ran with ⟨_, _, _, rest⟩
  cases rest
  rfl

lemma fileWrite_unmoved {buf : ℕ → Byte} {size bytesWritten : ℤ} {pre after : Fs}
  (ran : fileWrite fuel file buf size pre = .ok ((moved, bytesWritten), after)) :
  unmoved moved = unmoved file := by
  rcases bind_eq_ok ran with ⟨_, _, _, rest⟩
  cases rest
  rfl

lemma fileLength_onlyData (file : Option File) : Preserves Fs.OnlyData (fileLength file) := by
  cases file with
  | none => exact .stop _
  | some file => exact .bind (derefInode_preserves _) fun _ => .pure _

lemma fileSeek_onlyData (file : Option File) (posn : ℤ) :
  Preserves Fs.OnlyData (fileSeek file posn) := by
  cases file with
  | none => exact .stop _
  | some file => exact .ite (.pure _) (.stop _)

lemma fileTell_onlyData (file : Option File) : Preserves Fs.OnlyData (fileTell file) := by
  cases file with
  | none => exact .stop _
  | some file => exact .pure _

lemma filesize_moves (fd : ℤ) : Preserves Moves (filesize fd) :=
  .bind (.reads _) fun _ => .ite
    (.bind (derefFile_moves fd) fun file => asserting_moves (fileLength_onlyData (some file)))
    (.pure _)

lemma tell_moves (fd : ℤ) : Preserves Moves (tell fd) :=
  .bind (.reads _) fun _ => .ite (.bind (derefFile_moves fd) fun file =>
      .bind (asserting_moves (fileTell_onlyData (some file))) fun _ => .pure _)
    (.pure _)

lemma read_moves (fd : ℤ) (buf : Bool) (size : ℤ) : Preserves Moves (read fd buf size) := by
  refine .bind (.reads _) fun _ => .ite (.pure _) (.ite ?_ (.pure _))
  intro pre val after ran
  rcases bind_eq_ok ran with ⟨file, same, deref, afterDeref⟩
  rcases derefFile_eq_ok deref with ⟨slot, isFd, isFile, rfl⟩
  rcases bind_eq_ok afterDeref with ⟨res, mid, acted, afterRead⟩
  rcases bind_eq_ok afterRead with ⟨_, last, stored, isVal⟩
  cases isVal
  rcases onFs_eq_ok acted with ⟨fs, reads, rfl⟩
  exact setFile_moves isFd isFile (fileRead_onlyData _ _ _ reads) (fileRead_unmoved reads) stored

lemma write_moves (fuel : ℕ) (fd : ℤ) (buf : Option (ℕ → Byte)) (size : ℤ) (isDir : Bool) :
  Preserves Moves (write fuel fd buf size isDir) := by
  refine .bind (.reads _) fun _ => ?_
  cases buf with
  | none => exact .pure _
  | some bytes =>
    refine .ite (.ite (.pure _) ?_) (.pure _)
    intro pre val after ran
    rcases bind_eq_ok ran with ⟨file, same, deref, afterDeref⟩
    rcases derefFile_eq_ok deref with ⟨slot, isFd, isFile, rfl⟩
    rcases bind_eq_ok afterDeref with ⟨ino, looked, looks, afterLook⟩
    rcases onFs_eq_ok looks with ⟨fs, derefs, rfl⟩
    rcases derefInode_eq_ok derefs with ⟨_, rfl⟩
    split at afterLook
    · cases afterLook
      exact Std.Refl.refl _
    rcases bind_eq_ok afterLook with ⟨res, mid, acted, afterWrite⟩
    rcases bind_eq_ok afterWrite with ⟨_, last, stored, isVal⟩
    cases isVal
    rcases onFs_eq_ok acted with ⟨written, writes, rfl⟩
    exact setFile_moves isFd isFile (fileWrite_onlyData _ _ _ _ writes)
      (fileWrite_unmoved writes) stored

lemma seek_moves (fd posn : ℤ) : Preserves Moves (seek fd posn) := by
  refine .bind (.reads _) fun _ => .ite ?_ (.pure _)
  intro pre val after ran
  rcases bind_eq_ok ran with ⟨file, same, deref, afterDeref⟩
  rcases derefFile_eq_ok deref with ⟨slot, isFd, isFile, rfl⟩
  rcases bind_eq_ok afterDeref with ⟨moved, mid, acted, afterSeek⟩
  rcases bind_eq_ok afterSeek with ⟨_, last, stored, isVal⟩
  cases isVal
  rcases asserting_eq_ok acted with ⟨fs, seeks, rfl⟩
  refine setFile_moves isFd isFile (fileSeek_onlyData _ _ seeks) ?_ stored
  simp only [fileSeek] at seeks
  split at seeks
  · cases seeks
    rfl
  · simp at seeks

lemma readdir_moves (fuel : ℕ) (fd : ℤ) : Preserves Moves (readdir fuel fd) := by
  refine .bind ?_ fun _ => .pure _
  refine .bind (getFile_moves fd) fun file => .bind (onFs_moves malloc_onlyData) fun newDir => ?_
  cases file with
  | none => exact .stop _
  | some file =>
    refine .ite (.bind (onFs_moves ?_) fun _ => .pure _) (.stop _)
    exact .bind (dirReaddirLoop_onlyData _ _ _) fun _ => .pure _

lemma isdir_moves (fd : ℤ) (isDir : Bool) : Preserves Moves (isdir fd isDir) :=
  .bind (derefFile_moves fd) fun _ => .bind (onFs_moves (derefInode_preserves _)) fun _ => .pure _

lemma inumber_moves (fd : ℤ) (word : Option ℤ) : Preserves Moves (inumber fd word) := by
  refine .bind (derefFile_moves fd) fun _ => ?_
  cases word with
  | none => exact .stop _
  | some num => exact .pure _

end Moving

structure Keeps (others : Holdings ℕ) (before after : Machine) : Prop where
  save_eq : after.thread.save = before.thread.save
  accounted : ∀ save, Accounted others save before → Accounted others save after

section Calls

instance : IsPreorder Machine (Keeps others) where
  refl _ := ⟨rfl, fun _ => id⟩
  trans _ _ _ first second :=
    ⟨second.save_eq.trans first.save_eq, fun save => second.accounted save ∘ first.accounted save⟩

lemma Moves.tidy (moves : Moves pre after) (tidy : pre.thread.Tidy) :
  after.thread.Tidy where
  checked slot isFile := by
    rw [moves.fdIndex_eq]
    refine tidy.checked slot fun wasNull => isFile ?_
    simpa [wasNull] using moves.unmoved_eq slot
  two_le := by
    rw [moves.fdIndex_eq]
    exact tidy.two_le
  allowsWrites slot file isFile := by
    have same := moves.unmoved_eq slot
    rw [isFile, eq_comm] at same
    rcases Option.map_eq_some_iff.mp same with ⟨former, wasFile, sameUnmoved⟩
    rw [← tidy.allowsWrites slot former wasFile]
    exact (congrArg File.denyWrite sameUnmoved).symm

lemma Moves.descriptors_eq (moves : Moves pre after) :
  after.thread.descriptors = pre.thread.descriptors := by
  refine Holdings.ofTable_congr _ fun slot => ?_
  have same := congrArg (Holdings.ofOption File.holdings) (moves.unmoved_eq slot)
  cases isBefore : pre.thread.filePointers slot <;>
    cases isAfter : after.thread.filePointers slot <;> rw [isBefore, isAfter] at same <;>
    exact same

lemma Moves.keeps (moves : Moves pre after) : Keeps others pre after := by
  refine ⟨moves.save_eq, fun save accounted => ⟨?_, moves.tidy accounted.tidy, ?_⟩⟩
  · rw [moves.descriptors_eq]
    exact accounted.holds.of_onlyData moves.onlyData
  rw [moves.currentDir_eq]
  exact accounted.notEmpty

lemma close_eq_ok (ran : close fuel fd mach = .ok (val, after)) :
  (after = mach ∧ ∀ slot : Fin 130, (slot.val : ℤ) = fd → mach.thread.Checked fd →
    mach.thread.filePointers slot = none) ∨
  ∃ (slot : Fin 130) (file : File) (fs : Fs), (slot.val : ℤ) = fd ∧
    mach.thread.filePointers slot = some file ∧
    fileClose fuel (some file) mach.fs = .ok ((), fs) ∧
    after = { fs := fs, thread := mach.thread.put slot none } := by
  unfold close at ran
  rw [reads_bind_apply] at ran
  split at ran
  · rcases bind_eq_ok ran with ⟨ptr, same, got, afterGet⟩
    rcases getFile_eq_ok got with ⟨slot, isFd, isPtr, rfl⟩
    cases ptr with
    | none =>
      cases afterGet
      refine Or.inl ⟨rfl, ?_⟩
      intro other isOther _
      have sameSlot : other = slot := Fin.ext (by omega)
      rw [sameSlot, isPtr]
    | some file =>
      rcases bind_eq_ok afterGet with ⟨_, mid, acted, stored⟩
      rcases closeFile_eq_ok acted with ⟨fs, closes, rfl⟩
      rcases setFile_eq_ok stored with ⟨other, isOther, rfl⟩
      have sameSlot : other = slot := Fin.ext (by omega)
      subst sameSlot
      exact Or.inr ⟨other, file, fs, isFd, isPtr, closes, rfl⟩
  next unchecked =>
    cases ran
    exact Or.inl ⟨rfl, fun _ _ isChecked => absurd isChecked unchecked⟩

lemma close_keeps (fuel : ℕ) (fd : ℤ) : Preserves (Keeps others) (close fuel fd) := by
  intro pre val after ran
  rcases close_eq_ok ran with ⟨rfl, _⟩ | ⟨slot, file, fs, _, isFile, closes, rfl⟩
  · exact Std.Refl.refl _
  refine ⟨rfl, fun save accounted =>
    ⟨holds_put ?_, accounted.tidy.put (by simp) (by simp), accounted.notEmpty⟩⟩
  have holds := accounted.set_apart slot
  rw [isFile] at holds
  simpa [Holdings.ofOption] using fileClose_holds holds closes

lemma openFile_keeps (fuel : ℕ) (name : List Byte) :
  Preserves (Keeps others) (openFile fuel name) := by
  intro pre val after ran
  rcases bind_eq_ok ran with ⟨file, opened, opens, afterOpen⟩
  rcases onFs_eq_ok opens with ⟨fs, opensFile, rfl⟩
  rcases bind_eq_ok afterOpen with ⟨idx, same, readIdx, afterIdx⟩
  rcases bind_eq_ok afterIdx with ⟨_, mid, stored, rest⟩
  cases readIdx
  rcases setFile_eq_ok stored with ⟨slot, isIdx, rfl⟩
  have free : ∀ save, Accounted others save pre → pre.thread.filePointers slot = none := by
    intro save accounted
    by_contra isFile
    have := accounted.tidy.checked slot isFile
    simp only [Nat.cast_inj] at isIdx
    omega
  have holdsFile : ∀ save, Accounted others save pre →
      fs.Holds (others + (pre.thread.put slot none).descriptors +
        .ofOption File.holdings save + .ofOption File.holdings file) := by
    intro save accounted
    have holds := accounted.set_apart slot
    rw [free save accounted, Holdings.ofOption] at holds
    exact filesysOpen_holds holds opensFile
  cases file with
  | none =>
    cases rest
    exact ⟨rfl, fun save accounted => ⟨holds_put (holdsFile save accounted),
      accounted.tidy.put (by simp) (by simp), accounted.notEmpty⟩⟩
  | some file =>
    cases rest
    exact ⟨rfl, fun save accounted => ⟨holds_put (holdsFile save accounted),
      accounted.tidy.opened (by simpa using isIdx) (filesysOpen_fresh opensFile).2,
      accounted.notEmpty⟩⟩

end Calls

end Pintos.Files
