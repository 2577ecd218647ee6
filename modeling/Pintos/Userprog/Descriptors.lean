import Pintos.Library.Reachability
import Pintos.Userprog.Handles

/-!
# Descriptors that bring the kernel down

A process makes any sequence of the calls that take or return a descriptor, and
between two of them the rest of the system may change the file system in any way.
The checks on a descriptor admit the closed ones and the one that comes next, and
`open` never looks whether `file_pointers` has room. The calls are safe as long as
a process opens at most 128 files, names only open descriptors among those that
pass the check, and seeks to positions that are not negative as an `off_t`.
-/

namespace Pintos.Files

open Pintos.Computation

def Call.OnDescriptors : Call → Prop
  | .openFile _ | .close _ | .read _ _ _ | .write _ _ _ _ | .seek _ _ | .tell _
  | .filesize _ => True
  | .create _ _ | .remove _ | .chdir _ | .mkdir _ _ | .readdir _ | .isdir _ _ | .inumber _ _ =>
    False

/-- An index outside `file_pointers` is used, a null file is used, or an assertion about an open
file fails. -/
def Halt.IsCrash (halt : Halt) : Prop := ∀ reason, halt ≠ .kernel reason

inductive Session
  | running (machine : Machine)
  | exited
  | crashed

inductive SessionStep : Session → Option Call → Session → Prop
  | returns {machine after : Machine} {fuel : ℕ} {call : Call} {value : ℤ}
      (onDescriptors : call.OnDescriptors)
      (performed : call.perform fuel machine = .ok (some value, after)) :
      SessionStep (.running machine) (some call) (.running after)
  | exits {machine after : Machine} {fuel : ℕ} {call : Call} (onDescriptors : call.OnDescriptors)
      (performed : call.perform fuel machine = .ok (none, after)) :
      SessionStep (.running machine) (some call) .exited
  | crashes {machine : Machine} {fuel : ℕ} {call : Call} {halt : Halt}
      (onDescriptors : call.OnDescriptors) (performed : call.perform fuel machine = .error halt)
      (isCrash : halt.IsCrash) : SessionStep (.running machine) (some call) .crashed
  | others {machine : Machine} (fs : Fs) (save : Option File) (currentDir : Option Dir) :
      SessionStep (.running machine) none
        (.running
          { fs := fs, thread := { machine.thread with save := save, currentDir := currentDir } })

def ThreadFiles.IsOpen (thread : ThreadFiles) (fd : ℤ) : Prop :=
  ∃ slot : Fin 130, (slot.val : ℤ) = fd ∧ thread.filePointers slot ≠ none

namespace Session

def Starts (session : Session) : Prop := ∃ fs, session = .running ⟨fs, newThread⟩

/-- The kernel is not down, and a descriptor that `open` returns is at least 2 and not one of
those that are open. -/
def Sound : Session → Prop
  | running machine => ∀ fuel name fd after, openFile fuel name machine = .ok (fd, after) →
      fd ≠ -1 → 2 ≤ fd ∧ ¬ machine.thread.IsOpen fd
  | exited => True
  | crashed => False

/-- The call stays within bounds: there is room for another file, and a descriptor that passes
the check of the call is open; `close` only needs it to be an index, and `seek` a position that is
not negative. -/
def CallWithinBounds (thread : ThreadFiles) : Call → Prop
  | .openFile _ => thread.fdIndex < 130
  | .close fd => thread.Checked fd → fd < 130
  | .read fd buffer _ => thread.Checked fd → buffer = true → thread.IsOpen fd
  | .write fd buffer _ _ => thread.Checked fd → buffer ≠ none → thread.IsOpen fd
  | .seek fd position => thread.Checked fd → thread.IsOpen fd ∧ 0 ≤ position
  | .tell fd | .filesize fd => thread.Checked fd → thread.IsOpen fd
  | .create _ _ | .remove _ | .chdir _ | .mkdir _ _ | .readdir _ | .isdir _ _ | .inumber _ _ => True

/-- The call keeps to the bounds of the table. -/
def WithinBounds : Session → Option Call → Prop
  | running machine, some call => CallWithinBounds machine.thread call
  | _, _ => True

def Reached (allowed : Session → Option Call → Prop) : Session → Prop :=
  Reachable Starts fun session after => ∃ call, SessionStep session call after ∧
    allowed session call

end Session

variable {file : File}

section Safety

variable {Value Result : Type} {mach : Machine} {fd : ℤ} {slot : Fin 130}

def Safe (outcome : Except Halt Value) : Prop :=
  ∀ halt, outcome = .error halt → ∃ reason, halt = .kernel reason

lemma Safe.ok (val : Value) : Safe (.ok val) := by
  intro halt isError
  cases isError

lemma safe_onFs (action : Kernel Value) : Safe (onFs action mach) := by
  intro halt isError
  unfold onFs at isError
  split at isError
  · cases isError
  cases isError
  exact ⟨_, rfl⟩

lemma safe_asserting {action : Kernel Value} (holds : action mach.fs ≠ .error .panic) :
  Safe (asserting action mach) := by
  intro halt isError
  unfold asserting at isError
  split at isError
  · cases isError
  · next panics => exact absurd panics holds
  cases isError
  exact ⟨_, rfl⟩

lemma Safe.bind {first : System Value} {next : Value → System Result}
  (firstSafe : Safe (first mach))
  (nextSafe : ∀ val mid, first mach = .ok (val, mid) → Safe (next val mid)) :
  Safe ((first >>= next) mach) := by
  cases out : first mach with
  | error halt =>
    rw [bind_of_error out]
    intro other isError
    cases isError
    exact firstSafe halt out
  | ok res =>
    rw [bind_of_ok out]
    exact nextSafe res.1 res.2 out

lemma Safe.returning {reg : Value → ℤ} {call : System Value} (safe : Safe (call mach)) :
  Safe (returning reg call mach) :=
  safe.bind fun _ _ _ => .ok _

lemma slotOf_of_slot (isFd : (slot.val : ℤ) = fd) : slotOf fd mach = .ok (slot, mach) := by
  have inside : 0 ≤ fd ∧ fd < 130 := by omega
  have same : (⟨fd.toNat, by omega⟩ : Fin 130) = slot := Fin.ext (by simp [← isFd])
  unfold slotOf
  rw [dif_pos inside, same]
  rfl

lemma derefFile_of_slot (isFd : (slot.val : ℤ) = fd)
  (isFile : mach.thread.filePointers slot = some file) :
  derefFile fd mach = .ok (file, mach) := by
  have got : getFile fd mach = .ok (some file, mach) := by
    unfold getFile
    rw [bind_of_ok (slotOf_of_slot isFd), reads_apply, isFile]
  unfold derefFile
  rw [bind_of_ok got]
  rfl

lemma setFile_of_slot {fd : ℤ} {slot : Fin 130} (file : Option File)
  (isFd : (slot.val : ℤ) = fd) :
  setFile fd file mach = .ok ((), { mach with thread := mach.thread.put slot file }) := by
  unfold setFile
  rw [bind_of_ok (slotOf_of_slot isFd)]
  rfl

end Safety

section Calls

variable {mach after : Machine} {fd : ℤ} {fuel : ℕ} {name : List Byte} {call : Call}

lemma safe_derefFile (isOpen : mach.thread.IsOpen fd) : Safe (derefFile fd mach) := by
  rcases isOpen with ⟨slot, isFd, notNull⟩
  rcases Option.ne_none_iff_exists'.mp notNull with ⟨file, isFile⟩
  rw [derefFile_of_slot isFd isFile]
  exact .ok _

lemma safe_setFile {mid : Machine} (moved : Option File)
  (deref : derefFile fd mach = .ok (file, after)) : Safe (setFile fd moved mid) := by
  rcases derefFile_eq_ok deref with ⟨slot, isFd, _, _⟩
  rw [setFile_of_slot moved isFd]
  exact .ok _

lemma safe_filesize (within : mach.thread.Checked fd → mach.thread.IsOpen fd) :
  Safe (filesize fd mach) := by
  unfold filesize
  rw [reads_bind_apply]
  split
  · next checked =>
      refine (safe_derefFile (within checked)).bind fun file mid _ => safe_asserting ?_
      simp only [fileLength]
      intro panics
      cases isOpen : mid.fs.inodes file.inode with
      | none =>
        rw [bind_of_error (by simp [derefInode, isOpen]; rfl)] at panics
        cases panics
      | some ino =>
        rw [bind_of_ok (derefInode_of_some isOpen)] at panics
        cases panics
  · exact .ok _

lemma safe_tell (within : mach.thread.Checked fd → mach.thread.IsOpen fd) :
  Safe (tell fd mach) := by
  unfold tell
  rw [reads_bind_apply]
  split
  · next checked =>
      refine (safe_derefFile (within checked)).bind fun file mid _ => ?_
      refine (safe_asserting ?_).bind fun _ _ _ => .ok _
      simp [fileTell]
  · exact .ok _

lemma safe_seek {posn : ℤ} (within : mach.thread.Checked fd → mach.thread.IsOpen fd ∧ 0 ≤ posn) :
  Safe (seek fd posn mach) := by
  unfold seek
  rw [reads_bind_apply]
  split
  · next checked =>
      refine (safe_derefFile (within checked).1).bind fun file mid deref => ?_
      refine (safe_asserting ?_).bind fun moved _ _ =>
        (safe_setFile (some moved) deref).bind fun _ _ _ => .ok _
      simp [fileSeek, (within checked).2]
  · exact .ok _

lemma safe_read {buf : Bool} {size : ℤ}
  (within : mach.thread.Checked fd → buf = true → mach.thread.IsOpen fd) :
  Safe (read fd buf size mach) := by
  unfold read
  rw [reads_bind_apply]
  split
  · exact .ok _
  split
  · next checked =>
      have isOpen := within ⟨by omega, checked.2.1⟩ checked.2.2
      refine (safe_derefFile isOpen).bind fun file mid deref => ?_
      refine (safe_onFs _).bind fun res _ _ => ?_
      exact (safe_setFile _ deref).bind fun _ _ _ => .ok _
  · exact .ok _

lemma safe_write {buf : Option (ℕ → Byte)} {size : ℤ} {isDir : Bool}
  (within : mach.thread.Checked fd → buf ≠ none → mach.thread.IsOpen fd) :
  Safe (write fuel fd buf size isDir mach) := by
  unfold write
  rw [reads_bind_apply]
  cases buf with
  | none => exact .ok _
  | some bytes =>
    simp only
    split
    · next checked =>
        split
        · exact .ok _
        next notConsole =>
          have isOpen := within ⟨by omega, checked.2⟩ (by simp)
          refine (safe_derefFile isOpen).bind fun file mid deref => ?_
          refine (safe_onFs _).bind fun _ looked _ => ?_
          split
          · exact .ok _
          refine (safe_onFs _).bind fun res _ _ => ?_
          exact (safe_setFile _ deref).bind fun _ _ _ => .ok _
    · exact .ok _

lemma safe_close (tidy : mach.thread.Tidy) (within : mach.thread.Checked fd → fd < 130) :
  Safe (close fuel fd mach) := by
  unfold close
  rw [reads_bind_apply]
  split
  · next checked =>
      have inside : 0 ≤ fd ∧ fd < 130 := ⟨by have := checked.1; omega, within checked⟩
      have isFd : (((⟨fd.toNat, by omega⟩ : Fin 130).val : ℕ) : ℤ) = fd :=
        Int.toNat_of_nonneg inside.1
      have got : getFile fd mach = .ok (mach.thread.filePointers ⟨fd.toNat, by omega⟩, mach) := by
        unfold getFile
        rw [bind_of_ok (slotOf_of_slot isFd)]
        rfl
      rw [bind_of_ok got]
      cases isFile : mach.thread.filePointers ⟨fd.toNat, by omega⟩ with
      | none => exact .ok _
      | some file =>
        have allows := tidy.allowsWrites _ file isFile
        refine Safe.bind (.bind (safe_asserting ?_) fun _ _ _ => safe_onFs _) fun _ mid _ => ?_
        · simp [fileAllowWrite, allows]
        rw [setFile_of_slot none isFd]
        exact .ok _
  · exact .ok _

lemma safe_openFile (room : mach.thread.fdIndex < 130) : Safe (openFile fuel name mach) := by
  refine (safe_onFs _).bind fun file opened opens => ?_
  rcases onFs_eq_ok opens with ⟨fs, _, rfl⟩
  refine Safe.bind (.ok _) fun index middle readIndex => ?_
  have isFd : (((⟨mach.thread.fdIndex, room⟩ : Fin 130).val : ℕ) : ℤ) = index := by
    cases readIndex
    rfl
  refine Safe.bind ?_ fun _ last _ => ?_
  · rw [setFile_of_slot file isFd]
    exact .ok _
  cases file with
  | none => exact .ok _
  | some file => exact .ok _

lemma safe_perform (onDescriptors : call.OnDescriptors) (tidy : mach.thread.Tidy)
  (within : Session.CallWithinBounds mach.thread call) : Safe (call.perform fuel mach) := by
  cases call with
  | openFile name => exact (safe_openFile within).returning
  | close fd => exact (safe_close tidy within).returning
  | read fd buf size => exact (safe_read within).returning
  | write fd buf size isDir => exact (safe_write within).returning
  | seek fd posn => exact (safe_seek within).bind fun _ _ _ => .ok _
  | tell fd => exact safe_tell within
  | filesize fd => exact (safe_filesize within).returning
  | create | remove | chdir | mkdir | readdir | isdir | inumber => exact onDescriptors.elim

lemma openFile_eq_ok (ran : openFile fuel name mach = .ok (fd, after)) :
  ∃ slot : Fin 130, slot.val = mach.thread.fdIndex ∧
    ((fd = -1 ∧ after.thread = mach.thread.put slot none) ∨
      ∃ file, fd = mach.thread.fdIndex ∧ file.denyWrite = false ∧
        after.thread = { mach.thread.put slot (some file) with
          fdIndex := mach.thread.fdIndex + 1 }) := by
  rcases bind_eq_ok ran with ⟨file, opened, opens, afterOpen⟩
  rcases onFs_eq_ok opens with ⟨fs, opensFile, rfl⟩
  rcases bind_eq_ok afterOpen with ⟨idx, same, readIdx, afterIdx⟩
  rcases bind_eq_ok afterIdx with ⟨_, mid, stored, rest⟩
  cases readIdx
  rcases setFile_eq_ok stored with ⟨slot, isIdx, rfl⟩
  refine ⟨slot, by simpa using isIdx, ?_⟩
  cases file with
  | none =>
    cases rest
    exact Or.inl ⟨rfl, rfl⟩
  | some file =>
    cases rest
    exact Or.inr ⟨file, rfl, (filesysOpen_fresh opensFile).2, rfl⟩

lemma perform_tidy {res : Option ℤ} (onDescriptors : call.OnDescriptors) (tidy : mach.thread.Tidy)
  (ran : call.perform fuel mach = .ok (res, after)) : after.thread.Tidy := by
  cases call with
  | openFile name =>
    rcases bind_eq_ok ran with ⟨fd, mid, called, rest⟩
    cases rest
    rcases openFile_eq_ok called with ⟨slot, isIdx, ⟨_, isThr⟩ | ⟨file, _, allows, isThr⟩⟩
    · rw [isThr]
      exact tidy.put (by simp) (by simp)
    rw [isThr]
    exact tidy.opened isIdx allows
  | close fd =>
    rcases bind_eq_ok ran with ⟨val, mid, called, rest⟩
    cases rest
    rcases close_eq_ok called with ⟨rfl, _⟩ | ⟨slot, file, fs, _, _, _, rfl⟩
    · exact tidy
    · exact tidy.put (by simp) (by simp)
  | read fd buf size =>
    rcases bind_eq_ok ran with ⟨val, mid, called, rest⟩
    cases rest
    exact (read_moves _ _ _ called).tidy tidy
  | write fd buf size isDir =>
    rcases bind_eq_ok ran with ⟨val, mid, called, rest⟩
    cases rest
    exact (write_moves _ _ _ _ _ called).tidy tidy
  | seek fd posn =>
    rcases bind_eq_ok ran with ⟨val, mid, called, rest⟩
    cases rest
    exact (seek_moves _ _ called).tidy tidy
  | tell fd => exact (tell_moves _ ran).tidy tidy
  | filesize fd =>
    rcases bind_eq_ok ran with ⟨val, mid, called, rest⟩
    cases rest
    exact (filesize_moves _ called).tidy tidy
  | create | remove | chdir | mkdir | readdir | isdir | inumber => exact onDescriptors.elim

end Calls

namespace Session

variable {session after : Session} {call : Option Call}

def Tidy : Session → Prop
  | running machine => machine.thread.Tidy
  | exited => True
  | crashed => False

lemma Tidy.step (tidy : session.Tidy) (taken : SessionStep session call after)
  (within : session.WithinBounds call) : after.Tidy := by
  cases taken with
  | returns onDescriptors done => exact perform_tidy onDescriptors tidy done
  | exits onDescriptors done => trivial
  | crashes onDescriptors done isCrash =>
    rcases safe_perform onDescriptors tidy within _ done with ⟨reason, isKernel⟩
    exact isCrash reason isKernel
  | others fs save currentDir =>
    exact ThreadFiles.Tidy.elsewhere tidy save currentDir

lemma tidy_of_reached (reached : Reached WithinBounds session) : session.Tidy := by
  refine reached.invariant ?_ ?_
  · rintro _ ⟨fs, rfl⟩
    exact newThread_tidy
  rintro pre next tidy ⟨call, taken, within⟩
  exact tidy.step taken within

/-- As long as all calls stay within bounds the kernel stays up, and `open` returns descriptors
that are not in use. -/
theorem sound_of_reached (reached : Reached WithinBounds session) : session.Sound := by
  have tidy := tidy_of_reached reached
  cases session with
  | running machine =>
    intro fuel name fd after returned notFailed
    rcases openFile_eq_ok returned with ⟨slot, isIndex, ⟨failed, _⟩ | ⟨_, isFd, _, _⟩⟩
    · exact absurd failed notFailed
    have := tidy.two_le
    refine ⟨by omega, ?_⟩
    rintro ⟨other, isOther, isFile⟩
    have := (tidy.checked other isFile).2
    omega
  | exited => trivial
  | crashed => exact tidy.elim

/-- A process that opens a file reads it through the descriptor 2. -/
theorem sound_opened :
    ∃ machine, Reached WithinBounds (.running machine) ∧ machine.thread.IsOpen 2 ∧
      Sound (.running machine) := by
  have opens : ((Call.openFile [slash]).perform 30 ⟨smallFs 52, newThread⟩).toOption.map
      (fun result => (result.1, (result.2.thread.filePointers 2).isSome)) =
        some (some 2, true) := by
    decide +kernel
  rcases Option.map_eq_some_iff.mp opens with ⟨⟨_, machine⟩, ran, isResult⟩
  rw [Prod.mk.injEq] at isResult
  rcases isResult with ⟨rfl, isFile⟩
  have reached : Reached WithinBounds (.running machine) :=
    .next (.start ⟨_, rfl⟩) ⟨some (.openFile [slash]), .returns trivial (eq_ok_of_toOption ran),
      show 2 < 130 by decide⟩
  refine ⟨machine, reached, ⟨2, rfl, ?_⟩, sound_of_reached reached⟩
  intro isNull
  simp [isNull] at isFile

/-- `filesize (2)` of a process that has opened no file brings the kernel down. -/
theorem not_sound_filesize : ∃ session, Reached (fun _ _ => True) session ∧ ¬ session.Sound := by
  have crashes : (Call.filesize 2).perform 0 ⟨smallFs 52, newThread⟩ = .error .nullFile := rfl
  have crashed : SessionStep (.running ⟨smallFs 52, newThread⟩) (some (.filesize 2)) .crashed :=
    .crashes trivial crashes (by simp [Halt.IsCrash])
  exact ⟨.crashed, .next (.start ⟨smallFs 52, rfl⟩) ⟨_, crashed, trivial⟩, id⟩

end Session

end Pintos.Files
