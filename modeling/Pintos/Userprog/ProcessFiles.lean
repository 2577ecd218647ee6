import Pintos.Userprog.Handles

/-!
# Calls that leave nothing open

Which file system calls leave nothing open that no descriptor refers to, and why
they keep the account of a process. `create`, `remove`, `chdir` and `mkdir` open
directories and inodes on the way that nothing closes again; only calls that do
not get that far qualify. `exit` closes everything the account knows about.
-/

namespace Pintos.Files

open Pintos.Computation

def Absent (fs : Fs) (dir : Dir) (name : List Byte) : Prop :=
  ∀ fuel mallocs found after,
    lookup fuel dir name { fs with mallocs := mallocs } = .ok (found, after) → found = none

/-- `get_dir` opens nothing: the path is relative, and has no component or one the current
directory does not contain. -/
def OpensNothing (machine : Machine) (path : List Byte) : Prop :=
  path.head? ≠ some slash ∧
    ∀ dir token rest, machine.thread.currentDir = some dir → pathTokens path = token :: rest →
      Absent machine.fs dir token

/-- `filesys_create` opens nothing: it works in the current directory, and when it comes to
`dir_add` the name is invalid or in use. -/
def CreatesNothing (fuel : ℕ) (machine : Machine) (file : List Byte) (initialSize : ℤ) : Prop :=
  2 ≤ machine.fs.i ∧
    ∀ last dir inodeSector ready, (pathTokens file).getLast? = some last →
      filesysCreateInode fuel machine.thread.currentDir initialSize machine.fs =
        .ok (some (dir, inodeSector), ready) →
      nameMax < last.length ∨
        ∃ entry after, lookup fuel dir last ready = .ok (some entry, after)

def Call.LeavesNothing (fuel : ℕ) (machine : Machine) : Call → Prop
  | .create file initialSize => CreatesNothing fuel machine file initialSize
  | .remove file => file = [slash] ∨ OpensNothing machine file
  | .chdir dir => OpensNothing machine dir
  | .mkdir dir _ => dir = []
  | .seek fd _ => machine.thread.Checked fd
  | .tell fd => machine.thread.Checked fd
  | .openFile _ | .filesize _ | .read _ _ _ | .write _ _ _ _ | .close _ | .readdir _ | .isdir _ _
  | .inumber _ _ => True

variable {mach after : Machine} {others : Holdings ℕ} {fuel : ℕ}

section Paths

variable {fs : Fs} {val : Bool} {file : List Byte}

lemma getDir_of_opensNothing {path : List Byte} {found : FoundDir} {mallocs : ℕ → Bool}
  (opensNothing : OpensNothing mach path)
  (ran : getDir fuel mach.thread.currentDir path { mach.fs with mallocs := mallocs } =
    .ok (found, fs)) : Fs.OnlyData { mach.fs with mallocs := mallocs } fs ∧
    (found = .bad ∨ found = .found mach.thread.currentDir) := by
  rcases opensNothing with ⟨relative, absent⟩
  rcases bind_eq_ok ran with ⟨badDir, first, asksBadDir, afterBadDir⟩
  have keepsFirst := malloc_onlyData asksBadDir
  cases badDir with
  | false => simp at afterBadDir
  | true =>
    simp only [if_true, if_neg relative, pure_bind_apply] at afterBadDir
    rcases bind_eq_ok afterBadDir with ⟨curIno, second, asksIno, loop⟩
    have keepsSecond := IsTrans.trans _ _ _ keepsFirst (malloc_onlyData asksIno)
    rcases malloc_eq_ok asksBadDir with ⟨_, rfl⟩
    rcases malloc_eq_ok asksIno with ⟨_, rfl⟩
    cases tokens : pathTokens path with
    | nil =>
      rw [tokens] at loop
      cases loop
      exact ⟨keepsSecond, Or.inr rfl⟩
    | cons token rest =>
      rw [tokens] at loop
      cases cur : mach.thread.currentDir with
      | none =>
        rw [cur] at loop
        simp [getDirLoop] at loop
      | some dir =>
        rw [cur] at loop
        rcases bind_eq_ok loop with ⟨opened, looked, looks, afterLookup⟩
        rcases bind_eq_ok looks with ⟨entry, searched, searches, opens⟩
        have missing := absent dir token rest cur tokens _ _ _ _ searches
        subst missing
        cases opens
        split at afterLookup
        · cases afterLookup
          exact ⟨IsTrans.trans _ _ _ keepsSecond (lookupLoop_onlyData _ _ _ _ searches), Or.inl rfl⟩
        · simp at afterLookup

lemma remove_keeps {file : List Byte} {val : Bool}
  (leavesNothing : file = [slash] ∨ OpensNothing mach file)
  (ran : remove fuel file mach = .ok (val, after)) : Keeps others mach after := by
  rcases onFs_eq_ok ran with ⟨fs, removes, rfl⟩
  refine ⟨rfl, fun save accounted => accounted.of_onlyData ?_⟩
  unfold filesysRemove at removes
  split at removes
  · cases removes
    exact Std.Refl.refl _
  next notRoot =>
    rcases bind_eq_ok removes with ⟨found, resolved, resolves, rest⟩
    rcases getDir_of_opensNothing (leavesNothing.resolve_left notRoot) resolves with
      ⟨onlyData, rfl | rfl⟩
    · cases rest
      exact onlyData
    cases cur : mach.thread.currentDir with
    | none => simp [cur] at rest
    | some dir =>
      simp only [cur, accounted.notEmpty dir cur] at rest
      cases rest
      exact onlyData

lemma chdir_keeps {dir : List Byte} (opensNothing : OpensNothing mach dir)
  (ran : chdir fuel dir mach = .ok (val, after)) : Keeps others mach after := by
  rcases bind_eq_ok ran with ⟨_, asked, asks, afterMalloc⟩
  rcases onFs_eq_ok asks with ⟨first, mallocs, rfl⟩
  have keepsFirst := malloc_onlyData mallocs
  rcases malloc_eq_ok mallocs with ⟨_, rfl⟩
  rw [reads_bind_apply] at afterMalloc
  rcases bind_eq_ok afterMalloc with ⟨found, resolved, resolves, rest⟩
  rcases onFs_eq_ok resolves with ⟨fs, getsDir, rfl⟩
  rcases getDir_of_opensNothing opensNothing getsDir with ⟨onlyData, isFound⟩
  have keepsSecond : Keeps others mach { mach with fs := fs } :=
    ⟨rfl, fun save accounted => accounted.of_onlyData (IsTrans.trans _ _ _ keepsFirst onlyData)⟩
  rcases isFound with rfl | rfl
  · cases rest
    exact keepsSecond
  cases cur : mach.thread.currentDir with
  | none => simp [cur] at rest
  | some dir =>
    simp only [cur] at rest
    have sameThr : ({ mach.thread with currentDir := some dir } : ThreadFiles) =
        mach.thread := by
      rw [← cur]
    split at rest
    · cases rest
      exact keepsSecond
    cases rest
    exact (congrArg (fun thr => Keeps others mach { fs := fs, thread := thr })
      sameThr).mpr keepsSecond

lemma dirAdd_of_present {dir : Dir} {name : List Byte} {inodeSector : Word} {pre : Fs}
  {success : Bool} (present : nameMax < name.length ∨
    ∃ entry after, lookup fuel dir name pre = .ok (some entry, after))
  (ran : dirAdd fuel dir name inodeSector pre = .ok (success, fs)) : pre.OnlyData fs := by
  unfold dirAdd at ran
  split at ran
  · cases ran
    exact Std.Refl.refl _
  next valid =>
    rcases present with tooLong | ⟨entry, found, looks⟩
    · exact absurd (Or.inr tooLong) valid
    rw [bind_of_ok looks] at ran
    cases ran
    exact lookupLoop_onlyData _ _ _ _ looks

lemma filesysCreateInode_onlyData (dir : Option Dir) (initSize : ℤ) :
  Preserves Fs.OnlyData (filesysCreateInode fuel dir initSize) := by
  cases dir with
  | none => exact .pure _
  | some dir =>
    refine .bind (freeMapAllocate_onlyData fuel 1) fun sec => ?_
    cases sec with
    | none => exact .pure _
    | some num => exact .bind (inodeCreate_onlyData _ _ _) fun _ => .pure _

lemma create_keeps {initSize : ℤ} (createsNothing : CreatesNothing fuel mach file initSize)
  (ran : create fuel file initSize mach = .ok (val, after)) : Keeps others mach after := by
  rcases createsNothing with ⟨later, present⟩
  rcases onFs_eq_ok ran with ⟨fs, creates, rfl⟩
  refine ⟨rfl, fun save accounted => accounted.of_onlyData ?_⟩
  have notFirst : ¬ mach.fs.i ≤ 1 := by omega
  simp only [filesysCreate, reads_bind_apply] at creates
  rcases bind_eq_ok creates with ⟨entry, same, chooses, afterEntry⟩
  rw [filesysCreateEntry_later later] at chooses
  cases last : (pathTokens file).getLast? with
  | none => simp [last] at chooses
  | some name =>
    rw [last] at chooses
    cases chooses
    rcases bind_eq_ok afterEntry with ⟨ready, mid, allocates, rest⟩
    have onlyData := filesysCreateInode_onlyData _ _ allocates
    cases ready with
    | none =>
      simp only [if_neg notFirst] at rest
      cases rest
      exact onlyData
    | some operands =>
      rcases operands with ⟨dir, inodeSector⟩
      rcases bind_eq_ok rest with ⟨success, added, adds, isVal⟩
      rw [if_neg notFirst] at isVal
      cases isVal
      exact IsTrans.trans _ _ _ onlyData
        (dirAdd_of_present (present name dir inodeSector mid last allocates) adds)

lemma mkdir_keeps (last : Option (List Byte)) :
  Preserves (Keeps others) (mkdir fuel [] last) := .pure _

end Paths

variable {res : Option ℤ}

lemma returning_eq_ok {Value : Type} {reg : Value → ℤ} {call : System Value}
  (ran : returning reg call mach = .ok (res, after)) :
  ∃ val, call mach = .ok (val, after) ∧ res = some (reg val) := by
  rcases bind_eq_ok ran with ⟨val, mid, called, rest⟩
  cases rest
  exact ⟨val, called, rfl⟩

lemma seek_of_checked {fd posn : ℤ} {res : Option Unit} (checked : mach.thread.Checked fd)
  (ran : seek fd posn mach = .ok (res, after)) : res ≠ none := by
  unfold seek at ran
  rw [reads_bind_apply, if_pos checked] at ran
  rcases bind_eq_ok ran with ⟨_, _, _, afterGet⟩
  rcases bind_eq_ok afterGet with ⟨_, _, _, afterSeek⟩
  rcases bind_eq_ok afterSeek with ⟨_, _, _, isVal⟩
  cases isVal
  simp

lemma tell_of_checked {fd : ℤ} (checked : mach.thread.Checked fd)
  (ran : tell fd mach = .ok (res, after)) : res ≠ none := by
  unfold tell at ran
  rw [reads_bind_apply, if_pos checked] at ran
  rcases bind_eq_ok ran with ⟨_, _, _, afterGet⟩
  rcases bind_eq_ok afterGet with ⟨_, _, _, isVal⟩
  cases isVal
  simp

lemma perform_keeps {call : Call} (leavesNothing : call.LeavesNothing fuel mach)
  (ran : call.perform fuel mach = .ok (res, after)) : Keeps others mach after ∧ res ≠ none := by
  cases call with
  | create file initSize =>
    rcases returning_eq_ok ran with ⟨val, called, rfl⟩
    exact ⟨create_keeps leavesNothing called, by simp⟩
  | remove file =>
    rcases returning_eq_ok ran with ⟨val, called, rfl⟩
    exact ⟨remove_keeps leavesNothing called, by simp⟩
  | openFile name =>
    rcases returning_eq_ok ran with ⟨val, called, rfl⟩
    exact ⟨openFile_keeps _ _ called, by simp⟩
  | filesize fd =>
    rcases returning_eq_ok ran with ⟨val, called, rfl⟩
    exact ⟨(filesize_moves _ called).keeps, by simp⟩
  | read fd buf size =>
    rcases returning_eq_ok ran with ⟨val, called, rfl⟩
    exact ⟨(read_moves _ _ _ called).keeps, by simp⟩
  | write fd buf size isDir =>
    rcases returning_eq_ok ran with ⟨val, called, rfl⟩
    exact ⟨(write_moves _ _ _ _ _ called).keeps, by simp⟩
  | seek fd posn =>
    rcases bind_eq_ok ran with ⟨val, mid, called, rest⟩
    cases rest
    exact ⟨(seek_moves _ _ called).keeps, by simpa using seek_of_checked leavesNothing called⟩
  | tell fd => exact ⟨(tell_moves _ ran).keeps, tell_of_checked leavesNothing ran⟩
  | close fd =>
    rcases returning_eq_ok ran with ⟨val, called, rfl⟩
    exact ⟨close_keeps _ _ called, by simp⟩
  | chdir dir =>
    rcases returning_eq_ok ran with ⟨val, called, rfl⟩
    exact ⟨chdir_keeps leavesNothing called, by simp⟩
  | mkdir dir last =>
    rcases returning_eq_ok ran with ⟨val, called, rfl⟩
    subst leavesNothing
    exact ⟨mkdir_keeps _ called, by simp⟩
  | readdir fd =>
    rcases returning_eq_ok ran with ⟨val, called, rfl⟩
    exact ⟨(readdir_moves _ _ called).keeps, by simp⟩
  | isdir fd isDir =>
    rcases returning_eq_ok ran with ⟨val, called, rfl⟩
    exact ⟨(isdir_moves _ _ called).keeps, by simp⟩
  | inumber fd word =>
    rcases returning_eq_ok ran with ⟨val, called, rfl⟩
    exact ⟨(inumber_moves _ _ called).keeps, by simp⟩

section Ending

variable {save : Option File}

lemma closeAll_empties (counters : List ℕ) (accounted : Accounted others save mach)
  (returned : (counters.forM fun counter => close fuel counter) mach = .ok ((), after)) :
  Accounted others save after ∧
    ∀ slot, after.thread.filePointers slot ≠ none →
      mach.thread.filePointers slot ≠ none ∧ slot.val ∉ counters := by
  induction counters generalizing mach with
  | nil =>
    cases returned
    exact ⟨accounted, fun slot isFile => ⟨isFile, by simp⟩⟩
  | cons counter rest ih =>
    rcases bind_eq_ok returned with ⟨_, middle, closes, closesRest⟩
    have keeps : Keeps others mach middle := close_keeps fuel counter closes
    rcases ih (keeps.accounted save accounted) closesRest with ⟨accountedAfter, remains⟩
    refine ⟨accountedAfter, ?_⟩
    intro slot isFile
    rcases remains slot isFile with ⟨wasFile, notRest⟩
    rcases close_eq_ok closes with ⟨rfl, closed⟩ | ⟨other, file, fs, isOther, isOpen, _, rfl⟩
    · refine ⟨wasFile, ?_⟩
      rw [List.mem_cons, not_or]
      refine ⟨?_, notRest⟩
      intro isCounter
      have isChecked := accounted.tidy.checked slot wasFile
      refine wasFile (closed slot (by omega) ⟨?_, ?_⟩)
      · omega
      · omega
    have differs : slot ≠ other := by
      rintro rfl
      simp [ThreadFiles.put] at wasFile
    refine ⟨by simpa [ThreadFiles.put, Function.update_of_ne differs] using wasFile, ?_⟩
    rw [List.mem_cons, not_or]
    refine ⟨?_, notRest⟩
    intro isCounter
    exact differs (Fin.ext (by omega))

lemma exit_eq_ok (ran : exit fuel mach = .ok ((), after)) :
  ∃ fs, fileClose fuel mach.thread.save mach.fs = .ok ((), fs) ∧
    closeFiles fuel { mach with fs := fs } = .ok ((), after) := by
  unfold exit at ran
  rw [reads_bind_apply] at ran
  cases isSave : mach.thread.save with
  | none =>
    rw [isSave] at ran
    exact ⟨mach.fs, rfl, ran⟩
  | some file =>
    rw [isSave] at ran
    rcases bind_eq_ok ran with ⟨_, mid, closesSave, closesAll⟩
    rcases closeFile_eq_ok closesSave with ⟨fs, closes, rfl⟩
    exact ⟨fs, closes, closesAll⟩

lemma exit_releases (accounted : Accounted others mach.thread.save mach)
  (ran : exit fuel mach = .ok ((), after)) : after.fs.Holds others := by
  rcases exit_eq_ok ran with ⟨fs, closes, closesAll⟩
  have holds : fs.Holds (others + mach.thread.descriptors + .ofOption File.holdings none) := by
    exact fileClose_holds accounted.holds closes
  have closed : Accounted others none { mach with fs := fs } :=
    ⟨holds, accounted.tidy, accounted.notEmpty⟩
  rcases closeAll_empties _ closed closesAll with ⟨accountedAfter, remains⟩
  have empty : after.thread.filePointers = fun _ => none := by
    funext slot
    by_contra isFile
    have isChecked := accountedAfter.tidy.checked slot isFile
    refine (remains slot isFile).2 (List.mem_range'_1.mpr ?_)
    omega
  have holdsAfter := accountedAfter.holds
  rw [ThreadFiles.descriptors, empty, Holdings.ofTable_empty, Holdings.ofOption, add_zero,
    add_zero] at holdsAfter
  exact holdsAfter

end Ending

end Pintos.Files
