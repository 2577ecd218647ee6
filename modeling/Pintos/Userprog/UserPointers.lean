import Pintos.Userprog.SyscallHandler

/-!
# Which user pointers are followed unchecked

A handler that follows only checked pointers finds every byte it loads, and every
pointer it hands on, to be user memory before it uses it. `syscall_handler` does
so for some stack pointers and arguments only: it checks the first byte of a word
and then loads all four, it loads pointer arguments before it checks anything
about the word they stand in, and it hands the arguments of `chdir`, `mkdir` and
`readdir` on without any check.
-/

namespace Pintos

open Traced

/-- The address is not null, is below `PHYS_BASE`, and lies on a page that a checked pointer has
shown to be mapped. -/
def Found (checked : List Word) (address : Word) : Prop :=
  address ≠ 0 ∧ address.toNat < physBase ∧ ∃ pointer ∈ checked, pageNo pointer = pageNo address

def FoundWord (checked : List Word) (address : Word) : Prop :=
  ∀ index : Fin 4, Found checked (address + BitVec.ofNat 32 index)

def Guarded : List Word → List Access → Prop
  | _, [] => True
  | checked, .checked pointer :: rest => Guarded (pointer :: checked) rest
  | checked, .loaded address :: rest => FoundWord checked address ∧ Guarded checked rest

def checkedAfter : List Word → List Access → List Word
  | checked, [] => checked
  | checked, .checked pointer :: rest => checkedAfter (pointer :: checked) rest
  | checked, .loaded _ :: rest => checkedAfter checked rest

/-- No pointer is followed or handed on before it has been checked. -/
def ChecksFirst (checked : List Word) (run : Handler Syscall) : Prop :=
  Guarded checked run.events ∧ ∀ call, run.ended = .ok call →
    ∀ pointer ∈ call.pointers, Found (checkedAfter checked run.events) pointer

/-- The condition under which the handler follows only checked pointers. The stack pointer must
leave room on its page, or break the argument words exactly at a page boundary that is checked;
the arguments that are not checked must point to the page of the stack pointer. -/
def Covered (memory : UserMemory) (esp : Word) : Prop :=
  let offset := esp.toNat % 4096
  let first := memory.word (esp + 4#32)
  let second := memory.word (esp + 8#32)
  memory.Valid esp → offset ≤ 4092 ∧
    match SysNo.ofWord (memory.word esp) with
    | some .exit | some .wait | some .filesize | some .tell | some .close =>
      offset ≤ 4088 ∨ offset = 4092
    | some .exec | some .remove | some .opens => offset ≤ 4088
    | some .create =>
      offset ≤ 4084 ∨ offset = 4088 ∨
        (offset < 4088 ∧ (memory.Valid first → pageNo first = pageNo esp + 1))
    | some .read | some .write =>
      offset ≤ 4080 ∨ offset = 4084 ∨ offset = 4092 ∨
        (offset < 4084 ∧ (memory.Valid second → pageNo second = pageNo esp + 1))
    | some .seek => offset ≤ 4084 ∨ 4088 ≤ offset
    | some .chdir | some .mkdir => offset ≤ 4088 ∧ first ≠ 0 ∧ pageNo first = pageNo esp
    | some .readdir => offset ≤ 4084 ∧ second ≠ 0 ∧ pageNo second = pageNo esp
    | some .halt | some .isdir | some .inumber | some .mmap | some .munmap | none => True

section Rules

variable {mem : UserMemory} {checked : List Word} {addr : Word}

lemma Found.mapped (found : Found checked addr)
  (valid : ∀ ptr ∈ checked, mem.Valid ptr) : mem.Valid addr := by
  rcases found with ⟨notNull, below, ptr, member, same⟩
  refine ⟨notNull, below, ?_⟩
  rw [← same]
  exact (valid ptr member).2.2

lemma found_iff (valid : ∀ ptr ∈ checked, mem.Valid ptr) (addr : Word) :
  Found checked addr ↔ addr ≠ 0 ∧ ∃ ptr ∈ checked, pageNo ptr = pageNo addr := by
  constructor
  · rintro ⟨notNull, _, seen⟩
    exact ⟨notNull, seen⟩
  rintro ⟨notNull, ptr, member, same⟩
  refine ⟨notNull, ?_, ptr, member, same⟩
  have below := (valid ptr member).2.1
  simp only [pageNo, physBase] at same below ⊢
  omega

lemma FoundWord.readable (found : FoundWord checked addr)
  (valid : ∀ ptr ∈ checked, mem.Valid ptr) : mem.Readable addr :=
  fun idx => ((found idx).mapped valid).2.2

lemma checksFirst_badPointer (ptr : Word) (next : Unit → Handler Syscall) :
  ChecksFirst checked (badPointer mem ptr >>= next) ↔
    (mem.Valid ptr → ChecksFirst (ptr :: checked) (next ())) := by
  unfold badPointer
  by_cases passes : mem.Valid ptr
  · rw [if_pos passes, emit_bind]
    simp [ChecksFirst, Guarded, checkedAfter, passes]
  rw [if_neg passes, stop_bind]
  simp [ChecksFirst, Guarded, stop, passes]

lemma checksFirst_deref (valid : ∀ ptr ∈ checked, mem.Valid ptr) (addr : Word)
  (next : Word → Handler Syscall) : ChecksFirst checked (deref mem addr >>= next) ↔
    FoundWord checked addr ∧ ChecksFirst checked (next (mem.word addr)) := by
  constructor
  · rintro ⟨guarded, handed⟩
    have foundWord : FoundWord checked addr := by
      have events := guarded
      unfold deref at events
      by_cases readable : mem.Readable addr
      · rw [if_pos readable] at events
        exact events.1
      rw [if_neg readable] at events
      exact events.1
    have readable := foundWord.readable valid
    unfold deref at guarded handed
    rw [if_pos readable] at guarded handed
    exact ⟨foundWord, guarded.2, handed⟩
  rintro ⟨foundWord, guarded, handed⟩
  unfold deref
  rw [if_pos (foundWord.readable valid)]
  exact ⟨⟨foundWord, guarded⟩, handed⟩

lemma checksFirst_pure (call : Syscall) :
  ChecksFirst checked (pure call) ↔ ∀ ptr ∈ call.pointers, Found checked ptr := by
  constructor
  · rintro ⟨_, handed⟩
    exact handed call rfl
  intro handed
  refine ⟨trivial, ?_⟩
  rintro _ same
  cases same
  exact handed

end Rules

variable {distance : ℕ}

section Words

variable {mem : UserMemory} {checked : List Word} {esp : Word}

lemma toNat_add_of_valid (valid : mem.Valid esp) (near : distance ≤ 16) :
  (esp + BitVec.ofNat 32 distance).toNat = esp.toNat + distance := by
  have below := valid.2.1
  simp only [physBase] at below
  rw [BitVec.toNat_add, BitVec.toNat_ofNat]
  omega

lemma pageNo_add (espValid : mem.Valid esp) (near : distance ≤ 16) :
  pageNo (esp + BitVec.ofNat 32 distance) =
    pageNo esp + if esp.toNat % 4096 + distance < 4096 then 0 else 1 := by
  rw [pageNo, toNat_add_of_valid espValid near, pageNo]
  split <;> omega

lemma add_ne_zero_of_valid (espValid : mem.Valid esp) (near : distance ≤ 16) :
  esp + BitVec.ofNat 32 distance ≠ 0 := by
  intro isZero
  have val := congrArg BitVec.toNat isZero
  rw [toNat_add_of_valid espValid near] at val
  apply espValid.1
  apply BitVec.eq_of_toNat_eq
  simp at val ⊢
  exact val.1

def NextSeen (esp : Word) (checked : List Word) : Prop :=
  ∃ pointer ∈ checked, pageNo pointer = pageNo esp + 1

@[simp]
lemma nextSeen_cons (ptr : Word) (rest : List Word) :
  NextSeen esp (ptr :: rest) ↔ pageNo ptr = pageNo esp + 1 ∨ NextSeen esp rest := by
  simp [NextSeen]

@[simp]
lemma not_nextSeen_nil : ¬ NextSeen esp [] := by
  simp [NextSeen]

lemma found_add_iff (valid : ∀ ptr ∈ checked, mem.Valid ptr) (member : esp ∈ checked)
  (near : distance ≤ 16) : Found checked (esp + BitVec.ofNat 32 distance) ↔
    esp.toNat % 4096 + distance < 4096 ∨ NextSeen esp checked := by
  have espValid := valid esp member
  rw [found_iff valid, pageNo_add espValid near]
  by_cases samePage : esp.toNat % 4096 + distance < 4096
  · simp only [samePage, if_true, true_or, iff_true]
    exact ⟨add_ne_zero_of_valid espValid near, esp, member, rfl⟩
  simp only [samePage, if_false, false_or, NextSeen, and_iff_right_iff_imp]
  exact fun _ => add_ne_zero_of_valid espValid near

lemma foundWord_add_iff (valid : ∀ ptr ∈ checked, mem.Valid ptr) (member : esp ∈ checked)
  (near : distance ≤ 12) : FoundWord checked (esp + BitVec.ofNat 32 distance) ↔
    esp.toNat % 4096 + distance + 3 < 4096 ∨ NextSeen esp checked := by
  have byte : ∀ idx : ℕ, idx < 4 →
      (Found checked (esp + BitVec.ofNat 32 distance + BitVec.ofNat 32 idx) ↔
        esp.toNat % 4096 + (distance + idx) < 4096 ∨ NextSeen esp checked) := by
    intro idx bound
    rw [BitVec.add_assoc, ← BitVec.ofNat_add]
    exact found_add_iff valid member (by omega)
  constructor
  · intro found
    simpa [Nat.add_assoc] using (byte 3 (by omega)).mp (found 3)
  rintro room idx
  have bound := idx.isLt
  refine (byte idx bound).mpr ?_
  rcases room with samePage | seen
  · exact Or.inl (by omega)
  · exact Or.inr seen

lemma foundWord_esp_iff (espValid : mem.Valid esp) :
  FoundWord [esp] esp ↔ esp.toNat % 4096 ≤ 4092 := by
  have first := foundWord_add_iff (show ∀ ptr ∈ [esp], mem.Valid ptr by simpa)
    (List.mem_singleton_self esp) (show 0 ≤ 12 by omega)
  rw [BitVec.add_zero] at first
  rw [first]
  simp
  omega

end Words

section Cases

variable {mem : UserMemory} {esp : Word} {call : Word → Syscall}

section

variable (espValid : mem.Valid esp)
include espValid

lemma crosses_of_not_valid (near : distance ≤ 16)
  (fails : ¬ mem.Valid (esp + BitVec.ofNat 32 distance)) : 4096 ≤ esp.toNat % 4096 + distance := by
  by_contra samePage
  have valid : ∀ ptr ∈ [esp], mem.Valid ptr := by simpa
  refine fails (Found.mapped ?_ valid)
  rw [found_add_iff valid (List.mem_singleton_self esp) near]
  exact Or.inl (by omega)

lemma pageNo_add_eq_next (near : distance ≤ 16) :
  pageNo (esp + BitVec.ofNat 32 distance) = pageNo esp + 1 ↔
    4096 ≤ esp.toNat % 4096 + distance := by
  rw [pageNo_add espValid near]
  split <;> omega

lemma oneValue_checksFirst (noPtrs : ∀ val, (call val).pointers = []) :
  ChecksFirst [esp] (oneValue mem call esp) ↔
    esp.toNat % 4096 ≤ 4088 ∨ 4092 ≤ esp.toNat % 4096 := by
  have next := pageNo_add_eq_next espValid (show 4 ≤ 16 by omega)
  unfold oneValue
  rw [checksFirst_badPointer]
  by_cases passes : mem.Valid (esp + 4#32)
  · have valid : ∀ ptr ∈ [esp + 4#32, esp], mem.Valid ptr := by
      simp [passes, espValid]
    have word := foundWord_add_iff valid (show esp ∈ [esp + 4#32, esp] by simp)
      (show 4 ≤ 12 by omega)
    simp [passes, checksFirst_deref valid, checksFirst_pure, noPtrs, word]
    omega
  have crossing := crosses_of_not_valid espValid (show 4 ≤ 16 by omega) passes
  simp only [passes, false_implies, true_iff]
  omega

lemma onePointer_checksFirst (onlyPtr : ∀ val, (call val).pointers = [val]) :
  ChecksFirst [esp] (onePointer mem call esp) ↔ esp.toNat % 4096 ≤ 4088 := by
  have valid : ∀ ptr ∈ [esp], mem.Valid ptr := by simpa
  have word := foundWord_add_iff valid (List.mem_singleton_self esp) (show 4 ≤ 12 by omega)
  unfold onePointer
  rw [checksFirst_deref valid, checksFirst_badPointer, word]
  simp only [nextSeen_cons, not_nextSeen_nil, or_false]
  constructor
  · rintro ⟨room, _⟩
    omega
  intro room
  refine ⟨by omega, fun passes => ?_⟩
  have both : ∀ ptr ∈ [mem.word (esp + 4#32), esp], mem.Valid ptr := by
    simp [passes, espValid]
  rw [checksFirst_deref both, checksFirst_pure, onlyPtr]
  refine ⟨?_, ?_⟩
  · rw [foundWord_add_iff both (by simp) (by omega)]
    exact Or.inl (by omega)
  simp only [List.mem_singleton, forall_eq]
  exact ⟨passes.1, passes.2.1, _, List.mem_cons_self, rfl⟩

lemma uncheckedPointer_checksFirst (onlyPtr : ∀ val, (call val).pointers = [val]) :
  ChecksFirst [esp] (uncheckedPointer mem call esp) ↔
    esp.toNat % 4096 ≤ 4088 ∧ mem.word (esp + 4#32) ≠ 0 ∧
      pageNo (mem.word (esp + 4#32)) = pageNo esp := by
  have valid : ∀ ptr ∈ [esp], mem.Valid ptr := by simpa
  have word := foundWord_add_iff valid (List.mem_singleton_self esp) (show 4 ≤ 12 by omega)
  unfold uncheckedPointer
  rw [checksFirst_deref valid, checksFirst_pure, onlyPtr, word]
  simp only [nextSeen_cons, not_nextSeen_nil, or_false, Nat.left_eq_add, one_ne_zero,
    List.mem_singleton, forall_eq, found_iff valid, exists_eq_left]
  constructor
  · rintro ⟨room, notNull, samePage⟩
    exact ⟨by omega, notNull, samePage.symm⟩
  rintro ⟨room, notNull, samePage⟩
  exact ⟨by omega, notNull, samePage.symm⟩

lemma readdirCase_checksFirst : ChecksFirst [esp] (readdirCase mem esp) ↔
    esp.toNat % 4096 ≤ 4084 ∧ mem.word (esp + 8#32) ≠ 0 ∧
      pageNo (mem.word (esp + 8#32)) = pageNo esp := by
  have valid : ∀ ptr ∈ [esp], mem.Valid ptr := by simpa
  have word := foundWord_add_iff valid (List.mem_singleton_self esp) (show 8 ≤ 12 by omega)
  have descriptor := found_add_iff valid (List.mem_singleton_self esp) (show 4 ≤ 16 by omega)
  unfold readdirCase
  rw [checksFirst_deref valid, checksFirst_pure, word, Syscall.pointers]
  simp only [nextSeen_cons, not_nextSeen_nil, or_false, Nat.left_eq_add, one_ne_zero,
    List.mem_cons, List.not_mem_nil, forall_eq_or_imp, forall_eq, descriptor]
  rw [found_iff valid]
  simp only [List.mem_singleton, exists_eq_left]
  constructor
  · rintro ⟨room, _, notNull, samePage⟩
    exact ⟨by omega, notNull, samePage.symm⟩
  rintro ⟨room, notNull, samePage⟩
  exact ⟨by omega, by omega, notNull, samePage.symm⟩

lemma seekCase_checksFirst :
  ChecksFirst [esp] (seekCase mem esp) ↔ esp.toNat % 4096 ≤ 4084 ∨ 4088 ≤ esp.toNat % 4096 := by
  have nextFour := pageNo_add_eq_next espValid (show 4 ≤ 16 by omega)
  have nextEight := pageNo_add_eq_next espValid (show 8 ≤ 16 by omega)
  unfold seekCase
  rw [checksFirst_badPointer]
  by_cases passesFour : mem.Valid (esp + 4#32)
  · simp only [passesFour, true_implies, checksFirst_badPointer]
    by_cases passesEight : mem.Valid (esp + 8#32)
    · have valid : ∀ ptr ∈ [esp + 8#32, esp + 4#32, esp], mem.Valid ptr := by
        simp [passesFour, passesEight, espValid]
      have member : esp ∈ [esp + 8#32, esp + 4#32, esp] := by simp
      simp only [passesEight, true_implies, checksFirst_deref valid, checksFirst_pure,
        foundWord_add_iff valid member (show 4 ≤ 12 by omega),
        foundWord_add_iff valid member (show 8 ≤ 12 by omega), nextSeen_cons, not_nextSeen_nil,
        nextFour, nextEight, Nat.left_eq_add, one_ne_zero, or_false, Syscall.pointers,
        List.not_mem_nil, false_implies, implies_true, and_true]
      omega
    have crossing := crosses_of_not_valid espValid (show 8 ≤ 16 by omega) passesEight
    simp only [passesEight, false_implies, true_iff]
    omega
  have crossing := crosses_of_not_valid espValid (show 4 ≤ 16 by omega) passesFour
  simp only [passesFour, false_implies, true_iff]
  omega

lemma createCase_checksFirst : ChecksFirst [esp] (createCase mem esp) ↔
    esp.toNat % 4096 ≤ 4084 ∨ esp.toNat % 4096 = 4088 ∨ (esp.toNat % 4096 < 4088 ∧
      (mem.Valid (mem.word (esp + 4#32)) →
        pageNo (mem.word (esp + 4#32)) = pageNo esp + 1)) := by
  have onlyEsp : ∀ ptr ∈ [esp], mem.Valid ptr := by simpa
  have nextEight := pageNo_add_eq_next espValid (show 8 ≤ 16 by omega)
  unfold createCase
  rw [checksFirst_deref onlyEsp, checksFirst_badPointer,
    foundWord_add_iff onlyEsp (List.mem_singleton_self esp) (show 4 ≤ 12 by omega)]
  generalize isFile : mem.word (esp + 4#32) = file
  simp only [nextSeen_cons, not_nextSeen_nil, or_false]
  by_cases passesFile : mem.Valid file
  · simp only [passesFile, true_implies, checksFirst_badPointer]
    by_cases passesEight : mem.Valid (esp + 8#32)
    · have valid : ∀ ptr ∈ [esp + 8#32, file, esp], mem.Valid ptr := by
        simp [passesFile, passesEight, espValid]
      have member : esp ∈ [esp + 8#32, file, esp] := by simp
      have fileFound : Found [esp + 8#32, file, esp] file :=
        ⟨passesFile.1, passesFile.2.1, file, by simp, rfl⟩
      simp only [passesEight, true_implies, checksFirst_deref valid, checksFirst_pure, isFile,
        foundWord_add_iff valid member (show 4 ≤ 12 by omega),
        foundWord_add_iff valid member (show 8 ≤ 12 by omega), nextSeen_cons, not_nextSeen_nil,
        nextEight, Nat.left_eq_add, one_ne_zero, or_false, Syscall.pointers, List.mem_singleton,
        forall_eq, fileFound, and_true]
      omega
    have crossing := crosses_of_not_valid espValid (show 8 ≤ 16 by omega) passesEight
    simp only [passesEight, false_implies, and_true]
    omega
  simp only [passesFile, false_implies, and_true]
  omega

lemma bufferCall_checksFirst (room : esp.toNat % 4096 ≤ 4092) {call : Word → Word → Word → Syscall}
  (onlyBuf : ∀ fd buf size, (call fd buf size).pointers = [buf]) :
  ChecksFirst [esp] (bufferCall mem call esp) ↔
    esp.toNat % 4096 ≤ 4080 ∨ esp.toNat % 4096 = 4084 ∨ esp.toNat % 4096 = 4092 ∨
      (esp.toNat % 4096 < 4084 ∧ (mem.Valid (mem.word (esp + 8#32)) →
        pageNo (mem.word (esp + 8#32)) = pageNo esp + 1)) := by
  have nextFour := pageNo_add_eq_next espValid (show 4 ≤ 16 by omega)
  have nextTwelve := pageNo_add_eq_next espValid (show 12 ≤ 16 by omega)
  unfold bufferCall
  rw [checksFirst_badPointer]
  by_cases passesFour : mem.Valid (esp + 4#32)
  · have two : ∀ ptr ∈ [esp + 4#32, esp], mem.Valid ptr := by
      simp [passesFour, espValid]
    simp only [passesFour, true_implies, checksFirst_deref two, checksFirst_badPointer,
      foundWord_add_iff two (show esp ∈ [esp + 4#32, esp] by simp) (show 8 ≤ 12 by omega)]
    generalize isBuf : mem.word (esp + 8#32) = buf
    simp only [nextSeen_cons, not_nextSeen_nil, nextFour, or_false]
    by_cases passesBuf : mem.Valid buf
    · simp only [passesBuf, true_implies]
      by_cases passesTwelve : mem.Valid (esp + 12#32)
      · have valid : ∀ ptr ∈ [esp + 12#32, buf, esp + 4#32, esp], mem.Valid ptr := by
          simp [passesFour, passesBuf, passesTwelve, espValid]
        have member : esp ∈ [esp + 12#32, buf, esp + 4#32, esp] := by simp
        have bufFound : Found [esp + 12#32, buf, esp + 4#32, esp] buf :=
          ⟨passesBuf.1, passesBuf.2.1, buf, by simp, rfl⟩
        simp only [passesTwelve, true_implies, checksFirst_deref valid, checksFirst_pure,
          isBuf, foundWord_add_iff valid member (show 4 ≤ 12 by omega),
          foundWord_add_iff valid member (show 8 ≤ 12 by omega),
          foundWord_add_iff valid member (show 12 ≤ 12 by omega), nextSeen_cons,
          not_nextSeen_nil, nextFour, nextTwelve, Nat.left_eq_add, one_ne_zero, or_false,
          onlyBuf, List.mem_singleton, forall_eq, bufFound, and_true]
        omega
      have crossing := crosses_of_not_valid espValid (show 12 ≤ 16 by omega) passesTwelve
      simp only [passesTwelve, false_implies, and_true]
      omega
    simp only [passesBuf, false_implies, and_true]
    omega
  have crossing := crosses_of_not_valid espValid (show 4 ≤ 16 by omega) passesFour
  simp only [passesFour, false_implies, true_iff]
  omega

end

end Cases

/-- For every memory, stack pointer and stack contents, the handler follows only checked pointers
exactly when the stack pointer and the arguments are covered. -/
theorem checksFirst_iff_covered (memory : UserMemory) (esp : Word) :
    ChecksFirst [] (syscallHandler memory esp) ↔ Covered memory esp := by
  unfold syscallHandler Covered
  rw [checksFirst_badPointer]
  apply imp_congr_right
  intro espValid
  have valid : ∀ pointer ∈ [esp], memory.Valid pointer := by simpa
  rw [checksFirst_deref valid, foundWord_esp_iff espValid]
  apply and_congr_right
  intro room
  have value : ∀ {call : Word → Syscall}, (∀ value, (call value).pointers = []) →
      (ChecksFirst [esp] (oneValue memory call esp) ↔
        esp.toNat % 4096 ≤ 4088 ∨ esp.toNat % 4096 = 4092) := by
    intro call noPointers
    rw [oneValue_checksFirst espValid noPointers]
    omega
  cases SysNo.ofWord (memory.word esp) with
  | none => simp [checksFirst_pure, Syscall.pointers]
  | some number =>
    cases number with
    | halt => simp [checksFirst_pure, Syscall.pointers]
    | exit => exact value fun _ => rfl
    | exec => exact onePointer_checksFirst espValid fun _ => rfl
    | wait => exact value fun _ => rfl
    | create => exact createCase_checksFirst espValid
    | remove => exact onePointer_checksFirst espValid fun _ => rfl
    | opens => exact onePointer_checksFirst espValid fun _ => rfl
    | filesize => exact value fun _ => rfl
    | read => exact bufferCall_checksFirst espValid room fun _ _ _ => rfl
    | write => exact bufferCall_checksFirst espValid room fun _ _ _ => rfl
    | seek => exact seekCase_checksFirst espValid
    | tell => exact value fun _ => rfl
    | close => exact value fun _ => rfl
    | mmap => simp [checksFirst_pure, Syscall.pointers]
    | munmap => simp [checksFirst_pure, Syscall.pointers]
    | chdir => exact uncheckedPointer_checksFirst espValid fun _ => rfl
    | mkdir => exact uncheckedPointer_checksFirst espValid fun _ => rfl
    | readdir => exact readdirCase_checksFirst espValid
    | isdir => simp [checksFirst_pure, Syscall.pointers]
    | inumber => simp [checksFirst_pure, Syscall.pointers]

/-- A process with one mapped page at the top of user memory that holds the given words, the
first of them at the given address. -/
def topPage (esp number argument : Word) : UserMemory where
  mapped page := page = 0xbffff
  bytes address :=
    let index := (address - esp).toNat
    if index < 4 then wordByte number index else wordByte argument (index - 4)

/-- `chdir` is called with a null pointer. `exec` with the stack pointer at the last word of user
memory loads its argument from kernel memory. -/
theorem not_checksFirst_topPage :
    ((syscallHandler (topPage 0xbffffff8 15 0) 0xbffffff8).ended = .ok (.chdir 0) ∧
      ¬ ChecksFirst [] (syscallHandler (topPage 0xbffffff8 15 0) 0xbffffff8)) ∧
    ((syscallHandler (topPage 0xbffffffc 2 0) 0xbffffffc).events =
        [.checked 0xbffffffc, .loaded 0xbffffffc, .loaded 0xc0000000] ∧
      ¬ ChecksFirst [] (syscallHandler (topPage 0xbffffffc 2 0) 0xbffffffc)) := by
  have chdirNull : (syscallHandler (topPage 0xbffffff8 15 0) 0xbffffff8).ended =
      .ok (.chdir 0) := by decide
  have execTop : (syscallHandler (topPage 0xbffffffc 2 0) 0xbffffffc).events =
      [.checked 0xbffffffc, .loaded 0xbffffffc, .loaded 0xc0000000] := by decide
  refine ⟨⟨chdirNull, ?_⟩, execTop, ?_⟩
  · rintro ⟨_, handed⟩
    exact (handed _ chdirNull 0 (by simp [Syscall.pointers])).1 rfl
  rintro ⟨guarded, _⟩
  have kernel := guarded.2.1 0
  exact absurd kernel.2.1 (by decide)

end Pintos
