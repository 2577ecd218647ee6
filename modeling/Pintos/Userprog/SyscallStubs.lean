import Pintos.Userprog.SyscallHandler

/-!
# The user side of a system call

The functions of `lib/user/syscall.c` push the number of the system call and its
arguments and trap with `int $0x30`. The handler should find on the stack what
they have pushed and call the function that serves the number with the same
arguments in the same order. It does so for most calls. For `readdir`, `isdir`
and `inumber` it takes the address of the descriptor for the descriptor, and a
process that passes a pointer `bad_pointer` rejects is ended instead.

A push reaches the kernel only if the word it writes is memory of the process.
`validate_segment` maps no process the page 0.
-/

namespace Pintos

def SysNo.toWord : SysNo → Word
  | halt => 0 | exit => 1 | exec => 2 | wait => 3 | create => 4 | remove => 5 | opens => 6
  | filesize => 7 | read => 8 | write => 9 | seek => 10 | tell => 11 | close => 12 | mmap => 13
  | munmap => 14 | chdir => 15 | mkdir => 16 | readdir => 17 | isdir => 18 | inumber => 19

@[simp]
lemma SysNo.ofWord_toWord (num : SysNo) : SysNo.ofWord num.toWord = some num := by
  cases num <;> decide

variable {value addr : Word}

namespace UserMemory

def storeWord (memory : UserMemory) (address value : Word) : UserMemory :=
  { memory with
    bytes := fun byte =>
      if (byte - address).toNat < 4 then wordByte value (byte - address).toNat
      else memory.bytes byte }

def Writable (memory : UserMemory) (address : Word) : Prop :=
  ∀ index : Fin 4, 4096 ≤ (address + BitVec.ofNat 32 index).toNat ∧
    (address + BitVec.ofNat 32 index).toNat < physBase ∧
    memory.mapped (pageNo (address + BitVec.ofNat 32 index)) = true
deriving Decidable

variable {memory : UserMemory}

lemma bytes_storeWord (ofs : ℕ) (bound : ofs < 2 ^ 32) :
  (memory.storeWord addr value).bytes (addr + BitVec.ofNat 32 ofs) =
    if ofs < 4 then wordByte value ofs
    else memory.bytes (addr + BitVec.ofNat 32 ofs) := by
  have distance : (addr + BitVec.ofNat 32 ofs - addr).toNat = ofs := by
    rw [BitVec.add_comm, BitVec.add_sub_cancel, BitVec.toNat_ofNat]
    omega
  simp only [storeWord, distance]

@[simp]
lemma word_storeWord_self : (memory.storeWord addr value).word addr = value := by
  refine (wordOfBytes_congr ?_).trans (wordOfBytes_wordByte value)
  intro idx bound
  rw [bytes_storeWord idx (by omega), if_pos bound]

lemma word_storeWord_above {ofs : ℕ} (above : 4 ≤ ofs) (bound : ofs + 4 ≤ 2 ^ 32) :
  (memory.storeWord addr value).word (addr + BitVec.ofNat 32 ofs) =
    memory.word (addr + BitVec.ofNat 32 ofs) := by
  apply wordOfBytes_congr
  intro idx idxBound
  have sum : addr + BitVec.ofNat 32 ofs + BitVec.ofNat 32 idx =
      addr + BitVec.ofNat 32 (ofs + idx) := by
    rw [BitVec.add_assoc, BitVec.ofNat_add_ofNat]
  rw [sum, bytes_storeWord _ (by omega), if_neg (by omega)]

lemma Writable.valid (writable : memory.Writable addr) : memory.Valid addr := by
  have first := writable 0
  simp only [Fin.val_zero, BitVec.add_zero] at first
  refine ⟨?_, first.2⟩
  rintro rfl
  exact absurd first.1 (by decide)

lemma Writable.readable (writable : memory.Writable addr) : memory.Readable addr :=
  fun idx => (writable idx).2.2

end UserMemory

/-- The memory and the stack pointer of a process. -/
structure UserStack where
  memory : UserMemory
  esp : Word

def pushl (value : Word) (stack : UserStack) : Option UserStack :=
  if stack.memory.Writable (stack.esp - 4#32) then
    some
      { memory := stack.memory.storeWord (stack.esp - 4#32) value
        esp := stack.esp - 4#32 }
  else
    none

def pushAll : List Word → UserStack → Option UserStack
  | [], stack => some stack
  | value :: rest, stack => (pushAll rest stack).bind (pushl value)

/-- The number and the arguments the functions of `lib/user/syscall.c` pass to `syscall0` to
`syscall3`. No function stands for `thread_exit`. -/
def Syscall.stub : Syscall → Option (SysNo × List Word)
  | .halt => some (.halt, [])
  | .exit status => some (.exit, [status])
  | .exec file => some (.exec, [file])
  | .wait pid => some (.wait, [pid])
  | .create file initialSize => some (.create, [file, initialSize])
  | .remove file => some (.remove, [file])
  | .opens file => some (.opens, [file])
  | .filesize fd => some (.filesize, [fd])
  | .read fd buffer size => some (.read, [fd, buffer, size])
  | .write fd buffer size => some (.write, [fd, buffer, size])
  | .seek fd position => some (.seek, [fd, position])
  | .tell fd => some (.tell, [fd])
  | .close fd => some (.close, [fd])
  | .chdir dir => some (.chdir, [dir])
  | .mkdir dir => some (.mkdir, [dir])
  | .readdir fd name => some (.readdir, [fd, name])
  | .isdir fd => some (.isdir, [fd])
  | .inumber fd => some (.inumber, [fd])
  | .threadExit => none

/-- The process calls the function with these arguments, which traps; `none` if it does not get
that far. -/
def Syscall.trap (call : Syscall) (stack : UserStack) : Option UserStack :=
  call.stub.bind fun request => pushAll (request.1.toWord :: request.2) stack

def Syscall.isVoid : Syscall → Bool
  | .halt | .exit _ | .seek _ _ | .close _ | .threadExit => true
  | .exec _ | .wait _ | .create _ _ | .remove _ | .opens _ | .filesize _ | .read _ _ _
  | .write _ _ _ | .tell _ | .chdir _ | .mkdir _ | .readdir _ _ | .isdir _ | .inumber _ => false

def Syscall.eaxAfter (result eax : Word) : Syscall → Word
  | .halt => eax
  | .exit _ => eax
  | .exec _ => result
  | .wait _ => result
  | .create _ _ => result
  | .remove _ => result
  | .opens _ => result
  | .filesize _ => result
  | .read _ _ _ => result
  | .write _ _ _ => result
  | .seek _ _ => eax
  | .tell _ => result
  | .close _ => eax
  | .chdir _ => result
  | .mkdir _ => result
  | .readdir _ _ => result
  | .isdir _ => result
  | .inumber _ => result
  | .threadExit => eax

/-- The handler calls the function the process has called, with the arguments it has passed, and
returns its result if it has one. -/
def Dispatches (trapped : UserStack) (call : Syscall) : Prop :=
  (syscallHandler trapped.memory trapped.esp).ended = .ok call ∧
    (call.isVoid = false → ∀ result eax, call.eaxAfter result eax = result)

def StubAgrees (stack : UserStack) (call : Syscall) : Prop :=
  ∀ trapped, call.trap stack = some trapped → Dispatches trapped call

/-- The pointer is one `bad_pointer` accepts, and a descriptor of which the handler passes the
address is that address. -/
def Syscall.PassedOn (stack : UserStack) : Syscall → Prop
  | .exec pointer | .create pointer _ | .remove pointer | .opens pointer | .read _ pointer _
  | .write _ pointer _ => stack.memory.Valid pointer
  | .readdir fd _ => fd = stack.esp - 8#32
  | .isdir fd | .inumber fd => fd = stack.esp - 4#32
  | .halt | .exit _ | .wait _ | .filesize _ | .seek _ _ | .tell _ | .close _ | .chdir _ | .mkdir _
  | .threadExit => True

variable {stack trapped : UserStack}

section Pushing

lemma pushl_eq_some (pushed : pushl value stack = some trapped) :
  stack.memory.Writable (stack.esp - 4#32) ∧
    trapped = ⟨stack.memory.storeWord (stack.esp - 4#32) value, stack.esp - 4#32⟩ := by
  unfold pushl at pushed
  split at pushed
  · next writable =>
      cases pushed
      exact ⟨writable, rfl⟩
  · cases pushed

lemma pushAll_eq_some {values : List Word} (short : values.length ≤ 4)
  (pushed : pushAll values stack = some trapped) : trapped.memory.mapped = stack.memory.mapped ∧
    trapped.esp + BitVec.ofNat 32 (4 * values.length) = stack.esp ∧
    ∀ idx (bound : idx < values.length),
      trapped.memory.Writable (trapped.esp + BitVec.ofNat 32 (4 * idx)) ∧
        trapped.memory.word (trapped.esp + BitVec.ofNat 32 (4 * idx)) = values[idx] := by
  induction values generalizing trapped with
  | nil =>
    cases pushed
    simp
  | cons value rest ih =>
    simp only [List.length_cons] at short
    rcases Option.bind_eq_some_iff.mp pushed with ⟨mid, pushedRest, pushedVal⟩
    rcases ih (by omega) pushedRest with ⟨mapped, esp, words⟩
    rcases pushl_eq_some pushedVal with ⟨writable, rfl⟩
    have shift : ∀ idx : ℕ, mid.esp - 4#32 + BitVec.ofNat 32 (4 * (idx + 1)) =
        mid.esp + BitVec.ofNat 32 (4 * idx) := by
      intro idx
      have next : BitVec.ofNat 32 (4 * (idx + 1)) = 4#32 + BitVec.ofNat 32 (4 * idx) := by
        rw [Nat.mul_add, Nat.add_comm, BitVec.ofNat_add]
      rw [next, ← BitVec.add_assoc, BitVec.sub_add_cancel]
    refine ⟨mapped, ?_, ?_⟩
    · rw [List.length_cons, shift, esp]
    intro idx bound
    cases idx with
    | zero =>
      simp only [Nat.mul_zero, BitVec.add_zero]
      exact ⟨writable, UserMemory.word_storeWord_self⟩
    | succ idx =>
      simp only [List.length_cons] at bound
      rcases words idx (by omega) with ⟨isWritable, isWord⟩
      rw [UserMemory.word_storeWord_above (by omega) (by omega), shift, isWord]
      exact ⟨isWritable, rfl⟩

end Pushing

section Dispatch

variable {memory : UserMemory} {esp : Word} {Value : Type} {call : Syscall}

lemma ended_badPointer (ptr : Word) (next : Unit → Handler Value) :
  (badPointer memory ptr >>= next).ended =
    if memory.Valid ptr then (next ()).ended else .error .threadExit := by
  unfold badPointer
  split
  · rfl
  · rfl

lemma ended_deref (writable : memory.Writable addr) (next : Word → Handler Value) :
  (deref memory addr >>= next).ended = (next (memory.word addr)).ended := by
  unfold deref
  rw [if_pos writable.readable]
  rfl

lemma ended_oneValue (call : Word → Syscall) (writable : memory.Writable (esp + 4#32)) :
  (oneValue memory call esp).ended = .ok (call (memory.word (esp + 4#32))) := by
  unfold oneValue
  rw [ended_badPointer, if_pos writable.valid, ended_deref writable]
  rfl

lemma ended_onePointer (call : Word → Syscall) (writable : memory.Writable (esp + 4#32)) :
  (onePointer memory call esp).ended =
    if memory.Valid (memory.word (esp + 4#32)) then .ok (call (memory.word (esp + 4#32)))
    else .error .threadExit := by
  unfold onePointer
  rw [ended_deref writable, ended_badPointer, ended_deref writable]
  rfl

lemma ended_uncheckedPointer (call : Word → Syscall) (writable : memory.Writable (esp + 4#32)) :
  (uncheckedPointer memory call esp).ended = .ok (call (memory.word (esp + 4#32))) := by
  unfold uncheckedPointer
  rw [ended_deref writable]
  rfl

lemma ended_createCase (first : memory.Writable (esp + 4#32))
  (second : memory.Writable (esp + 8#32)) : (createCase memory esp).ended =
    if memory.Valid (memory.word (esp + 4#32)) then
      .ok (.create (memory.word (esp + 4#32)) (memory.word (esp + 8#32)))
    else .error .threadExit := by
  unfold createCase
  rw [ended_deref first, ended_badPointer, ended_badPointer, if_pos second.valid,
    ended_deref first, ended_deref second]
  rfl

lemma ended_seekCase (first : memory.Writable (esp + 4#32))
  (second : memory.Writable (esp + 8#32)) : (seekCase memory esp).ended =
    .ok (.seek (memory.word (esp + 4#32)) (memory.word (esp + 8#32))) := by
  unfold seekCase
  rw [ended_badPointer, if_pos first.valid, ended_badPointer, if_pos second.valid,
    ended_deref first, ended_deref second]
  rfl

lemma ended_readdirCase (second : memory.Writable (esp + 8#32)) :
  (readdirCase memory esp).ended = .ok (.readdir (esp + 4#32) (memory.word (esp + 8#32))) := by
  unfold readdirCase
  rw [ended_deref second]
  rfl

lemma ended_bufferCall (call : Word → Word → Word → Syscall)
  (first : memory.Writable (esp + 4#32)) (second : memory.Writable (esp + 8#32))
  (third : memory.Writable (esp + 12#32)) : (bufferCall memory call esp).ended =
    if memory.Valid (memory.word (esp + 8#32)) then
      .ok (call (memory.word (esp + 4#32)) (memory.word (esp + 8#32))
        (memory.word (esp + 12#32)))
    else .error .threadExit := by
  unfold bufferCall
  rw [ended_badPointer, if_pos first.valid, ended_deref second, ended_badPointer,
    ended_badPointer, if_pos third.valid, ended_deref first, ended_deref second,
    ended_deref third]
  rfl

lemma trap_eq_some {num : SysNo} {arguments : List Word}
  (isStub : call.stub = some (num, arguments)) (short : arguments.length ≤ 3)
  (traps : call.trap stack = some trapped) : trapped.memory.mapped = stack.memory.mapped ∧
    trapped.esp + BitVec.ofNat 32 (4 * (arguments.length + 1)) = stack.esp ∧
    trapped.memory.Writable trapped.esp ∧ trapped.memory.word trapped.esp = num.toWord ∧
    ∀ idx (bound : idx < arguments.length),
      trapped.memory.Writable (trapped.esp + BitVec.ofNat 32 (4 * (idx + 1))) ∧
        trapped.memory.word (trapped.esp + BitVec.ofNat 32 (4 * (idx + 1))) =
          arguments[idx] := by
  unfold Syscall.trap at traps
  rw [isStub] at traps
  rcases pushAll_eq_some (by simp only [List.length_cons]; omega) traps with ⟨mapped, isEsp, words⟩
  have top := words 0 (by simp)
  simp only [Nat.mul_zero, BitVec.add_zero] at top
  refine ⟨mapped, isEsp, top.1, top.2, ?_⟩
  intro idx bound
  exact words (idx + 1) (by simpa using bound)

lemma UserMemory.valid_congr {left right : UserMemory} (mapped : left.mapped = right.mapped)
  (ptr : Word) : left.Valid ptr ↔ right.Valid ptr := by
  rw [UserMemory.Valid, UserMemory.Valid, mapped]

lemma dispatches_iff_ended (trapped : UserStack) (call : Syscall) :
  Dispatches trapped call ↔ (syscallHandler trapped.memory trapped.esp).ended = .ok call := by
  refine ⟨And.left, fun ended => ⟨ended, ?_⟩⟩
  intro hasRes res eax
  cases call <;> first | rfl | cases hasRes

lemma ended_iff_passedOn (traps : call.trap stack = some trapped) :
  (syscallHandler trapped.memory trapped.esp).ended = .ok call ↔ call.PassedOn stack := by
  cases isStub : call.stub with
  | none => simp [Syscall.trap, isStub] at traps
  | some req =>
    rcases req with ⟨num, arguments⟩
    have short : arguments.length ≤ 3 := by
      cases call <;> cases isStub <;> simp
    rcases trap_eq_some isStub short traps with ⟨mapped, isEsp, top, isNum, words⟩
    unfold syscallHandler
    rw [ended_badPointer, if_pos top.valid, ended_deref top, isNum]
    have oneArg : ∀ first, arguments = [first] → trapped.memory.Writable (trapped.esp + 4#32) ∧
          trapped.memory.word (trapped.esp + 4#32) = first := by
      rintro first rfl
      exact words 0 (by simp)
    have twoArguments : ∀ first second, arguments = [first, second] →
        trapped.memory.Writable (trapped.esp + 4#32) ∧
          trapped.memory.word (trapped.esp + 4#32) = first ∧
          trapped.memory.Writable (trapped.esp + 8#32) ∧
          trapped.memory.word (trapped.esp + 8#32) = second := by
      rintro first second rfl
      exact ⟨(words 0 (by simp)).1, (words 0 (by simp)).2, words 1 (by simp)⟩
    have threeArguments : ∀ first second third, arguments = [first, second, third] →
        trapped.memory.Writable (trapped.esp + 4#32) ∧
          trapped.memory.word (trapped.esp + 4#32) = first ∧
          trapped.memory.Writable (trapped.esp + 8#32) ∧
          trapped.memory.word (trapped.esp + 8#32) = second ∧
          trapped.memory.Writable (trapped.esp + 12#32) ∧
          trapped.memory.word (trapped.esp + 12#32) = third := by
      rintro first second third rfl
      exact ⟨(words 0 (by simp)).1, (words 0 (by simp)).2, (words 1 (by simp)).1,
        (words 1 (by simp)).2, words 2 (by simp)⟩
    cases call with
    | halt =>
      cases isStub
      exact iff_of_true rfl trivial
    | exit status =>
      cases isStub
      rcases oneArg status rfl with ⟨writable, isStatus⟩
      simp [ended_oneValue _ writable, isStatus, Syscall.PassedOn]
    | exec file =>
      cases isStub
      rcases oneArg file rfl with ⟨writable, isFile⟩
      simp [ended_onePointer _ writable, isFile, Syscall.PassedOn, UserMemory.valid_congr mapped]
    | wait pid =>
      cases isStub
      rcases oneArg pid rfl with ⟨writable, isPid⟩
      simp [ended_oneValue _ writable, isPid, Syscall.PassedOn]
    | create file initSize =>
      cases isStub
      rcases twoArguments file initSize rfl with ⟨first, isFile, second, isSize⟩
      simp [ended_createCase first second, isFile, isSize, Syscall.PassedOn,
        UserMemory.valid_congr mapped]
    | remove file =>
      cases isStub
      rcases oneArg file rfl with ⟨writable, isFile⟩
      simp [ended_onePointer _ writable, isFile, Syscall.PassedOn, UserMemory.valid_congr mapped]
    | opens file =>
      cases isStub
      rcases oneArg file rfl with ⟨writable, isFile⟩
      simp [ended_onePointer _ writable, isFile, Syscall.PassedOn, UserMemory.valid_congr mapped]
    | filesize fd =>
      cases isStub
      rcases oneArg fd rfl with ⟨writable, isFd⟩
      simp [ended_oneValue _ writable, isFd, Syscall.PassedOn]
    | read fd buf size =>
      cases isStub
      rcases threeArguments fd buf size rfl with
        ⟨first, isFd, second, isBuf, third, isSize⟩
      simp [ended_bufferCall _ first second third, isFd, isBuf, isSize, Syscall.PassedOn,
        UserMemory.valid_congr mapped]
    | write fd buf size =>
      cases isStub
      rcases threeArguments fd buf size rfl with
        ⟨first, isFd, second, isBuf, third, isSize⟩
      simp [ended_bufferCall _ first second third, isFd, isBuf, isSize, Syscall.PassedOn,
        UserMemory.valid_congr mapped]
    | seek fd posn =>
      cases isStub
      rcases twoArguments fd posn rfl with ⟨first, isFd, second, isPosn⟩
      simp [ended_seekCase first second, isFd, isPosn, Syscall.PassedOn]
    | tell fd =>
      cases isStub
      rcases oneArg fd rfl with ⟨writable, isFd⟩
      simp [ended_oneValue _ writable, isFd, Syscall.PassedOn]
    | close fd =>
      cases isStub
      rcases oneArg fd rfl with ⟨writable, isFd⟩
      simp [ended_oneValue _ writable, isFd, Syscall.PassedOn]
    | chdir dir =>
      cases isStub
      rcases oneArg dir rfl with ⟨writable, isDir⟩
      simp [ended_uncheckedPointer _ writable, isDir, Syscall.PassedOn]
    | mkdir dir =>
      cases isStub
      rcases oneArg dir rfl with ⟨writable, isDir⟩
      simp [ended_uncheckedPointer _ writable, isDir, Syscall.PassedOn]
    | readdir fd name =>
      cases isStub
      rcases twoArguments fd name rfl with ⟨_, _, second, isName⟩
      have isAddr : trapped.esp + 4#32 = stack.esp - 8#32 := by
        rw [← isEsp]
        exact (BitVec.eq_sub_iff_add_eq.mpr (by rw [BitVec.add_assoc]; rfl))
      simp [ended_readdirCase second, isName, Syscall.PassedOn, isAddr, eq_comm]
    | isdir fd =>
      cases isStub
      have isAddr : trapped.esp + 4#32 = stack.esp - 4#32 := by
        rw [← isEsp]
        exact (BitVec.eq_sub_iff_add_eq.mpr (by rw [BitVec.add_assoc]; rfl))
      change Except.ok (Syscall.isdir (trapped.esp + 4#32)) = _ ↔ _
      simp [Syscall.PassedOn, isAddr, eq_comm]
    | inumber fd =>
      cases isStub
      have isAddr : trapped.esp + 4#32 = stack.esp - 4#32 := by
        rw [← isEsp]
        exact (BitVec.eq_sub_iff_add_eq.mpr (by rw [BitVec.add_assoc]; rfl))
      change Except.ok (Syscall.inumber (trapped.esp + 4#32)) = _ ↔ _
      simp [Syscall.PassedOn, isAddr, eq_comm]
    | threadExit => cases isStub

/-- The stub and the handler agree exactly on the calls whose pointer `bad_pointer` accepts and
whose descriptor is passed as such. -/
theorem stubAgrees_iff (stack : UserStack) (call : Syscall) :
    StubAgrees stack call ↔ (call.trap stack ≠ none → call.PassedOn stack) := by
  constructor
  · intro agrees reaches
    rcases Option.ne_none_iff_exists'.mp reaches with ⟨trapped, traps⟩
    exact (ended_iff_passedOn traps).mp (agrees trapped traps).1
  intro passedOn trapped traps
  rw [dispatches_iff_ended, ended_iff_passedOn traps]
  exact passedOn (by simp [traps])

def freshStack : UserStack where
  memory := { mapped := fun page => page = 0xbffff, bytes := fun _ => 0 }
  esp := 0xc0000000#32

/-- `isdir (2)` asks about the descriptor `0xbffffffc`. -/
theorem not_stubAgrees_isdir : ¬ StubAgrees freshStack (.isdir 2) := by
  intro agrees
  have reaches : (Syscall.trap (.isdir 2) freshStack).isSome := by decide
  rcases Option.isSome_iff_exists.mp reaches with ⟨trapped, traps⟩
  have passedOn : (2 : Word) = 0xc0000000#32 - 4#32 :=
    (ended_iff_passedOn traps).mp (agrees trapped traps).1
  exact absurd passedOn (by decide)

end Dispatch

end Pintos
