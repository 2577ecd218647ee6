import Pintos.Userprog.LoadSegments

/-!
# The initial stack

`setup_stack` maps a page at the top of user memory and pushes the command line onto it. It
goes on when there is no page for the stack or the page cannot be mapped, and then stores
below the stack pointer that `start_process` has cleared. It checks neither how much of the
stack of the thread its copy of the line takes, nor how many words the line has before it
stores them, nor how much of the page they take.

Each function below fits the stack page and the two arrays under a condition that is computed
from its arguments. Together they give the exact condition for the whole of it.
-/

namespace Pintos.Loader

open Pintos.Computation Observed Palloc Paging

/-- What a safe call of `setup_stack` does: stores into the stack page, uses of the elements
that the arrays have, and a copy of the line that the stack of the thread has room for. -/
def Event.InStackPage : Event → Prop
  | .store address => physBase - pgSize ≤ address ∧ address < physBase
  | .index count => count < 130
  | .copy length room => length < room
  | _ => True

def AtDepth (myEsp : Word) (depth : ℕ) : Prop := myEsp.toNat + depth = 0xc0000000

def StackMapped (pd : Word) (state : Loading) : Prop :=
  ∀ address, physBase - pgSize ≤ address → address < physBase →
    (∃ page, frameOf (state.memory.pte pd address) = some page) ∧
      state.memory.pte pd address &&& pteW ≠ 0

section Pushing

variable {pd myEsp : Word} {depth : ℕ} {state : Loading}

lemma AtDepth.sub (atDepth : AtDepth myEsp depth) (count : ℕ)
  (inUser : depth + count ≤ 0xc0000000) :
  AtDepth (myEsp - BitVec.ofNat 32 count) (depth + count) := by
  have isDepth : myEsp.toNat + depth = 0xc0000000 := atDepth
  have num : (BitVec.ofNat 32 count).toNat = count := by
    rw [BitVec.toNat_ofNat]
    omega
  have isLe : BitVec.ofNat 32 count ≤ myEsp := by
    rw [BitVec.le_def]
    omega
  rw [AtDepth, BitVec.toNat_sub_of_le isLe]
  omega

lemma AtDepth.add (atDepth : AtDepth myEsp depth) (cnt : ℕ) (isLe : cnt ≤ depth) :
  AtDepth (myEsp + BitVec.ofNat 32 cnt) (depth - cnt) := by
  have isDepth : myEsp.toNat + depth = 0xc0000000 := atDepth
  rw [AtDepth, BitVec.toNat_add, BitVec.toNat_ofNat]
  omega

lemma AtDepth.inStackPage_iff (atDepth : AtDepth myEsp depth) :
  Event.InStackPage (.store myEsp) ↔ 0 < depth ∧ depth ≤ 4096 := by
  have isDepth : myEsp.toNat + depth = 0xc0000000 := atDepth
  change 0xbffff000 ≤ myEsp.toNat ∧ myEsp.toNat < 0xc0000000 ↔ _
  omega

section

variable (mapped : StackMapped pd state)
include mapped

lemma storeByte_decides (addr : Word) (byte : Byte) :
  Decides (Event.InStackPage (.store addr)) Event.InStackPage (storeByte pd addr byte) state
    fun _ after => StackMapped pd after := by
  refine .bind_true (.emit fun inPage => ?_)
  rcases mapped addr inPage.1 inPage.2 with ⟨⟨page, isFrame⟩, isWritable⟩
  refine .true_bind (.reads ?_)
  rw [isFrame]
  simp only
  rw [if_neg isWritable]
  exact .updates mapped

section

variable (atDepth : AtDepth myEsp depth) (onStack : depth ≤ 4096)

include atDepth onStack

lemma pushBytes_decides (bytes : List Byte) :
  Decides (depth + bytes.length ≤ 4096) Event.InStackPage (pushBytes pd myEsp bytes) state
    fun last after => AtDepth last (depth + bytes.length) ∧ StackMapped pd after := by
  induction bytes generalizing myEsp depth state with
  | nil => exact (Decides.pure ⟨atDepth, mapped⟩).congr (iff_of_true trivial onStack)
  | cons byte rest ih =>
    have next : AtDepth (myEsp - 1) (depth + 1) := atDepth.sub 1 (by omega)
    rw [List.length_cons, Nat.add_comm rest.length 1, ← Nat.add_assoc]
    refine Decides.congr (.bind ((storeByte_decides mapped (myEsp - 1) byte).mono ?_))
      (show Event.InStackPage (.store (myEsp - 1)) ∧ depth + 1 + rest.length ≤ 4096 ↔ _ from ?_)
    · intro inPage _ after mappedAfter
      exact ih mappedAfter next (next.inStackPage_iff.mp inPage).2
    rw [next.inStackPage_iff]
    omega

lemma pushCharacter_decides (byte : Byte) :
  Decides (depth + 4 ≤ 4096) Event.InStackPage (pushCharacter pd myEsp byte) state
    fun last after => AtDepth last (depth + 4) ∧ StackMapped pd after := by
  have next : AtDepth (myEsp - 4) (depth + 4) := atDepth.sub 4 (by omega)
  refine Decides.congr (.bind_true ((storeByte_decides mapped (myEsp - 4) byte).mono ?_)) ?_
  · intro _ _ after mappedAfter
    exact .pure ⟨next, mappedAfter⟩
  rw [next.inStackPage_iff]
  omega

lemma pushPointer_decides (ptr : Word) :
  Decides (depth + 4 ≤ 4096) Event.InStackPage (pushPointer pd myEsp ptr) state
    fun last after => AtDepth last (depth + 4) ∧ StackMapped pd after := by
  have next : AtDepth (myEsp - 4) (depth + 4) := atDepth.sub 4 (by omega)
  have second : AtDepth (myEsp - 4 + 1) (depth + 4 - 1) := next.add 1 (by omega)
  have third : AtDepth (myEsp - 4 + 2) (depth + 4 - 2) := next.add 2 (by omega)
  have fourth : AtDepth (myEsp - 4 + 3) (depth + 4 - 3) := next.add 3 (by omega)
  refine Decides.congr (.bind_true ((storeByte_decides mapped (myEsp - 4) _).mono ?_)) ?_
  · intro inPage _ afterFirst mappedFirst
    have fits := (next.inStackPage_iff.mp inPage).2
    have above : ∀ {addr : Word} {below : ℕ}, AtDepth addr below → 0 < below → below ≤ 4096 →
        (True ↔ Event.InStackPage (.store addr)) := by
      intro addr below isBelow pos inside
      exact iff_of_true trivial (isBelow.inStackPage_iff.mpr ⟨pos, inside⟩)
    refine .bind_true (((storeByte_decides mappedFirst (myEsp - 4 + 1) _).mono ?_).congr
      (above second (by omega) (by omega)).symm)
    intro _ _ afterSecond mappedSecond
    refine .bind_true (((storeByte_decides mappedSecond (myEsp - 4 + 2) _).mono ?_).congr
      (above third (by omega) (by omega)).symm)
    intro _ _ afterThird mappedThird
    refine .bind_true (((storeByte_decides mappedThird (myEsp - 4 + 3) _).mono ?_).congr
      (above fourth (by omega) (by omega)).symm)
    intro _ _ afterFourth mappedFourth
    exact .pure ⟨next, mappedFourth⟩
  rw [next.inStackPage_iff]
  omega

end

end

lemma useIndex_decides (cnt : ℕ) :
  Decides (cnt < 130) Event.InStackPage (useIndex cnt) state fun _ after => after = state := by
  change Decides (Event.InStackPage (.index cnt)) _ _ _ _
  refine .bind_true (.emit fun inArray => ?_)
  have isIdx : cnt < 130 := inArray
  rw [if_pos isIdx]
  exact .pure rfl

lemma copyLine_decides (room : ℕ) (line : List Byte) :
  Decides (line.length < room) Event.InStackPage (copyLine room line) state
    fun _ after => after = state := by
  change Decides (Event.InStackPage (.copy line.length room)) _ _ _ _
  refine .bind_true (.emit fun isAllowed => ?_)
  have hasRoom : line.length < room := isAllowed
  rw [if_pos hasRoom]
  exact .pure rfl

lemma collectArgs_decides {cnt : ℕ} (inArray : cnt ≤ 130) (tokens : List (List Byte)) :
  Decides (cnt + tokens.length ≤ 130) Event.InStackPage (collectArgs cnt tokens) state
    fun _ after => after = state := by
  induction tokens generalizing cnt with
  | nil =>
    refine Decides.congr (.pure ?_) (iff_of_true trivial inArray)
    rfl
  | cons token rest ih =>
    refine Decides.congr (.bind ((useIndex_decides cnt).mono ?_))
      (show cnt < 130 ∧ cnt + 1 + rest.length ≤ 130 ↔ _ from ?_)
    · rintro isIdx _ _ rfl
      refine .true_bind ?_
      rw [assert, if_pos inArray]
      exact .pure (ih isIdx)
    rw [List.length_cons]
    omega

def argSize (tokens : List (List Byte)) : ℕ := (tokens.map fun token => token.length + 1).sum

lemma pushArgs_decides (mapped : StackMapped pd state) (atDepth : AtDepth myEsp depth)
  (onStack : depth ≤ 4096) (tokens : List (List Byte)) :
  Decides (tokens.length ≤ 130 ∧ depth + argSize tokens ≤ 4096) Event.InStackPage
    (pushArgs pd myEsp tokens) state
    fun res after => AtDepth res.1 (depth + argSize tokens) ∧
      res.2.length = tokens.length ∧ StackMapped pd after := by
  induction tokens generalizing myEsp depth state with
  | nil =>
    exact (Decides.pure ⟨atDepth, rfl, mapped⟩).congr
      (iff_of_true trivial ⟨by simp, onStack⟩)
  | cons token rest ih =>
    have size : argSize (token :: rest) = token.length + 1 + argSize rest := by
      rw [argSize, List.map_cons, List.sum_cons, argSize]
    have pushed : (0 :: token.reverse).length = token.length + 1 := by simp
    have same : (rest.length < 130 ∧ depth + (0 :: token.reverse).length ≤ 4096 ∧
        rest.length < 130 ∧ rest.length ≤ 130 ∧
          depth + (0 :: token.reverse).length + argSize rest ≤ 4096) ↔
        (token :: rest).length ≤ 130 ∧ depth + argSize (token :: rest) ≤ 4096 := by
      rw [pushed, List.length_cons]
      omega
    refine Decides.congr (.bind ((useIndex_decides rest.length).mono ?_)) same
    rintro _ _ _ rfl
    refine .bind ((pushBytes_decides mapped atDepth onStack _).mono ?_)
    rintro inPage next after ⟨atNext, mappedAfter⟩
    refine .bind ((useIndex_decides rest.length).mono ?_)
    rintro _ _ _ rfl
    refine .bind_true ((ih mappedAfter atNext inPage).mono ?_)
    rintro _ ⟨last, addrs⟩ final ⟨atLast, sameLen, mappedFinal⟩
    refine .pure ⟨?_, ?_, mappedFinal⟩
    · rw [size]
      rwa [pushed, Nat.add_assoc] at atLast
    · rw [List.length_cons, List.length_cons, sameLen]

lemma pushPointers_decides (mapped : StackMapped pd state) (atDepth : AtDepth myEsp depth)
  (onStack : depth ≤ 4096) (addrs : List Word) :
  Decides (addrs.length ≤ 130 ∧ depth + 4 * addrs.length ≤ 4096) Event.InStackPage
    (pushPointers pd myEsp addrs) state
    fun last after => AtDepth last (depth + 4 * addrs.length) ∧ StackMapped pd after := by
  induction addrs generalizing myEsp depth state with
  | nil => exact (Decides.pure ⟨atDepth, mapped⟩).congr (iff_of_true trivial ⟨by simp, onStack⟩)
  | cons addr rest ih =>
    have same : (rest.length < 130 ∧ depth + 4 ≤ 4096 ∧ rest.length ≤ 130 ∧
        depth + 4 + 4 * rest.length ≤ 4096) ↔
        (addr :: rest).length ≤ 130 ∧ depth + 4 * (addr :: rest).length ≤ 4096 := by
      rw [List.length_cons]
      omega
    refine Decides.congr (.bind ((useIndex_decides rest.length).mono ?_)) same
    rintro _ _ _ rfl
    refine .bind ((pushPointer_decides mapped atDepth onStack addr).mono ?_)
    rintro inPage next after ⟨atNext, mappedAfter⟩
    refine (ih mappedAfter atNext inPage).mono ?_
    rintro _ last final ⟨atLast, mappedFinal⟩
    refine ⟨?_, mappedFinal⟩
    have total : depth + 4 + 4 * rest.length = depth + 4 * (addr :: rest).length := by
      rw [List.length_cons]
      omega
    rwa [total] at atLast

lemma AtDepth.align_eq (atDepth : AtDepth myEsp depth) (onStack : depth ≤ 4096) :
  (myEsp.toInt.tmod 4 + 4).toNat = 4 - depth % 4 := by
  have isDepth : myEsp.toNat + depth = 0xc0000000 := atDepth
  have isInt : myEsp.toInt = -((0x40000000 + depth : ℕ) : ℤ) := by
    rw [BitVec.toInt_eq_toNat_cond]
    omega
  have remainder : ((0x40000000 + depth : ℕ) : ℤ).tmod 4 = (((0x40000000 + depth) % 4 : ℕ) : ℤ) :=
    (Int.ofNat_tmod _ 4).symm
  rw [isInt, Int.neg_tmod]
  omega

def alignedSize (tokens : List (List Byte)) : ℕ := argSize tokens + (4 - argSize tokens % 4)

/-- The bytes that `setup_stack` pushes: the arguments, the alignment, a null pointer, the addresses
of the arguments, and three more words. -/
def stackSize (tokens : List (List Byte)) : ℕ := alignedSize tokens + 4 + 4 * tokens.length + 12

lemma argSize_reverse (tokens : List (List Byte)) : argSize tokens.reverse = argSize tokens := by
  rw [argSize, List.map_reverse, List.sum_reverse, argSize]

lemma pushLine_decides (mapped : StackMapped pd state) (tokens : List (List Byte)) (ret : Word) :
  Decides (tokens.length ≤ 130 ∧ stackSize tokens ≤ 4096) Event.InStackPage
    (pushLine pd tokens ret physBase) state fun _ _ => True := by
  have atTop : AtDepth physBase 0 := rfl
  have same : ((tokens.reverse.length ≤ 130 ∧ 0 + argSize tokens.reverse ≤ 4096) ∧
      alignedSize tokens ≤ 4096 ∧ alignedSize tokens + 4 ≤ 4096 ∧
      (tokens.length ≤ 130 ∧ alignedSize tokens + 4 + 4 * tokens.length ≤ 4096) ∧
      alignedSize tokens + 4 + 4 * tokens.length + 4 ≤ 4096 ∧
      alignedSize tokens + 4 + 4 * tokens.length + 4 + 4 ≤ 4096 ∧
      alignedSize tokens + 4 + 4 * tokens.length + 4 + 4 + 4 ≤ 4096) ↔
      tokens.length ≤ 130 ∧ stackSize tokens ≤ 4096 := by
    rw [argSize_reverse, List.length_reverse, stackSize, alignedSize]
    omega
  refine Decides.congr (.bind ((pushArgs_decides mapped atTop (Nat.zero_le _) _).mono ?_)) same
  rintro ⟨_, argsFit⟩ ⟨argsEsp, whereArgs⟩ afterArgs ⟨atArgs, sameLen, mappedArgs⟩
  rw [Nat.zero_add] at atArgs argsFit
  have pushed : argSize tokens.reverse +
      (List.replicate (argsEsp.toInt.tmod 4 + 4).toNat (0 : Byte)).length = alignedSize tokens := by
    rw [List.length_replicate, atArgs.align_eq argsFit, argSize_reverse, alignedSize]
  have aligns := pushBytes_decides mappedArgs atArgs argsFit
    (List.replicate (argsEsp.toInt.tmod 4 + 4).toNat 0)
  rw [pushed] at aligns
  refine .bind (aligns.mono ?_)
  rintro alignFits alignEsp afterAlign ⟨atAlign, mappedAlign⟩
  refine .bind ((pushCharacter_decides mappedAlign atAlign alignFits 0).mono ?_)
  rintro zeroFits zeroEsp afterZero ⟨atZero, mappedZero⟩
  have points := pushPointers_decides mappedZero atZero zeroFits whereArgs
  have sameCnt := sameLen.trans List.length_reverse
  rw [sameCnt] at points
  refine .bind (points.mono ?_)
  rintro ⟨_, startFits⟩ start afterStart ⟨atStart, mappedStart⟩
  refine .bind ((pushPointer_decides mappedStart atStart startFits start).mono ?_)
  rintro argvFits argvEsp afterArgv ⟨atArgv, mappedArgv⟩
  refine .bind ((pushCharacter_decides mappedArgv atArgv argvFits _).mono ?_)
  rintro argcFits argcEsp afterArgc ⟨atArgc, mappedArgc⟩
  exact (pushCharacter_decides mappedArgc atArgc argcFits _).mono fun _ _ _ _ => trivial

end Pushing

variable {memory : Memory}

section Mapping

variable {pd kpage : Word} {state : Loading} {after : Memory}

lemma pgNo_eq_of_stack {addr : Word} (low : physBase - pgSize ≤ addr)
  (high : addr < physBase) : pgNo addr = pgNo (physBase - pgSize) := by
  have isLow : 0xbffff000 ≤ addr.toNat := low
  have isHigh : addr.toNat < 0xc0000000 := high
  have top : (pgNo (physBase - pgSize)).toNat = 0xbffff := by decide
  rw [← BitVec.toNat_inj, pgNo_toNat]
  omega

/-- There is a page for the stack, nothing is mapped at its place, and the directory has a page
table for it or there is another page to make one. -/
def StackAvailable (memory : Memory) (pd : Word) : Prop :=
  ∃ kpage, memory.Offers kpage ∧ frameOf (memory.pte pd (physBase - pgSize)) = none ∧
    (memory.tables pd (pdNo (physBase - pgSize)) ≠ 0 ∨
      ∃ pt, memory.answers 1 = some pt ∧ memory.IsPage pt ∧ memory.inUse pt = false ∧ pt ≠ kpage)

lemma offers_iff (gets : pallocGetPage true memory = .ok (some kpage, after)) (page : Word) :
  after.Offers page ↔ memory.answers 1 = some page ∧ memory.IsPage page ∧
    memory.inUse page = false ∧ page ≠ kpage := by
  rcases pallocGetPage_cases true memory with ⟨_, ran⟩ | ⟨found, offers, ran⟩
  · rw [ran] at gets
    cases gets
  rw [ran] at gets
  cases gets
  change memory.answers 1 = some page ∧ memory.IsPage page ∧
    Function.update memory.inUse kpage true page = false ↔ _
  by_cases same : page = kpage
  · rw [same]
    simp
  simp [same]

lemma stackAvailable_iff (offers : memory.Offers kpage)
  (gets : pallocGetPage true memory = .ok (some kpage, after)) :
  StackAvailable memory pd ↔ frameOf (memory.pte pd (physBase - pgSize)) = none ∧
    (memory.tables pd (pdNo (physBase - pgSize)) ≠ 0 ∨ ∃ page, after.Offers page) := by
  refine ⟨?_, ?_⟩
  · rintro ⟨found, offersFound, isFree, hasTable⟩
    have same : found = kpage := Option.some.inj (offersFound.1.symm.trans offers.1)
    subst same
    exact ⟨isFree, hasTable.imp_right fun ⟨pt, isNext⟩ => ⟨pt, (offers_iff gets pt).mpr isNext⟩⟩
  rintro ⟨isFree, hasTable⟩
  exact ⟨kpage, offers, isFree,
    hasTable.imp_right fun ⟨pt, isNext⟩ => ⟨pt, (offers_iff gets pt).mp isNext⟩⟩

lemma installStack_decides (dir : Directory state.memory pd)
  (isPage : state.memory.IsPage kpage) :
  Decides True Event.InStackPage (installPage pd (physBase - pgSize) kpage true) state
    fun success after => state.memory.Grows after.memory ∧
      (success = true ↔ frameOf (state.memory.pte pd (physBase - pgSize)) = none ∧
        (state.memory.tables pd (pdNo (physBase - pgSize)) ≠ 0 ∨
          ∃ page, state.memory.Offers page)) ∧
      (success = true → StackMapped pd after) := by
  refine .true_bind (.onPart (dir.pagedirGetPage_eq (by decide)) ?_)
  cases isFrame : frameOf (state.memory.pte pd (physBase - pgSize)) with
  | some page => exact .pure ⟨Std.Refl.refl _, by simp, by simp⟩
  | none =>
    rcases dir.pagedirSetPage_eq (by decide) (by decide) isPage isFrame true with
      ⟨success, memory, done, _, grows, success_iff, pte_eq⟩
    refine .true_bind (Decides.congr (.emit fun _ => ?_) (iff_of_true trivial trivial))
    refine .onPart done ⟨grows, by simpa using success_iff, ?_⟩
    rintro rfl addr low high
    have isEntry : memory.pte pd addr = pteOf kpage true := by
      rw [pte_eq, if_pos ⟨rfl, pgNo_eq_of_stack low high⟩]
    rw [isEntry]
    exact ⟨⟨kpage, frameOf_pteOf isPage true⟩, pteOf_writable kpage⟩

lemma stackPage_decides (dir : Directory state.memory pd) (esp : Word) :
  Decides True Event.InStackPage (stackPage pd esp) state fun res after =>
    StackAvailable state.memory pd ∧ res = (true, physBase) ∧ StackMapped pd after ∨
      ¬StackAvailable state.memory pd ∧ res = (false, esp) := by
  rcases pallocGetPage_cases true state.memory with ⟨noOffer, gets⟩ | ⟨kpage, offers, gets⟩
  · refine .true_bind (.onPart gets (.pure (Or.inr ⟨?_, rfl⟩)))
    rintro ⟨kpage, offers, _⟩
    exact noOffer ⟨kpage, offers⟩
  rcases pallocGetPage_eq_some gets with ⟨_, grows, used, sameTables, _⟩
  have notOffered : ∀ page, state.memory.inUse page = true → page ≠ kpage := by
    rintro page isUsed rfl
    rw [offers.2.2] at isUsed
    cases isUsed
  rcases dir.of_used grows fun page isUsed => sameTables page (notOffered page isUsed) with
    ⟨dirAfter, samePte⟩
  refine .true_bind (.onPart gets (.true_bind ((installStack_decides (by exact dirAfter)
    (by exact (grows.isPage_iff kpage).mpr offers.2.1)).mono ?_)))
  rintro _ success after ⟨growsAfter, success_iff, mapped⟩
  have available : success = true ↔ StackAvailable state.memory pd := by
    rw [stackAvailable_iff offers gets, ← samePte, ← sameTables pd (notOffered pd dir.used)]
    exact success_iff
  cases success with
  | true => exact .pure (Or.inl ⟨available.mp rfl, rfl, mapped rfl⟩)
  | false =>
    have isPage := (growsAfter.isPage_iff kpage).mpr ((grows.isPage_iff kpage).mpr offers.2.1)
    have isUsed := growsAfter.inUse kpage used
    refine .true_bind (.onPart (pallocFreePage_used isPage isUsed) (.pure (Or.inr ⟨?_, rfl⟩)))
    exact mt available.mpr Bool.false_ne_true

end Mapping

section Whole

variable {pd : Word} {state : Loading}

lemma pushBytes_zero (byte : Byte) (rest : List Byte) :
  Decides False Event.InStackPage (pushBytes pd 0 (byte :: rest)) state fun _ _ => True := by
  have outside : Event.InStackPage (.store (0 - 1)) ↔ False := by
    refine iff_of_false ?_ id
    rintro ⟨_, high⟩
    exact absurd high (by decide)
  refine .false_bind (.false_bind ?_)
  exact Decides.congr (.emit fun _ => trivial) outside

lemma pushArgs_zero (token : List Byte) (rest : List (List Byte)) :
  Decides False Event.InStackPage (pushArgs pd 0 (token :: rest)) state fun _ _ => True := by
  refine Decides.congr (.bind ((useIndex_decides rest.length).mono ?_)) (iff_of_eq (and_false _))
  rintro _ _ _ rfl
  exact .false_bind (pushBytes_zero 0 token.reverse)

lemma pushLine_zero (tokens : List (List Byte)) (ret : Word) :
  Decides False Event.InStackPage (pushLine pd tokens ret 0) state fun _ _ => True := by
  rw [pushLine]
  cases tokens.reverse with
  | nil =>
    refine .true_bind (.pure ?_)
    exact .false_bind (pushBytes_zero 0 [0, 0, 0])
  | cons token rest => exact .false_bind (pushArgs_zero token rest)

/-- The stack has room for the copy of the line, the arrays have room for its words, and the
stack page for what is pushed. -/
structure LineFits (room : ℕ) (line : List Byte) : Prop where
  copied : line.length < room
  words : (lineTokens line).length ≤ 130
  pushed : stackSize (lineTokens line) ≤ 4096

lemma setupStack_decides (dir : Directory state.memory pd) (room : ℕ) (line : List Byte)
  (ret : Word) : Decides (StackAvailable state.memory pd ∧ LineFits room line) Event.InStackPage
    (setupStack room pd 0 line ret) state fun _ _ => True := by
  refine .true_bind ((stackPage_decides dir 0).mono ?_)
  rintro _ res mid (⟨available, rfl, mapped⟩ | ⟨notAvailable, rfl⟩)
  · have same : (line.length < room ∧ 0 + (lineTokens line).length ≤ 130 ∧
        (lineTokens line).length ≤ 130 ∧ stackSize (lineTokens line) ≤ 4096) ↔
          StackAvailable state.memory pd ∧ LineFits room line := by
      rw [Nat.zero_add, and_self_left, and_iff_right available]
      exact ⟨fun ⟨copied, words, pushed⟩ => ⟨copied, words, pushed⟩,
        fun fits => ⟨fits.copied, fits.words, fits.pushed⟩⟩
    refine Decides.congr (.bind ((copyLine_decides room line).mono ?_)) same
    rintro _ _ _ rfl
    refine .bind ((collectArgs_decides (Nat.zero_le _) _).mono ?_)
    rintro _ _ _ rfl
    exact .bind_true ((pushLine_decides mapped _ ret).mono fun _ _ _ _ => .pure trivial)
  have same : line.length < room ∧ 0 + (lineTokens line).length ≤ 130 ∧ False ↔
      StackAvailable state.memory pd ∧ LineFits room line :=
    iff_of_false (fun all => all.2.2) fun both => notAvailable both.1
  refine Decides.congr (.bind ((copyLine_decides room line).mono ?_)) same
  rintro _ _ _ rfl
  refine .bind ((collectArgs_decides (Nat.zero_le _) _).mono ?_)
  rintro _ _ _ rfl
  exact .false_bind (pushLine_zero _ ret)

/-- `setup_stack`, called as `start_process` does, returns false and has stored nothing, or it
stores in the stack page only and uses the arrays within their bounds. -/
def StacksSafely (room : ℕ) (pd : Word) (line : List Byte) (ret : Word) (state : Loading) : Prop :=
  (∃ esp after, (setupStack room pd 0 line ret state).ended = .ok ((false, esp), after) ∧
      ∀ address, .store address ∉ (setupStack room pd 0 line ret state).events) ∨
    ∀ event ∈ (setupStack room pd 0 line ret state).events, event.InStackPage

lemma setupStack_emits (room : ℕ) (pd esp : Word) (line : List Byte) (ret : Word) :
  Emits (fun event => ∃ addr, event = .store addr) (setupStack room pd esp line ret) := by
  have stores : ∀ myEsp, Emits (fun event => ∃ addr, event = .store addr)
      (pushCharacter pd myEsp (wordByte ret 0)) := by
    intro myEsp
    exact .bind_left (.bind_left (.emit ⟨myEsp - 4, rfl⟩))
  have pushes : ∀ myEsp, Emits (fun event => ∃ addr, event = .store addr)
      (pushLine pd (lineTokens line) ret myEsp) := by
    intro myEsp
    exact .bind_right fun _ => .bind_right fun _ => .bind_right fun _ => .bind_right fun _ =>
      .bind_right fun _ => .bind_right fun _ => stores _
  exact .bind_right fun _ => .bind_right fun _ => .bind_right fun _ => .bind_left (pushes _)

lemma stacksSafely_iff_events (room : ℕ) (pd : Word) (line : List Byte) (ret : Word)
    (state : Loading) :
  StacksSafely room pd line ret state ↔
    ∀ event ∈ (setupStack room pd 0 line ret state).events, event.InStackPage := by
  refine ⟨?_, Or.inr⟩
  rintro (⟨esp, after, ran, noStore⟩ | allInPage)
  · rcases setupStack_emits room pd 0 line ret state _ _ ran with ⟨_, isEvent, addr, rfl⟩
    exact (noStore addr isEvent).elim
  · exact allInPage

lemma fits_of_stacksSafely (dir : Directory state.memory pd) {room : ℕ} {line : List Byte}
  {ret : Word} (safe : StacksSafely room pd line ret state) :
  StackAvailable state.memory pd ∧ LineFits room line := by
  rw [stacksSafely_iff_events] at safe
  by_contra notFits
  rcases (setupStack_decides dir room line ret).bad notFits with ⟨event, isEvent, outside⟩
  exact outside (safe event isEvent)

/-- The stack is set up safely exactly if there is a page for it that can be mapped and the command
line, with what is pushed below it, fits into the arrays and the page. -/
theorem stacksSafely_iff (directory : Directory state.memory pd) (room : ℕ) (line : List Byte)
    (ret : Word) :
    StacksSafely room pd line ret state ↔ StackAvailable state.memory pd ∧
      LineFits room line := by
  refine ⟨fits_of_stacksSafely directory, ?_⟩
  rw [stacksSafely_iff_events]
  exact (setupStack_decides directory room line ret).events

end Whole

def newDirectory : Option Memory :=
  match pagedirCreate smallLoading.memory with
  | .ok (some 0xc0103000, created) => some created
  | _ => none

lemma directory_newDirectory (isNew : newDirectory = some memory) :
  Directory memory 0xc0103000 := by
  have booted : Booted smallLoading.memory :=
    ⟨booted_bootMemory.used, booted_bootMemory.user, booted_bootMemory.table, booted_bootMemory.inj⟩
  rw [newDirectory] at isNew
  split at isNew
  · next created creates =>
      cases isNew
      exact (booted.pagedirCreate_eq creates).1
  · cases isNew

/-- The line "a b" in a new process. -/
theorem stacksSafely_new : ∃ memory, newDirectory = some memory ∧
    StacksSafely 1000 0xc0103000 [97, 32, 98] 0 { smallLoading with memory := memory } := by
  have runs : newDirectory.any (fun memory => decide (
      (memory.answers 0 = some 0xc0105000 ∧ memory.IsPage 0xc0105000 ∧
        memory.inUse 0xc0105000 = false) ∧
      frameOf (memory.pte 0xc0103000 (physBase - pgSize)) = none ∧
      memory.answers 1 = some 0xc0106000 ∧ memory.IsPage 0xc0106000 ∧
        memory.inUse 0xc0106000 = false)) = true := by
    decide +kernel
  rcases (Option.any_eq_true ..).mp runs with ⟨memory, isNew, checks⟩
  rcases of_decide_eq_true checks with ⟨offers, isFree, isNext, isPage, notUsed⟩
  refine ⟨memory, isNew, (stacksSafely_iff (directory_newDirectory isNew) _ _ _).mpr ⟨?_, ?_⟩⟩
  · exact ⟨0xc0105000, offers, isFree, Or.inr ⟨0xc0106000, isNext, isPage, notUsed, by decide⟩⟩
  · constructor <;> decide

/-- With a segment of the executable in the place of the stack page, there is a page for the stack
and the line "a b" is written below address zero. -/
theorem not_stacksSafely_topMapped : ∃ memory after, newDirectory = some memory ∧
    pagedirSetPage 0xc0103000 (physBase - pgSize) 0xc0104000 true memory = .ok (true, after) ∧
    (∃ kpage, after.Offers kpage) ∧
    ¬StacksSafely 1000 0xc0103000 [97, 32, 98] 0 { smallLoading with memory := after } := by
  have runs : newDirectory.any (fun memory =>
      decide (frameOf (memory.pte 0xc0103000 (physBase - pgSize)) = none ∧
        memory.IsPage 0xc0104000) &&
      (pagedirSetPage 0xc0103000 (physBase - pgSize) 0xc0104000 true memory).toOption.any
        (fun outcome => decide (outcome.1 = true ∧
          (outcome.2.answers 0 = some 0xc0106000 ∧ outcome.2.IsPage 0xc0106000 ∧
            outcome.2.inUse 0xc0106000 = false) ∧
          frameOf (outcome.2.pte 0xc0103000 (physBase - pgSize)) ≠ none))) = true := by
    decide +kernel
  rcases (Option.any_eq_true ..).mp runs with ⟨memory, isNew, checks⟩
  rcases (Bool.and_eq_true ..).mp checks with ⟨checksBefore, checksAfter⟩
  rcases of_decide_eq_true checksBefore with ⟨unmapped, isPage⟩
  rcases exists_ok_of_any checksAfter with ⟨⟨success, after⟩, sets, checksMapped⟩
  rcases of_decide_eq_true checksMapped with ⟨rfl, offers, mapped⟩
  have performed := sets
  have directory : Directory after 0xc0103000 := by
    rcases (directory_newDirectory isNew).pagedirSetPage_eq (by decide) (by decide) isPage unmapped
      true with ⟨_, _, performedAlso, directoryAfter, _⟩
    rw [performed] at performedAlso
    cases performedAlso
    exact directoryAfter
  refine ⟨memory, after, isNew, performed, ⟨0xc0106000, offers⟩, ?_⟩
  intro safe
  rcases fits_of_stacksSafely (by exact directory) safe with ⟨⟨_, _, unmappedAfter, _⟩, _⟩
  exact mapped unmappedAfter

end Pintos.Loader
