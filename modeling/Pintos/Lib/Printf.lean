import Pintos.Lib.Stdio

/-!
# The front ends of formatted output

`__vprintf` passes its characters one by one to an output function. `vsnprintf` stores them as long
as there is room, `vhprintf` of the user library collects them in a buffer of 64 bytes and writes it
when it is full, and `vprintf` of the kernel puts them on the console. What has been written
followed by what is still in the buffer is always the output so far.
-/

namespace Pintos.Stdio

namespace FrontEnds

open Pintos.Computation Function

def passAll {State : Type} (output : Byte → Computation Stop State Unit) :
    List Byte → Computation Stop State Unit
  | [] => pure ()
  | ch :: rest => do
    output ch
    passAll output rest

structure VsnprintfAux where
  p : ℕ
  length : Word
  maxLength : Word
  memory : ℕ → Byte

def vsnprintfHelper (ch : Byte) : Computation Stop VsnprintfAux Unit :=
  updates fun aux =>
    if aux.length.slt aux.maxLength then
      { aux with length := aux.length + 1, p := aux.p + 1
                 memory := update aux.memory aux.p ch }
    else { aux with length := aux.length + 1 }

def vsnprintf (memory : ℕ → Byte) (buffer bufSize : ℕ) (format : List Char)
    (args : List Argument) : Except Stop (Word × (ℕ → Byte)) := do
  let output ← Stdio.vprintf format args
  let maxLength := if bufSize > 0 then BitVec.ofNat 32 (bufSize - 1) else 0
  let ((), aux) ← passAll vsnprintfHelper output ⟨buffer, 0, maxLength, memory⟩
  pure (aux.length, if bufSize > 0 then update aux.memory aux.p 0 else aux.memory)

/-- `struct vhprintf_aux`, where `p` is an index of `buf`, and the calls of `write`. -/
structure VhprintfAux where
  buf : ℕ → Byte
  p : ℕ
  charCnt : Word
  handle : Word
  written : List (Word × List Byte)

def flush (aux : VhprintfAux) : VhprintfAux :=
  if aux.p > 0 then
    { aux with p := 0, written := aux.written ++ [(aux.handle, rangeOf aux.buf 0 aux.p)] }
  else { aux with p := 0 }

/-- `add_char`; storing behind the end of the buffer is a fault. -/
def addChar (c : Byte) : Computation Stop VhprintfAux Unit := fun aux =>
  if aux.p < 64 then
    let aux := { aux with buf := update aux.buf aux.p c, p := aux.p + 1 }
    let aux := if aux.p ≥ 64 then flush aux else aux
    .ok ((), { aux with charCnt := aux.charCnt + 1 })
  else .error .fault

/-- `vhprintf`, with what is in its buffer at the beginning: the number it returns and the calls of
`write`. -/
def vhprintf (garbage : ℕ → Byte) (handle : Word) (format : List Char) (args : List Argument) :
    Except Stop (Word × List (Word × List Byte)) := do
  let output ← Stdio.vprintf format args
  let ((), aux) ← passAll addChar output ⟨garbage, 0, 0, handle, []⟩
  let aux := flush aux
  pure (aux.charCnt, aux.written)

/-- The console as one thread sees it: whether there is a lock, whether the thread holds it and how
often it has acquired it again, and what is on the console. -/
structure Console where
  useConsoleLock : Bool
  held : Bool
  consoleLockDepth : ℕ
  writeCnt : BitVec 64
  shown : List Byte

def acquireConsole (intrContext : Bool) (console : Console) : Console :=
  if !intrContext && console.useConsoleLock then
    if console.held then { console with consoleLockDepth := console.consoleLockDepth + 1 }
    else { console with held := true }
  else console

def releaseConsole (intrContext : Bool) (console : Console) : Console :=
  if !intrContext && console.useConsoleLock then
    if console.consoleLockDepth > 0 then
      { console with consoleLockDepth := console.consoleLockDepth - 1 }
    else { console with held := false }
  else console

def putcharHaveLock (intrContext : Bool) (c : Byte) (console : Console) : Except Stop Console :=
  if intrContext || !console.useConsoleLock || console.held then
    .ok { console with writeCnt := console.writeCnt + 1, shown := console.shown ++ [c] }
  else .error .panic

def vprintfHelper (intrContext : Bool) (c : Byte) : Computation Stop (Word × Console) Unit :=
  fun (charCnt, console) => do
    let console ← putcharHaveLock intrContext c console
    pure ((), charCnt + 1, console)

/-- `vprintf` of the kernel: the number it returns, and the console. -/
def vprintf (intrContext : Bool) (format : List Char) (args : List Argument) (console : Console) :
    Except Stop (Word × Console) := do
  let output ← Stdio.vprintf format args
  let ((), charCnt, console) ← passAll (vprintfHelper intrContext) output
    (0, acquireConsole intrContext console)
  pure (charCnt, releaseConsole intrContext console)

section Passing

variable {State : Type} {output : Byte → Computation Stop State Unit} {chars : List Byte}
  {st : State}

lemma passAll_returns {holds : List Byte → State → Prop} (atStart : holds [] st)
  (kept : ∀ passed ch rest st, passed ++ ch :: rest = chars → holds passed st →
    ∃ after, output ch st = .ok ((), after) ∧ holds (passed ++ [ch]) after) :
  ∃ after, passAll output chars st = .ok ((), after) ∧ holds chars after := by
  suffices all : ∀ rest passed st, passed ++ rest = chars → holds passed st →
      ∃ after, passAll output rest st = .ok ((), after) ∧ holds chars after from
    all chars [] st rfl atStart
  intro rest
  induction rest with
  | nil =>
    intro passed st isAll held
    rw [List.append_nil] at isAll
    exact ⟨st, rfl, isAll ▸ held⟩
  | cons ch rest ih =>
    intro passed st isAll held
    rcases kept passed ch rest st isAll held with ⟨mid, called, next⟩
    rcases ih (passed ++ [ch]) mid (by simpa using isAll) next with ⟨after, passes, last⟩
    exact ⟨after, by rw [passAll, bind_of_ok called, passes], last⟩

end Passing

section FrontEnds

variable {format : List Char} {args : List Argument} {out : List Byte}

lemma slt_iff {a b : ℕ} (left : a < 2 ^ 31) (right : b < 2 ^ 31) :
  (BitVec.ofNat 32 a).slt (BitVec.ofNat 32 b) = true ↔ a < b := by
  rw [BitVec.slt_iff_toInt_lt, BitVec.toInt_eq_toNat_of_lt (by simp; omega),
    BitVec.toInt_eq_toNat_of_lt (by simp; omega), BitVec.toNat_ofNat, BitVec.toNat_ofNat,
    Nat.mod_eq_of_lt (by omega), Nat.mod_eq_of_lt (by omega), Int.ofNat_lt]

lemma ofNat_length_append (passed : List Byte) (ch : Byte) :
  BitVec.ofNat 32 (passed ++ [ch]).length = BitVec.ofNat 32 passed.length + 1 := by
  rw [List.length_append, BitVec.ofNat_add]
  rfl

lemma vsnprintf_eq (printed : Stdio.vprintf format args = .ok out) (short : out.length < 2 ^ 31)
  {bufSize : ℕ} (small : bufSize < 2 ^ 31) (mem : ℕ → Byte) (buffer : ℕ) :
  vsnprintf mem buffer bufSize format args = .ok (BitVec.ofNat 32 out.length,
    if bufSize > 0 then storeAt mem buffer (out.take (bufSize - 1) ++ [0]) else mem) := by
  have isMax : (if bufSize > 0 then BitVec.ofNat 32 (bufSize - 1) else 0) =
      BitVec.ofNat 32 (bufSize - 1) := by
    split
    · rfl
    rw [Nat.sub_eq_zero_of_le (by omega)]
    rfl
  have passed : ∃ after, passAll vsnprintfHelper out
      ⟨buffer, 0, BitVec.ofNat 32 (bufSize - 1), mem⟩ = .ok ((), after) ∧
      after = ⟨buffer + (out.take (bufSize - 1)).length, BitVec.ofNat 32 out.length,
        BitVec.ofNat 32 (bufSize - 1), storeAt mem buffer (out.take (bufSize - 1))⟩ := by
    refine @passAll_returns VsnprintfAux _ _ _ (fun passed aux => aux =
      ⟨buffer + (passed.take (bufSize - 1)).length, BitVec.ofNat 32 passed.length,
        BitVec.ofNat 32 (bufSize - 1), storeAt mem buffer (passed.take (bufSize - 1))⟩)
      (by simp) ?_
    rintro passed ch rest aux isAll rfl
    have isShort : passed.length < 2 ^ 31 := by
      rw [← isAll, List.length_append] at short
      omega
    refine ⟨_, rfl, ?_⟩
    simp only [slt_iff isShort (show bufSize - 1 < 2 ^ 31 by omega), ofNat_length_append]
    by_cases isRoom : passed.length < bufSize - 1
    · rw [if_pos isRoom, List.take_of_length_le isRoom.le,
        List.take_of_length_le (by rw [List.length_append]; exact isRoom),
        update_storeAt, List.length_append]
      rfl
    · rw [if_neg isRoom, List.take_append_of_le_length (by omega)]
  rcases passed with ⟨after, passes, rfl⟩
  rw [vsnprintf, printed]
  simp only [isMax, passes, except_ok_bind, pure, Except.pure]
  by_cases isRoom : bufSize > 0
  · rw [if_pos isRoom, if_pos isRoom, update_storeAt]
  · rw [if_neg isRoom, if_neg isRoom, Nat.sub_eq_zero_of_le (by omega), List.take_zero, storeAt_nil]

lemma rangeOf_update (buf : ℕ → Byte) (p : ℕ) (c : Byte) :
  rangeOf (update buf p c) 0 (p + 1) = rangeOf buf 0 p ++ [c] := by
  rw [rangeOf, List.range_succ, List.map_append]
  refine congrArg₂ (· ++ ·) (List.map_congr_left ?_) (by simp)
  intro idx isIdx
  rw [List.mem_range] at isIdx
  rw [update_of_ne (by omega)]

structure Buffered (handle : Word) (passed : List Byte) (aux : VhprintfAux) : Prop where
  inside : aux.p < 64
  isHandle : aux.handle = handle
  isCnt : aux.charCnt = BitVec.ofNat 32 passed.length
  calls : ∀ call ∈ aux.written, call.1 = handle ∧ call.2.length ≤ 64
  isAll : (aux.written.map Prod.snd).flatten ++ rangeOf aux.buf 0 aux.p = passed

lemma flush_spec {handle : Word} {aux : VhprintfAux} (atMost : aux.p ≤ 64)
  (isHandle : aux.handle = handle)
  (calls : ∀ call ∈ aux.written, call.1 = handle ∧ call.2.length ≤ 64) :
  (flush aux).p = 0 ∧ (flush aux).handle = handle ∧ (flush aux).charCnt = aux.charCnt ∧
    (∀ call ∈ (flush aux).written, call.1 = handle ∧ call.2.length ≤ 64) ∧
    ((flush aux).written.map Prod.snd).flatten =
      (aux.written.map Prod.snd).flatten ++ rangeOf aux.buf 0 aux.p := by
  unfold flush
  split
  · refine ⟨rfl, isHandle, rfl, ?_, by simp⟩
    rintro call isCall
    rcases List.mem_append.mp isCall with isOld | isNew
    · exact calls call isOld
    rw [List.mem_singleton] at isNew
    subst isNew
    exact ⟨isHandle, by simpa using atMost⟩
  next isEmpty =>
    refine ⟨rfl, isHandle, rfl, calls, ?_⟩
    simp [rangeOf, Nat.eq_zero_of_not_pos isEmpty]

lemma vhprintf_eq (printed : Stdio.vprintf format args = .ok out) (garbage : ℕ → Byte)
  (handle : Word) :
  ∃ written, vhprintf garbage handle format args = .ok (BitVec.ofNat 32 out.length, written) ∧
    (∀ call ∈ written, call.1 = handle ∧ call.2.length ≤ 64) ∧
    (written.map Prod.snd).flatten = out := by
  have passed : ∃ after, passAll addChar out ⟨garbage, 0, 0, handle, []⟩ = .ok ((), after) ∧
      Buffered handle out after := by
    refine passAll_returns ⟨Nat.succ_pos _, rfl, rfl, by simp, by simp [rangeOf]⟩ ?_
    rintro passed ch rest aux - ⟨inside, isHandle, isCnt, calls, isAll⟩
    rw [addChar, if_pos inside]
    refine ⟨_, rfl, ?_⟩
    have isNext := rangeOf_update aux.buf aux.p ch
    have counted : aux.charCnt + 1 = BitVec.ofNat 32 (passed ++ [ch]).length := by
      rw [isCnt, ofNat_length_append]
    by_cases isFull : aux.p + 1 ≥ 64
    · rcases @flush_spec handle
        { aux with buf := update aux.buf aux.p ch, p := aux.p + 1 } inside isHandle
        calls with ⟨isZero, sameHandle, sameCnt, allCalls, isWritten⟩
      simp only [isFull, if_true]
      refine ⟨by rw [isZero]; decide, sameHandle, by rw [sameCnt, counted], allCalls, ?_⟩
      rw [isWritten, isNext, ← List.append_assoc, isAll]
      exact List.append_nil _
    simp only [isFull, if_false]
    refine ⟨not_le.mp isFull, isHandle, counted, calls, ?_⟩
    rw [isNext, ← List.append_assoc, isAll]
  rcases passed with ⟨after, passes, inside, isHandle, isCnt, calls, isAll⟩
  rcases flush_spec inside.le isHandle calls with ⟨-, -, sameCnt, allCalls, isWritten⟩
  refine ⟨(flush after).written, ?_, allCalls, isWritten.trans isAll⟩
  rw [vhprintf, printed, except_ok_bind, passes, ← isCnt, ← sameCnt]
  rfl

lemma vprintf_eq (printed : Stdio.vprintf format args = .ok out) (intrContext : Bool)
  (console : Console) :
  ∃ after, vprintf intrContext format args console = .ok (BitVec.ofNat 32 out.length, after) ∧
    after.shown = console.shown ++ out := by
  have passed : ∃ after, passAll (vprintfHelper intrContext) out
      (0, acquireConsole intrContext console) = .ok ((), after) ∧
      after.1 = BitVec.ofNat 32 out.length ∧ after.2.shown = console.shown ++ out ∧
      (intrContext || !after.2.useConsoleLock || after.2.held) = true := by
    refine @passAll_returns (Word × Console) _ _ _ (fun passed st =>
      st.1 = BitVec.ofNat 32 passed.length ∧ st.2.shown = console.shown ++ passed ∧
      (intrContext || !st.2.useConsoleLock || st.2.held) = true) ?_ ?_
    · refine ⟨rfl, ?_, ?_⟩ <;> unfold acquireConsole <;> grind
    rintro passed ch rest ⟨charCnt, st⟩ - ⟨isCnt, isShown, isLocked⟩
    refine ⟨(charCnt + 1, { st with
      writeCnt := st.writeCnt + 1, shown := st.shown ++ [ch] }), ?_, ?_, ?_, isLocked⟩
    · simp only [vprintfHelper, putcharHaveLock]
      rw [if_pos isLocked]
      rfl
    · rw [ofNat_length_append, ← isCnt]
    · rw [isShown, List.append_assoc]
  rcases passed with ⟨⟨charCnt, after⟩, passes, isCnt, isShown, -⟩
  refine ⟨releaseConsole intrContext after, ?_, ?_⟩
  · rw [vprintf, printed, except_ok_bind, passes, ← isCnt]
    rfl
  unfold releaseConsole
  grind

/-- `Stdio.vsnprintf` stores what the helper stores, one byte after another. -/
lemma vsnprintf_refines (printed : Stdio.vprintf format args = .ok out)
  (short : out.length < 2 ^ 31) {bufSize : ℕ} (small : bufSize < 2 ^ 31) (mem : ℕ → Byte)
  (buffer : ℕ) : (vsnprintf mem buffer bufSize format args).map Prod.snd =
    Stdio.vsnprintf mem buffer bufSize format args := by
  rw [vsnprintf_eq printed short small, Stdio.vsnprintf, printed]
  rfl

/-- The front ends agree on the output of `__vprintf`. -/
theorem frontEnds_agree (printed : Stdio.vprintf format args = .ok out)
    (short : out.length < 2 ^ 31) :
    (BitVec.ofNat 32 out.length).toInt = out.length ∧
    (∀ memory buffer bufSize, bufSize < 2 ^ 31 →
      vsnprintf memory buffer bufSize format args = .ok (BitVec.ofNat 32 out.length,
        if bufSize > 0 then storeAt memory buffer (out.take (bufSize - 1) ++ [0]) else memory)) ∧
    (∀ garbage handle, ∃ written,
      vhprintf garbage handle format args = .ok (BitVec.ofNat 32 out.length, written) ∧
      (∀ call ∈ written, call.1 = handle ∧ call.2.length ≤ 64) ∧
      (written.map Prod.snd).flatten = out) ∧
    ∀ intrContext console, ∃ after,
      vprintf intrContext format args console = .ok (BitVec.ofNat 32 out.length, after) ∧
      after.shown = console.shown ++ out := by
  refine ⟨?_, fun memory buffer bufSize small => vsnprintf_eq printed short small memory buffer,
    vhprintf_eq printed, vprintf_eq printed⟩
  rw [BitVec.toInt_eq_toNat_of_lt (by simp; omega), BitVec.toNat_ofNat, Nat.mod_eq_of_lt (by omega)]

end FrontEnds

/-- The format string "%%a%c" with the argument 98. -/
theorem frontEnds_agree_percent :
    Stdio.vprintf ['%', '%', 'a', '%', 'c'] [.word 98] = .ok [37, 97, 98] ∧
    ∃ written, vhprintf (fun _ => 0) 1 ['%', '%', 'a', '%', 'c'] [.word 98] = .ok (3, written) ∧
      (written.map Prod.snd).flatten = [37, 97, 98] := by
  have printed : Stdio.vprintf ['%', '%', 'a', '%', 'c'] [.word 98] = .ok [37, 97, 98] := by
    have parsed : parseConversion ['c'] [.word 98] =
        .ok ({ flags := {}, width := 0, precision := none, type := .int }, ['c'], [.word 98]) := rfl
    have third : Stdio.vprintf ['%', 'c'] [.word 98] = .ok [98] := by
      rw [Stdio.vprintf]
      · split
        · next found =>
            cases parsed.symm.trans found
            change ((Stdio.vprintf [] []) >>= fun output => pure ([98] ++ output)) = _
            rw [Stdio.vprintf]
            rfl
        · next found => cases parsed.symm.trans found
        · next found => cases parsed.symm.trans found
      · simp
    rw [Stdio.vprintf, Stdio.vprintf, third]
    · rfl
    · simp
    · simp
  rcases (frontEnds_agree printed (by decide)).2.2.1 (fun _ => 0) 1 with
    ⟨written, returned, -, isAll⟩
  exact ⟨printed, written, returned, isAll⟩

end FrontEnds

end Pintos.Stdio
