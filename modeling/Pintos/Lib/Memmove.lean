import Pintos.Kernel.Stop
import Pintos.Library.Words

/-!
# Moving memory

`memmove` of `lib/string.c`. It returns the pointer that its loop has moved: in the branch that
copies upwards this is the end of the destination, not the destination.
-/

namespace Pintos.Memmove

open Function

/-- The loop for `dst < src`, with the value of `dst` after it. -/
def copyUp : ℕ → (ℕ → Byte) → ℕ → ℕ → (ℕ → Byte) × ℕ
  | 0, memory, dst, _ => (memory, dst)
  | size + 1, memory, dst, src => copyUp size (update memory dst (memory src)) (dst + 1) (src + 1)

/-- The other loop; `dst` and `src` point behind what is left to copy. -/
def copyDown : ℕ → (ℕ → Byte) → ℕ → ℕ → (ℕ → Byte) × ℕ
  | 0, memory, dst, _ => (memory, dst)
  | size + 1, memory, dst, src =>
    copyDown size (update memory (dst - 1) (memory (src - 1))) (dst - 1) (src - 1)

def memmove (memory : ℕ → Byte) (dst src size : ℕ) : Except Stop ((ℕ → Byte) × ℕ) :=
  if ¬(dst ≠ 0 ∨ size = 0) ∨ ¬(src ≠ 0 ∨ size = 0) then .error .panic
  else if dst < src then .ok (copyUp size memory dst src)
  else .ok (copyDown size memory (dst + size) (src + size))

/-- The bytes at `dst` are those that were at `src`, and no other byte is changed. -/
def Moved (memory after : ℕ → Byte) (dst src size : ℕ) : Prop :=
  ∀ addr, after addr =
    if dst ≤ addr ∧ addr < dst + size then memory (src + (addr - dst)) else memory addr

/-- The bytes are moved and the target is returned. -/
def MovesRight (memory : ℕ → Byte) (dst src size : ℕ) : Prop :=
  ∃ after, memmove memory dst src size = .ok (after, dst) ∧ Moved memory after dst src size

lemma copyUp_moved (size : ℕ) (memory : ℕ → Byte) {dst src : ℕ} (below : dst < src) :
  Moved memory (copyUp size memory dst src).1 dst src size ∧
    (copyUp size memory dst src).2 = dst + size := by
  induction size generalizing memory dst src with
  | zero => exact ⟨fun addr => (if_neg (by omega)).symm, rfl⟩
  | succ size ih =>
    -- The byte stored lies below everything that is still to be read.
    rcases ih (update memory dst (memory src)) (Nat.succ_lt_succ below) with ⟨moved, isEnd⟩
    refine ⟨?_, by rw [copyUp, isEnd]; omega⟩
    intro addr
    rw [copyUp, moved addr]
    grind

lemma copyDown_moved (size : ℕ) (memory : ℕ → Byte) {dst src : ℕ} (above : src ≤ dst) :
  Moved memory (copyDown size memory (dst + size) (src + size)).1 dst src size ∧
    (copyDown size memory (dst + size) (src + size)).2 = dst := by
  induction size generalizing memory with
  | zero => exact ⟨fun addr => (if_neg (by omega)).symm, rfl⟩
  | succ size ih =>
    rcases ih (update memory (dst + size) (memory (src + size))) with ⟨moved, isStart⟩
    refine ⟨?_, isStart⟩
    intro addr
    refine (moved addr).trans ?_
    grind

theorem movesRight_iff (memory : ℕ → Byte) (dst src size : ℕ) :
    MovesRight memory dst src size ↔ size = 0 ∨ dst ≠ 0 ∧ src ≠ 0 ∧ src ≤ dst := by
  unfold MovesRight memmove
  by_cases isNull : ¬(dst ≠ 0 ∨ size = 0) ∨ ¬(src ≠ 0 ∨ size = 0)
  · rw [if_pos isNull]
    simp only [reduceCtorEq, false_and, exists_false, false_iff]
    omega
  rw [if_neg isNull]
  by_cases below : dst < src
  · rcases copyUp_moved size memory below with ⟨moved, isEnd⟩
    rw [if_pos below]
    constructor
    · rintro ⟨after, ran, _⟩
      rw [Except.ok.inj ran] at isEnd
      exact Or.inl (by omega)
    · intro condition
      exact ⟨_, congrArg Except.ok (Prod.ext rfl (by omega)), moved⟩
  · rcases copyDown_moved size memory (not_lt.mp below) with ⟨moved, isStart⟩
    rw [if_neg below]
    exact ⟨fun _ => by omega, fun _ => ⟨_, congrArg Except.ok (Prod.ext rfl isStart), moved⟩⟩

theorem not_movesRight_up : ¬ MovesRight (fun _ => 0) 1 2 1 := by
  rintro ⟨after, ran, _⟩
  have isEnd : 2 = 1 := congrArg Prod.snd (Except.ok.inj ran)
  omega

end Pintos.Memmove
