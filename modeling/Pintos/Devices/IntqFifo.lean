import Pintos.Devices.Serial

/-!
# An interrupt queue is a bounded queue

The bytes that the completed calls of `intq_getc` have returned and those still in the buffer are,
in order, the bytes given to the completed calls of `intq_putc`.
-/

namespace Pintos.Intq

variable {Thread : Type}

/-- What completed calls have made of a new queue, with the bytes given to `intq_putc` and those
returned by `intq_getc`. Threads that sleep in between change the lock and the waiters only. -/
inductive Completed : Intq Thread → List Byte → List Byte → Prop
  | init : Completed .init [] []
  | putc {q after given got byte} : Completed q given got → q.intqFull = false →
    q.perform (.put byte) = .ok after → Completed after (given ++ [byte]) got
  | getc {q after given got byte} : Completed q given got →
    q.getc = .ok (byte, after) → Completed after given (got ++ [byte])
  | sleeps {q given got} (lock waiter side) : Completed q given got →
    Completed ((q.setLock lock).setWaiter waiter side) given got

/-- The queue is a bounded queue with these bytes pending. -/
structure BoundedFifo (q : Intq Thread) (given got pending : List Byte) : Prop where
  inOrder : got ++ pending = given
  length_le : pending.length ≤ intqBufsize - 1
  empty_iff : q.intqEmpty = true ↔ pending = []
  full_iff : q.intqFull = true ↔ pending.length = intqBufsize - 1
  head_lt : q.head < intqBufsize
  tail_lt : q.tail < intqBufsize

variable {q : Intq Thread} {given got bytes : List Byte}

lemma Completed.holds (completed : Completed q given got) :
  ∃ pending, got ++ pending = given ∧ Serial.Holds q pending := by
  induction completed with
  | init => exact ⟨[], rfl, by simp [contents, Intq.init], Nat.succ_pos 63, Nat.succ_pos 63⟩
  | putc _ notFull ran ih =>
    rcases ih with ⟨pending, rfl, holds⟩
    exact ⟨_, by simp, holds.put notFull ran⟩
  | getc _ ran ih =>
    rcases ih with ⟨pending, rfl, holds⟩
    rcases holds.getc ran with ⟨rest, rfl, holdsRest⟩
    exact ⟨rest, by simp, holdsRest⟩
  | sleeps lock waiter side _ ih =>
    rcases ih with ⟨pending, inOrder, holds⟩
    exact ⟨pending, inOrder, (holds.setLock lock).setWaiter waiter side⟩

lemma length_of_holds (holds : Serial.Holds q bytes) :
  bytes.length ≤ 63 ∧ (q.intqFull = true ↔ bytes.length = 63) := by
  rcases holds with ⟨rfl, headInside, tailInside⟩
  unfold contents intqFull next intqBufsize at *
  simp only [List.length_map, List.length_range, decide_eq_true_iff]
  omega

theorem boundedFifo_of_completed (completed : Completed q given got) :
    ∃ pending, BoundedFifo q given got pending := by
  rcases completed.holds with ⟨pending, inOrder, holds⟩
  rcases length_of_holds holds with ⟨short, full⟩
  exact ⟨pending, inOrder, short, holds.nil_iff.symm, full, holds.2.1, holds.2.2⟩

/-- One byte is put and taken out again, and a second one is put. -/
theorem boundedFifo_two : ∃ (q : Intq Bool) (pending : List Byte),
    Completed q [1, 2] [1] ∧ BoundedFifo q [1, 2] [1] pending := by
  have completed : ∃ q : Intq Bool, Completed q [1, 2] [1] :=
    ⟨_, ((Completed.init.putc rfl rfl).getc rfl).putc rfl rfl⟩
  rcases completed with ⟨q, completed⟩
  rcases boundedFifo_of_completed completed with ⟨pending, fifo⟩
  exact ⟨q, pending, completed, fifo⟩

end Pintos.Intq
