import Pintos.Library.Words

/-!
# Semaphores

`struct semaphore` of `threads/synch.h` and the sections of `threads/synch.c` that
run with interrupts off: `sema_init`, one pass through the loop of `sema_down`,
`sema_try_down` and `sema_up`. The value is an unsigned word and wraps around.
What happens to the thread that blocks or is unblocked is left to the caller of
these functions.
-/

namespace Pintos

/-- `struct semaphore`, with the threads on its list in order. -/
structure Semaphore (Thread : Type) where
  value : Word
  waiters : List Thread
deriving DecidableEq

namespace Semaphore

variable {Thread : Type}

def init (value : Word) : Semaphore Thread where
  value := value
  waiters := []

/-- One pass through the loop of `sema_down`: whether the thread gets through. If it does not, it
is put at the end of the list. -/
def down (sema : Semaphore Thread) (current : Thread) : Bool × Semaphore Thread :=
  if sema.value = 0 then (false, { sema with waiters := sema.waiters ++ [current] })
  else (true, { sema with value := sema.value - 1 })

def tryDown (sema : Semaphore Thread) : Bool × Semaphore Thread :=
  if sema.value ≠ 0 then (true, { sema with value := sema.value - 1 }) else (false, sema)

def up (sema : Semaphore Thread) : Option Thread × Semaphore Thread :=
  (sema.waiters.head?, { value := sema.value + 1, waiters := sema.waiters.tail })

variable {sema : Semaphore Thread} {thr : Thread}

lemma down_of_zero (zero : sema.value = 0) :
  sema.down thr = (false, { sema with waiters := sema.waiters ++ [thr] }) :=
  if_pos zero

lemma down_of_ne_zero (pos : sema.value ≠ 0) :
  sema.down thr = (true, { sema with value := sema.value - 1 }) :=
  if_neg pos

lemma tryDown_of_zero (zero : sema.value = 0) : sema.tryDown = (false, sema) :=
  if_neg (not_not.mpr zero)

lemma tryDown_of_ne_zero (pos : sema.value ≠ 0) :
  sema.tryDown = (true, { sema with value := sema.value - 1 }) :=
  if_pos pos

end Semaphore

end Pintos
