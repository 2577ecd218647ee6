import Pintos.Library.Computation

/-!
# Why kernel code does not return

A kernel function either returns to its caller or never does. The model keeps
the three ways of not returning apart, because the properties proved later are
about returning at all.
-/

namespace Pintos

inductive Stop where
  /-- `PANIC` or a failed `ASSERT`. -/
  | panic
  /-- A load or store through a null, freed or otherwise invalid pointer. -/
  | fault
  /-- The function is still running after the allowed number of steps. -/
  | running
deriving DecidableEq, Repr

end Pintos
