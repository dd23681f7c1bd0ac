import Egress.OrderedMap
import Egress.Scalar

/-!
# Weighting factors

What people know about a door beyond its place: each source of knowledge keeps one factor under
its own name, 1 being neutral. The multiplier adds up how far the factors deviate from 1.
-/
namespace Egress

/-- A weighting factor and when it was last written. -/
structure Factor (α : Type) where
  value : α
  /-- Simulation time in seconds. -/
  updated : α

/-- The factors of one door, by name. -/
abbrev FactorBag (α : Type) := OrderedMap String (Factor α)

/-- One plus the sum of the factors' deviations from one, and zero where that is negative. -/
def FactorBag.multiplier {α : Type} [Scalar α] (bag : FactorBag α) : α :=
  Scalar.larger (1 + Scalar.sum (bag.values.map fun f => f.value - 1)) 0

end Egress
