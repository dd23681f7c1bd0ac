import Egress.Field.Target

/-!
# Parameters of floor fields
-/
namespace Egress

/-- How fast cells are crossed. -/
inductive SpeedMode where
  /-- Equally fast, so that costs are walking distances. -/
  | even
  /-- More slowly near walls, so that paths bend away from them. -/
  | wallAvoid
  deriving DecidableEq, Repr

/-- The zones that people are steered in. -/
inductive Granularity where
  /-- None: people walk straight at the nearest point of their door. -/
  | none
  | room
  | subroom
  deriving DecidableEq, Repr

structure FieldParams (α : Type) where
  /-- Side of the grid cells in meters. -/
  cellSize : α
  /-- Distance from walls in meters below which people slow down. -/
  wallAvoidDistance : α
  speedMode : SpeedMode
  seedMode : SeedMode
  granularity : Granularity
  /-- Workers that the doors of a zone are shared out to, zero for one per processor. -/
  workers : Nat

def FieldParams.standard {α : Type} [Scalar α] : FieldParams α where
  cellSize := 0.125
  wallAvoidDistance := 0.8
  speedMode := .wallAvoid
  seedMode := .wholeLine
  granularity := .subroom
  workers := 0

end Egress
