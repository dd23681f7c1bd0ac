import Egress.Field.March

/-!
# Descent and walls

The direction of steepest descent of a cost field, the distance of each cell from the nearest
wall, and the speeds that keep people clear of walls.
-/
namespace Egress

variable {α : Type} [Scalar α]

/-- Slope at a cell along an axis, towards the lower of its two neighbours if that is lower than
the cell itself, and zero if not. -/
@[specialize] def slope (centre lower upper h : α) : α :=
  if lower ≤ upper ∧ lower < centre then (centre - lower) / h
  else if upper < centre then (upper - centre) / h
  else 0

namespace ZoneGrid

/-- Cost of the cell at an offset, infinite beyond the grid. -/
@[specialize] def costAt (g : ZoneGrid α) (cost : Lattice α) (c : Cell) (di dj : Int) : α :=
  match g.grid.offset? c di dj with
  | none => Scalar.infinity
  | some n => cost.getD n Scalar.infinity

/-- Slopes of the cost along x and y. -/
@[specialize] def gradient (g : ZoneGrid α) (cost : Lattice α) (c : Cell) : Vec α :=
  let v := cost.getD c Scalar.infinity
  ⟨slope v (g.costAt cost c (-1) 0) (g.costAt cost c 1 0) g.grid.cellSize,
    slope v (g.costAt cost c 0 (-1)) (g.costAt cost c 0 1) g.grid.cellSize⟩

/-- Unit vector in which the cost falls, zero where it does not fall and where no cost is
known. -/
@[specialize] def descent (g : ZoneGrid α) (cost : Lattice α) : Lattice (Vec α) :=
  .ofFn cost.width cost.height fun c =>
    if g.isPassable c && Scalar.isFinite (cost.getD c Scalar.infinity) then
      let slopes := g.gradient cost c
      if 0 < slopes.norm then (-slopes).shrink slopes.norm else .zero
    else .zero

def evenSpeed (g : ZoneGrid α) : Lattice α := .constant g.grid.width g.grid.height 1

def wallCells (g : ZoneGrid α) : List Cell :=
  (g.cells.entries.filter (·.2 = .wall)).map Prod.fst

/-- Distance of each cell from the nearest wall, infinite if there is none. -/
def wallDistance (g : ZoneGrid α) : Lattice α := g.solve g.evenSpeed g.wallCells

end ZoneGrid

/-- Speed that falls from one to zero as the nearest wall comes closer than `avoid`. -/
def wallAvoidSpeed (distance : Lattice α) (avoid : α) : Lattice α :=
  distance.map fun d =>
    if Scalar.isFinite d && decide (d < avoid) then Scalar.linMap 0 avoid 0 1 d else 1

end Egress
