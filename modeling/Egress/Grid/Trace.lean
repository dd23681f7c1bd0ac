import Egress.Grid.Rect

/-!
# Lines of cells

The cells that a straight line covers, drawn from one end to the other in steps along the longer
axis. Consecutive cells touch at least at a corner, so a line of wall cells cannot be passed by
steps from side to side.
-/
namespace Egress

/-- State of drawing: the cell reached and twice the distance from the ideal line. -/
structure Pen where
  x : Int
  y : Int
  err : Int

namespace Pen

/-- Moves the pen to the next cell. `dx` is the length of the line along x, `dy` the negative of
its length along y, and `sx` and `sy` are the directions of travel. -/
def step (dx dy sx sy : Int) (p : Pen) : Pen :=
  let alongX : Pen := if dy ≤ 2 * p.err then { p with err := p.err + dy, x := p.x + sx } else p
  if 2 * p.err ≤ dx then { alongX with err := alongX.err + dx, y := alongX.y + sy } else alongX

/-- The cells from the pen to `(x, y)`, at most `fuel + 1` of them. -/
def cells (dx dy sx sy x y : Int) : Nat → Pen → List Cell
  | 0, p => [(p.x.toNat, p.y.toNat)]
  | fuel + 1, p =>
    (p.x.toNat, p.y.toNat) ::
      if p.x = x ∧ p.y = y then [] else cells dx dy sx sy x y fuel (p.step dx dy sx sy)

end Pen

/-- The cells of the straight line between two cells, both included, from the first on. -/
def lineBetween (start stop : Cell) : List Cell :=
  let dx : Int := (stop.1 - start.1 : Int).natAbs
  let dy : Int := -((stop.2 - start.2 : Int).natAbs : Int)
  Pen.cells dx dy (if start.1 < stop.1 then 1 else -1) (if start.2 < stop.2 then 1 else -1)
    stop.1 stop.2 (dx - dy).toNat ⟨start.1, start.2, dx + dy⟩

/-- The cells of a grid that a segment covers. Ends beyond the grid are moved onto its border. -/
def RectGrid.cellsOn {α : Type} [Scalar α] (g : RectGrid α) (s : Segment α) : List Cell :=
  lineBetween (g.nearestCell s.start) (g.nearestCell s.stop)

end Egress
