import Egress.Grid.Error

/-!
# Rectangular grids

Square cells known by `(i, j)`, `i` counting along x and `j` along y. Cell `(0, 0)` is centred on
the origin, so a position belongs to the cell whose centre is nearest.
-/
namespace Egress

/-- A cell of a grid by its place along x and along y. -/
abbrev Cell := Nat × Nat

/-- Where the cells of a grid lie. -/
structure RectGrid (α : Type) where
  /-- Centre of cell `(0, 0)`. -/
  origin : Point α
  /-- Side of a cell. -/
  cellSize : α
  /-- Number of cells along x. -/
  width : Nat
  /-- Number of cells along y. -/
  height : Nat

namespace RectGrid

variable {α : Type} [Scalar α]

/-- A usable cell size is positive and finite. -/
def checkCellSize (h : α) : Except (FieldError α) Unit :=
  if 0 < h ∧ Scalar.isFinite h then .ok () else .error (.cellSize h)

/-- A grid over the box from `lo` to `hi` with a spare cell on every side. -/
def covering (zone : Zone) (lo hi : Point α) (h : α) : Except (FieldError α) (RectGrid α) := do
  checkCellSize h
  let extent : Vec α := hi - lo
  if Scalar.isFinite extent.x && Scalar.isFinite extent.y && !decide (extent.x < 0)
      && !decide (extent.y < 0) then
    return {
      origin := ⟨lo.x - h, lo.y - h⟩
      cellSize := h
      width := Scalar.toCount (Scalar.ceil (extent.x / h)) + 3
      height := Scalar.toCount (Scalar.ceil (extent.y / h)) + 3 }
  else throw (.unbounded zone)

def size (g : RectGrid α) : Nat := g.width * g.height

def contains (g : RectGrid α) (c : Cell) : Bool := decide (c.1 < g.width ∧ c.2 < g.height)

/-- Number of a cell, counting along x first. -/
def key (g : RectGrid α) (c : Cell) : Nat := c.2 * g.width + c.1

@[specialize] def centre (g : RectGrid α) (c : Cell) : Point α :=
  ⟨g.origin.x + (c.1 : α) * g.cellSize, g.origin.y + (c.2 : α) * g.cellSize⟩

/-- The cell whose centre is nearest to `p`, if the grid has it. -/
def cellAt? (g : RectGrid α) (p : Point α) : Option Cell :=
  let i := Scalar.round ((p.x - g.origin.x) / g.cellSize)
  let j := Scalar.round ((p.y - g.origin.y) / g.cellSize)
  if 0 ≤ i ∧ 0 ≤ j ∧ Scalar.toCount i < g.width ∧ Scalar.toCount j < g.height then
    some (Scalar.toCount i, Scalar.toCount j)
  else none

/-- Nearest whole number to `v` among those below `n`, zero for what is no number. -/
def nearestBelow (v : α) (n : Nat) : Nat :=
  if Scalar.isNaN v then 0
  else Scalar.toCount (Scalar.smaller (Scalar.larger (Scalar.round v) 0) ((n - 1 : Nat) : α))

/-- The cell of the grid nearest to `p`, on the border for a position beyond it. -/
def nearestCell (g : RectGrid α) (p : Point α) : Cell :=
  (nearestBelow ((p.x - g.origin.x) / g.cellSize) g.width,
    nearestBelow ((p.y - g.origin.y) / g.cellSize) g.height)

/-- The cell `di` further along x and `dj` further along y, if the grid has it. -/
def offset? (g : RectGrid α) (c : Cell) (di dj : Int) : Option Cell :=
  let i := c.1 + di
  let j := c.2 + dj
  if 0 ≤ i ∧ 0 ≤ j ∧ i < g.width ∧ j < g.height then some (i.toNat, j.toNat) else none

/-- The cells that share a side with a cell: right, upper, left and lower. -/
def neighbours (g : RectGrid α) (c : Cell) : List Cell :=
  [(1, 0), (0, 1), (-1, 0), (0, -1)].filterMap fun (di, dj) => g.offset? c di dj

end RectGrid

end Egress
