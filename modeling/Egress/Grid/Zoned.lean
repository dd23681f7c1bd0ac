import Egress.Grid.Rect
import Egress.Lattice

/-!
# Zones on a grid

A zone laid out on a grid: what each cell is, and the doors that people in the zone can head for.
A position that falls on a wall is read at the nearest free cell within three rings around it.
-/
namespace Egress

/-- What a cell is. -/
inductive CellKind where
  /-- Not part of the zone. -/
  | outside
  /-- Free floor. -/
  | inside
  /-- Wall or obstacle. -/
  | wall
  /-- Free floor in an open door. -/
  | door
  deriving DecidableEq, Repr

/-- True of cells that can be walked on. -/
def CellKind.isPassable : CellKind → Bool
  | .inside | .door => true
  | .outside | .wall => false

/-- The character that a cell is drawn by. -/
def CellKind.char : CellKind → Char
  | .outside => 'o'
  | .inside => '.'
  | .wall => '#'
  | .door => 'D'

/-- The kind of cell that a character draws, those without a meaning being outside. -/
def CellKind.ofChar (c : Char) : CellKind :=
  if c = '.' then .inside else if c = '#' then .wall else if c = 'D' then .door else .outside

/-- A zone laid out on a grid. -/
structure ZoneGrid (α : Type) where
  zone : Zone
  grid : RectGrid α
  cells : Lattice CellKind
  /-- Lines of the doors that fields can be solved towards. -/
  targets : OrderedMap DoorId (Segment α)

namespace ZoneGrid

variable {α : Type} [Scalar α]

/-- What a cell is. Beyond the grid there is nothing of the zone. -/
def kind (g : ZoneGrid α) (c : Cell) : CellKind := g.cells.getD c .outside

def isPassable (g : ZoneGrid α) (c : Cell) : Bool := (g.kind c).isPassable

def count (g : ZoneGrid α) (k : CellKind) : Nat := g.cells.count (· = k)

/-- Whole numbers from `-r` to `r`. -/
def span (r : Nat) : List Int := (List.range (2 * r + 1)).map fun (k : Nat) => (k : Int) - r

/-- The free cells exactly `r` columns or rows away from a cell and no further. -/
def freeRing (g : ZoneGrid α) (c : Cell) (r : Nat) : List Cell :=
  (span r).flatMap fun di => (span r).filterMap fun dj =>
    if di.natAbs = r ∨ dj.natAbs = r then (g.grid.offset? c di dj).filter g.isPassable else none

/-- True if the centre of `c` is nearer to `p` than that of `c'`, or as near with a lower number. -/
def nearer (g : ZoneGrid α) (p : Point α) (c c' : Cell) : Bool :=
  let d := (g.grid.centre c).dist p
  let d' := (g.grid.centre c').dist p
  Scalar.precedes d d' || (!Scalar.precedes d' d && decide (g.grid.key c < g.grid.key c'))

/-- The cell of the list whose centre is nearest to `p`, of equally near ones that with the lowest
number. -/
def nearest? (g : ZoneGrid α) (p : Point α) : List Cell → Option Cell
  | [] => none
  | c :: cs => some (cs.foldl (fun best c' => if g.nearer p c' best then c' else best) c)

/-- The cell at which a question about `p` is answered: the cell at `p` if it is free, and
otherwise the nearest free cell of the first of three rings around it that has one. -/
def queryCell (g : ZoneGrid α) (p : Point α) : Except (FieldError α) Cell :=
  match g.grid.cellAt? p with
  | none => .error (.outsideGrid g.zone p)
  | some c =>
    if g.isPassable c then .ok c
    else match [1, 2, 3].findSome? fun r => g.nearest? p (g.freeRing c r) with
      | some c' => .ok c'
      | none => .error (.noFreeCell g.zone p)

end ZoneGrid

end Egress
