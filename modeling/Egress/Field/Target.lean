import Egress.Field.Descent
import Egress.Grid.Trace

/-!
# Fields towards doors

The cost and direction fields that lead people in a zone to one of its doors. On the door itself
the direction leads through it, from the inside of the zone to what lies behind.
-/
namespace Egress

/-- Which cells of a door the front starts from. -/
inductive SeedMode where
  /-- All free cells on the door's line, clear of its frame. -/
  | wholeLine
  /-- The cell at the centre of the door. -/
  | centre
  deriving DecidableEq, Repr

/-- Travel cost to a door, and the direction in which to walk. -/
structure DoorField (α : Type) where
  target : DoorId
  /-- Infinite where the door cannot be reached from. -/
  cost : Lattice α
  /-- Unit vectors, zero where there is no way to go. -/
  direction : Lattice (Vec α)

namespace ZoneGrid

variable {α : Type} [Scalar α]

def freeCellsOn (g : ZoneGrid α) (s : Segment α) : List Cell :=
  (g.grid.cellsOn s).filter g.isPassable

/-- The free cells on the part of a door line that is clear of its frame, or on all of it if there
are none. -/
def doorCells (g : ZoneGrid α) (line : Segment α) : List Cell :=
  match g.freeCellsOn line.clearOfFrame with
  | [] => g.freeCellsOn line
  | cs => cs

/-- The cells that the front towards a door starts from. -/
def seeds (g : ZoneGrid α) (line : Segment α) : SeedMode → List Cell
  | .wholeLine => g.doorCells line
  | .centre =>
    match (g.grid.cellAt? line.centre).filter g.isPassable with
    | some c => [c]
    | none => g.doorCells line

/-- True if `p` falls on free floor. -/
def isFloorAt (g : ZoneGrid α) (p : Point α) : Bool :=
  match g.grid.cellAt? p with
  | some c => decide (g.kind c = .inside)
  | none => false

/-- Unit vector that leads through a door away from the inside, if one side of the door is free
floor. -/
def passVector (g : ZoneGrid α) (line : Segment α) : Option (Vec α) :=
  let normal := line.normal
  let reach := normal.scale (Scalar.larger 0.25 (1.5 * g.grid.cellSize))
  if g.isFloorAt (line.centre - reach) then some normal
  else if g.isFloorAt (line.centre + reach) then some (-normal)
  else none

/-- Gives all cells of a list the same value. -/
def overwrite {β : Type} (l : Lattice β) (cs : List Cell) (v : β) : Lattice β :=
  cs.foldl (fun l c => l.set c v) l

/-- The field towards a door of the zone. -/
def solveTarget (g : ZoneGrid α) (speed : Lattice α) (target : DoorId) (mode : SeedMode) :
    Except (FieldError α) (DoorField α) :=
  match g.targets.find? target with
  | none => .error (.noField g.zone target)
  | some line =>
    let cells := g.doorCells line
    if cells.isEmpty then .error (.targetBlocked g.zone target)
    else
      let solved := g.solve speed (g.seeds line mode)
      let cost := if mode = .centre then overwrite solved cells 0 else solved
      let direction := g.descent cost
      .ok {
        target
        cost
        direction := match g.passVector line with
          | some pass => overwrite direction (g.freeCellsOn line ++ cells) pass
          | none => direction }

end ZoneGrid

end Egress
