import Egress.Field.FloorFields

/-!
# Dumps of floor fields

A zone with its fields as lines of comma separated values, one for each door and cell under a line
that names the columns.
-/
namespace Egress

def CellKind.text : CellKind → String
  | .outside => "Outside"
  | .inside => "Inside"
  | .wall => "Wall"
  | .door => "Door"

namespace ZoneFields

def dumpHeader : String := "target,x_m,y_m,cell_type,wall_distance_m,cost,dir_x,dir_y"

/-- What the lines of one cell have in common: where it is, what it is, and how far from a wall. -/
def dumpPlace (z : ZoneFields Float) (c : Cell) (k : CellKind) : String :=
  let p := z.grid.grid.centre c
  ",".intercalate [Text.Decimal.pointed p.x, Text.Decimal.pointed p.y, k.text,
    Text.Decimal.pointed (z.wallDistance.getD c Scalar.infinity)]

/-- The line of one cell in the field towards a door, given what its lines have in common. -/
def dumpLine (f : DoorField Float) (c : Cell) (place : String) : String :=
  let v := f.direction.getD c .zero
  ",".intercalate <|
    [toString f.target, place] ++
      [f.cost.getD c Scalar.infinity, v.x, v.y].map Text.Decimal.pointed

/-- The lines for the given doors. Nothing is written for no doors, not even a header. -/
def dump (z : ZoneFields Float) (targets : List DoorId) :
    Except (FieldError Float) (List String) := do
  let places := z.grid.cells.entries.map fun (c, k) => (c, z.dumpPlace c k)
  let lines ← targets.mapM fun t => do
    let f ← z.field t
    return places.map fun (c, place) => dumpLine f c place
  return if lines.flatten.isEmpty then [] else dumpHeader :: lines.flatten

end ZoneFields

/-- The dump of a zone for the given doors. -/
def FloorFields.dump (f : FloorFields Float) (z : Zone) (targets : List DoorId) :
    Except (FieldError Float) (List String) := do
  (← f.zone z).dump targets

end Egress
