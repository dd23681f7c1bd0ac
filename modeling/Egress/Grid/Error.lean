import Egress.Text.Decimal
import Egress.Grid.Zone
import Egress.Pedestrian

/-!
# Errors of grids and floor fields

Why a zone cannot be laid out on a grid or solved, and why a question about its fields has no
answer.
-/
namespace Egress

inductive FieldError (α : Type) where
  /-- The cell size is not a positive finite number. -/
  | cellSize (found : α)
  /-- The zone has no open door. -/
  | noTargets (zone : Zone)
  /-- The corners of the zone are not finite, or there are none. -/
  | unbounded (zone : Zone)
  /-- No cell of the zone is free floor. -/
  | noFloor (zone : Zone)
  /-- No cell on the door's line can be walked on. -/
  | targetBlocked (zone : Zone) (door : DoorId)
  /-- No fields have been solved for the zone. -/
  | unknownZone (zone : Zone)
  /-- The position is beyond the edge of the grid. -/
  | outsideGrid (zone : Zone) (position : Point α)
  /-- No cell at or near the position can be walked on. -/
  | noFreeCell (zone : Zone) (position : Point α)
  /-- The zone has no field towards the door. -/
  | noField (zone : Zone) (door : DoorId)
  /-- The person heads for no door. -/
  | noDestination (agent : AgentId)
  /-- People are steered without floor fields. -/
  | noFloorFields
  | building (error : BuildingError)

namespace FieldError

/-- A position as it is shown in messages. -/
def showPoint (p : Point Float) : String :=
  "Point \x7b coords: Matrix \x7b data: [" ++ Text.Decimal.detailed p.x ++ ", " ++
    Text.Decimal.detailed p.y ++ "] \x7d \x7d"

def message : FieldError Float → String
  | .cellSize h => s!"Grid cell size must be positive and finite, found {Text.Decimal.plain h}"
  | .noTargets z => s!"Domain {z.text} has no open doors to route to"
  | .unbounded z => s!"Geometry of domain {z.text} does not rasterise into a bounded area"
  | .noFloor z => s!"Domain {z.text} contains no walkable cells"
  | .targetBlocked z d => s!"Door {d} of domain {z.text} covers no walkable cell"
  | .unknownZone z => s!"No floor field for domain {z.text}"
  | .outsideGrid z p => s!"Position {showPoint p} is outside the grid of domain {z.text}"
  | .noFreeCell z p => s!"No walkable cell near {showPoint p} in domain {z.text}"
  | .noField z d => s!"No floor field towards door {d} in domain {z.text}"
  | .noDestination a => s!"Agent {a} has no destination to steer towards"
  | .noFloorFields => "Floor fields are disabled for this direction strategy"
  | .building e => s!"Building error: {e.message}"

end FieldError

end Egress
