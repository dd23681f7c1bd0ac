import Egress.Field.Params
import Egress.Grid.FloorPlan

/-!
# Floor fields of a building

Every zone of a building laid out on a grid, with its wall distances and a field towards each of
its doors. They are solved once; all questions are then answered at the cell nearest to a
position.
-/
namespace Egress

/-- One zone and everything solved over it. -/
structure ZoneFields (α : Type) where
  grid : ZoneGrid α
  /-- Speed that the door fields were solved with. -/
  speed : Lattice α
  /-- Distance from the nearest wall in meters. -/
  wallDistance : Lattice α
  /-- Unit vector towards the nearest wall. -/
  wallDirection : Lattice (Vec α)
  fields : OrderedMap DoorId (DoorField α)

/-- The fields of all zones of a building. -/
structure FloorFields (α : Type) where
  params : FieldParams α
  zones : OrderedMap Zone (ZoneFields α)

namespace ZoneFields

variable {α : Type} [Scalar α]

/-- Every `workers`-th element from number `first` on: the share of one worker. -/
def share {β : Type} (workers first : Nat) (xs : List β) : List β :=
  (xs.zipIdx.filter fun x => x.2 % workers = first).map Prod.fst

/-- How many workers `n` doors are shared out to on a machine with the given number of
processors. -/
def workerCount (processors workers n : Nat) : Nat :=
  max (min (if workers = 0 then processors else workers) n) 1

/-- Solves the fields towards all doors of a zone. If several fail, the failure of the first
worker that has one is reported, and of its doors the first. -/
def solveFields (processors : Nat) (g : ZoneGrid α) (speed : Lattice α) (params : FieldParams α) :
    Except (FieldError α) (OrderedMap DoorId (DoorField α)) := do
  let doors := g.targets.keys
  let workers := workerCount processors params.workers doors.length
  let batches ← (List.range workers).mapM fun k =>
    (share workers k doors).mapM fun d => g.solveTarget speed d params.seedMode
  return .ofList (batches.flatten.map fun f => (f.target, f))

/-- Solves a zone on a machine with the given number of processors: wall distances, speeds and the
fields towards its doors. -/
def ofGridOn (processors : Nat) (g : ZoneGrid α) (params : FieldParams α) :
    Except (FieldError α) (ZoneFields α) := do
  let distance := g.wallDistance
  let speed := match params.speedMode with
    | .even => g.evenSpeed
    | .wallAvoid => wallAvoidSpeed distance params.wallAvoidDistance
  let fields ← solveFields processors g speed params
  return ⟨g, speed, distance, g.descent distance, fields⟩

/-- Solves a zone with a processor for each of its doors. -/
def ofGrid (g : ZoneGrid α) (params : FieldParams α) : Except (FieldError α) (ZoneFields α) :=
  ofGridOn g.targets.keys.length g params

def field (z : ZoneFields α) (target : DoorId) : Except (FieldError α) (DoorField α) :=
  match z.fields.find? target with
  | some f => .ok f
  | none => .error (.noField z.grid.zone target)

end ZoneFields

namespace FloorFields

variable {α : Type} [Scalar α]

/-- Lays out and solves the given plans one after the other. -/
def ofPlans (plans : List (FloorPlan α)) (params : FieldParams α) :
    Except (FieldError α) (FloorFields α) := do
  RectGrid.checkCellSize params.cellSize
  let zones ← plans.mapM fun plan => do
    let g ← plan.rasterize params.cellSize
    return (plan.zone, ← ZoneFields.ofGrid g params)
  return ⟨params, .ofList zones⟩

/-- The plans of the zones of a building. -/
def plansOf (b : Building α) : Granularity → Except (FieldError α) (List (FloorPlan α))
  | .none => .error .noFloorFields
  | .room => b.rooms.values.mapM fun r => FloorPlan.ofRoom b r.id
  | .subroom => b.subrooms.values.mapM fun s => FloorPlan.ofSubRoom b s.uid

def ofBuilding (b : Building α) (params : FieldParams α) :
    Except (FieldError α) (FloorFields α) := do
  ofPlans (← plansOf b params.granularity) params

/-- The zone that a person in a room and subroom is steered in. -/
def zoneFor (f : FloorFields α) (room : RoomId) (subroom : SubRoomId) : Zone :=
  match f.params.granularity with
  | .room => .room room
  | _ => .subroom subroom

def zone (f : FloorFields α) (z : Zone) : Except (FieldError α) (ZoneFields α) :=
  match f.zones.find? z with
  | some fields => .ok fields
  | none => .error (.unknownZone z)

/-- The doors that a zone has fields for, by ascending number. -/
def knownTargets (f : FloorFields α) (z : Zone) : Except (FieldError α) (List DoorId) := do
  return (← f.zone z).fields.keys

/-- The field of a zone towards a door, and the cell at which it is read for `p`. -/
def fieldAt (f : FloorFields α) (z : Zone) (target : DoorId) (p : Point α) :
    Except (FieldError α) (DoorField α × Cell) := do
  let fields ← f.zone z
  let field ← match fields.fields.find? target with
    | some field => pure field
    | none => throw (.noField z target)
  return (field, ← fields.grid.queryCell p)

/-- Unit vector in which to walk from `p` towards a door. -/
def directionTo (f : FloorFields α) (z : Zone) (target : DoorId) (p : Point α) :
    Except (FieldError α) (Vec α) := do
  let (field, c) ← f.fieldAt z target p
  return field.direction.getD c .zero

/-- Travel cost from `p` to a door, infinite if there is no way. -/
def costTo (f : FloorFields α) (z : Zone) (target : DoorId) (p : Point α) :
    Except (FieldError α) α := do
  let (field, c) ← f.fieldAt z target p
  return field.cost.getD c Scalar.infinity

/-- Unit vector from `p` towards the nearest wall. -/
def wallDirectionAt (f : FloorFields α) (z : Zone) (p : Point α) :
    Except (FieldError α) (Vec α) := do
  let fields ← f.zone z
  return fields.wallDirection.getD (← fields.grid.queryCell p) .zero

def wallDistanceAt (f : FloorFields α) (z : Zone) (p : Point α) : Except (FieldError α) α := do
  let fields ← f.zone z
  return fields.wallDistance.getD (← fields.grid.queryCell p) Scalar.infinity

/-- Travel cost from the centre of one door of a zone to another. -/
def distanceBetween (f : FloorFields α) (z : Zone) (start stop : DoorId) :
    Except (FieldError α) α := do
  match (← f.zone z).grid.targets.find? start with
  | none => throw (.noField z start)
  | some line => f.costTo z stop line.centre

end FloorFields

end Egress
