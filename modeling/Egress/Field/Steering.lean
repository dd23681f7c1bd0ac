import Egress.Field.FloorFields

/-!
# Steering

The point that a person walks towards, and where the walls are. With floor fields the person
follows the field of the door headed for; without them, and where there is no field towards that
door, the way leads straight to the nearest point of the door.
-/
namespace Egress

/-- How people are steered through a building. -/
structure Steering (α : Type) where
  granularity : Granularity
  fields : Option (FloorFields α)

namespace Steering

variable {α : Type} [Scalar α]

/-- The steering that the parameters ask for, its floor fields solved. -/
def ofBuilding (b : Building α) (params : FieldParams α) :
    Except (FieldError α) (Steering α) :=
  match params.granularity with
  | .none => .ok ⟨.none, none⟩
  | g => do return ⟨g, some (← FloorFields.ofBuilding b params)⟩

/-- The door headed for. -/
def destinationOf (a : Pedestrian α) : Except (FieldError α) DoorId :=
  match a.destination with
  | some d => .ok d
  | none => .error (.noDestination a.id)

/-- An answer of the floor fields on the way to a door, and `none` where there are no floor fields
or none towards that door. -/
def viaFields {β : Type} (s : Steering α) (a : Pedestrian α)
    (ask : FloorFields α → Zone → Except (FieldError α) β) : Except (FieldError α) (Option β) :=
  match s.fields with
  | none => .ok none
  | some f =>
    match ask f (f.zoneFor a.room a.subroom) with
    | .ok v => .ok (some v)
    | .error (.noField _ _) => .ok none
    | .error e => .error e

def lineOf (b : Building α) (door : DoorId) : Except (FieldError α) (Segment α) :=
  match b.door door with
  | .ok d => .ok d.line
  | .error e => .error (.building e)

/-- The point to walk towards. -/
def target (s : Steering α) (b : Building α) (a : Pedestrian α) :
    Except (FieldError α) (Point α) := do
  let door ← destinationOf a
  match ← s.viaFields a fun f z => f.directionTo z door a.position with
  | some v => return a.position + v
  | none => return (← lineOf b door).clearOfFrame.nearestPoint a.position

/-- What remains to be walked to the door headed for. -/
def remaining (s : Steering α) (b : Building α) (a : Pedestrian α) : Except (FieldError α) α := do
  let door ← destinationOf a
  match ← s.viaFields a fun f z => f.costTo z door a.position with
  | some v => return v
  | none => return (← lineOf b door).distTo a.position

/-- The point of the list nearest to `p`, the first of equally near ones. -/
def nearestPoint? (p : Point α) : List (Point α) → Option (Point α)
  | [] => none
  | q :: qs => some (qs.foldl (fun best r =>
      if Scalar.precedes (r.dist p) (best.dist p) then r else best) q)

/-- The point nearest to a person on the walls and obstacles of the subroom. -/
def nearestBarrierPoint (b : Building α) (a : Pedestrian α) :
    Except (FieldError α) (Option (Point α)) :=
  match b.subroom a.subroom with
  | .error e => .error (.building e)
  | .ok s => .ok (nearestPoint? a.position (s.barriers.map (·.nearestPoint a.position)))

/-- Unit vector towards the nearest wall, zero if there is none. -/
def directionToWall (s : Steering α) (b : Building α) (a : Pedestrian α) :
    Except (FieldError α) (Vec α) :=
  match s.fields with
  | some f => f.wallDirectionAt (f.zoneFor a.room a.subroom) a.position
  | none => do
    match ← nearestBarrierPoint b a with
    | some p => return (p - a.position : Vec α).unit
    | none => return .zero

/-- Distance to the nearest wall, infinite if there is none. -/
def distanceToWall (s : Steering α) (b : Building α) (a : Pedestrian α) :
    Except (FieldError α) α :=
  match s.fields with
  | some f => f.wallDistanceAt (f.zoneFor a.room a.subroom) a.position
  | none => do
    match ← nearestBarrierPoint b a with
    | some p => return p.dist a.position
    | none => return Scalar.infinity

end Steering

end Egress
