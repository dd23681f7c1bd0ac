import Egress.Building.Basic

/-!
# Pedestrians

The people who walk through a building, as far as routing and steering read and change them.
-/
namespace Egress

abbrev AgentId := Nat

structure Pedestrian (α : Type) where
  id : AgentId
  position : Point α
  /-- Velocity in meters per second. -/
  velocity : Vec α
  /-- Height of the floor under the feet in meters. -/
  elevation : α
  room : RoomId
  subroom : SubRoomId
  /-- Readiness to walk through hazards, from 0 (none) to 1 (pays them no heed). -/
  riskTolerance : α
  /-- The door headed for. -/
  destination : Option DoorId
  /-- The line of that door. -/
  exitLine : Option (Segment α)

namespace Pedestrian

variable {α : Type}

/-- A person who stands still, heads for no door and avoids every hazard. -/
def standing [Scalar α] (id : AgentId) (room : RoomId) (subroom : SubRoomId)
    (position : Point α) : Pedestrian α where
  id
  position
  velocity := .zero
  elevation := 0
  room
  subroom
  riskTolerance := 0
  destination := none
  exitLine := none

def speed [Scalar α] (p : Pedestrian α) : α := p.velocity.norm

def headFor (p : Pedestrian α) (door : DoorId) (line : Segment α) : Pedestrian α :=
  { p with destination := some door, exitLine := some line }

end Pedestrian

end Egress
