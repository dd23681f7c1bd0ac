import Egress.Pedestrian

/-!
# Door traffic

Who heads for which door at one moment.
-/
namespace Egress

/-- A person who heads for a door. -/
structure Approach (α : Type) where
  agent : AgentId
  /-- The subroom that the person is in. -/
  subroom : SubRoomId
  /-- Meters per second. -/
  speed : α

/-- The people who head for each door, in the order in which they were recorded. -/
abbrev Traffic (α : Type) := OrderedMap DoorId (List (Approach α))

namespace Traffic

variable {α : Type} [Scalar α]

/-- The people who head for a door. -/
def approaching (t : Traffic α) (door : DoorId) : List (Approach α) := (t.find? door).getD []

/-- Records a person, who is left out if heading for no door. -/
def record (t : Traffic α) (a : Pedestrian α) : Traffic α :=
  match a.destination with
  | none => t
  | some door => t.insert door (approaching t door ++ [⟨a.id, a.subroom, a.speed⟩])

def ofAgents (agents : List (Pedestrian α)) : Traffic α := agents.foldl record .empty

def count (t : Traffic α) : Nat := t.values.foldl (fun n as => n + as.length) 0

end Traffic

end Egress
