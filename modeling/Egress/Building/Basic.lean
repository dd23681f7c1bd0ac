import Egress.Geometry.Polygon
import Egress.OrderedMap

/-!
# Buildings

A building has rooms, each divided into subrooms. Doors lead from one subroom into another or out
of the building: a crossing stays within its room, a transition may go anywhere. Rooms, subrooms
and doors are known by numbers.
-/
namespace Egress

abbrev RoomId := Nat

/-- Number of a subroom, unique across the building. -/
abbrev SubRoomId := Nat

/-- Number of a door, unique across the building. -/
abbrev DoorId := Nat

inductive DoorKind where
  /-- Joins two subrooms of one room. -/
  | crossing
  /-- Joins any two subrooms, or leads out. -/
  | transition
  deriving DecidableEq, Repr

/-- What a subroom is used for. -/
inductive SubRoomKind where
  | floor
  | corridor
  | lobby
  | entrance
  | stair
  | escalatorUp
  | escalatorDown
  | dedicatedArea
  | unknown
  deriving DecidableEq, Repr

structure Door (α : Type) where
  uid : DoorId
  kind : DoorKind
  /-- The opening, on the boundary of the subrooms that it joins. -/
  line : Segment α
  /-- The subroom on the first side. -/
  sideA : SubRoomId
  /-- The subroom on the second side, `none` outside. -/
  sideB : Option SubRoomId
  /-- A closed door is a wall. -/
  isOpen : Bool

structure SubRoom (α : Type) where
  uid : SubRoomId
  room : RoomId
  kind : SubRoomKind
  /-- Boundary of the floor. -/
  polygon : Polygon α
  /-- Wall lines. Doors are laid over them. -/
  walls : List (Segment α)
  /-- Areas within the boundary that cannot be walked on. -/
  obstacles : List (Polygon α)
  /-- Height of the floor in meters. -/
  elevation : α
  /-- Doors on the boundary, in the order in which they were added. -/
  doors : List DoorId

structure Room where
  id : RoomId
  caption : String
  /-- Subrooms in the order in which they were added. -/
  subrooms : List SubRoomId

structure Building (α : Type) where
  caption : String
  rooms : OrderedMap RoomId Room
  subrooms : OrderedMap SubRoomId (SubRoom α)
  doors : OrderedMap DoorId (Door α)

inductive BuildingError where
  | duplicateRoom (id : RoomId)
  | duplicateSubRoom (uid : SubRoomId)
  | duplicateDoor (uid : DoorId)
  | unknownRoom (id : RoomId)
  | unknownSubRoom (uid : SubRoomId)
  | unknownDoor (uid : DoorId)
  /-- A crossing between subrooms of two rooms, or leading out. -/
  | invalidCrossing (uid : DoorId)
  deriving DecidableEq, Repr

def BuildingError.message : BuildingError → String
  | .duplicateRoom id => s!"Room {id} already exists"
  | .duplicateSubRoom uid => s!"Subroom {uid} already exists"
  | .duplicateDoor uid => s!"Door {uid} already exists"
  | .unknownRoom id => s!"Unknown room {id}"
  | .unknownSubRoom uid => s!"Unknown subroom {uid}"
  | .unknownDoor uid => s!"Unknown door {uid}"
  | .invalidCrossing uid => s!"Crossing {uid} must connect two subrooms of the same room"

namespace Door

variable {α : Type}

def isExit (d : Door α) : Bool := d.sideB.isNone

def width [Scalar α] (d : Door α) : α := d.line.length

/-- True if the door is on the boundary of the subroom. -/
def connects (d : Door α) (s : SubRoomId) : Bool :=
  d.sideA == s || d.sideB == some s

/-- What lies behind the door seen from a subroom: `none` if the door is not on its boundary,
`some none` for the outside. -/
def otherSide (d : Door α) (s : SubRoomId) : Option (Option SubRoomId) :=
  if d.sideA == s then some d.sideB
  else if d.sideB == some s then some (some d.sideA)
  else none

end Door

namespace SubRoom

variable {α : Type} [Scalar α]

/-- A subroom at height zero without obstacles, whose walls are the edges of its boundary. -/
def ofPolygon (uid : SubRoomId) (room : RoomId) (kind : SubRoomKind) (polygon : Polygon α) :
    SubRoom α where
  uid
  room
  kind
  polygon
  walls := polygon.edges
  obstacles := []
  elevation := 0
  doors := []

/-- True if a person can stand at `p`. -/
def contains (s : SubRoom α) (p : Point α) : Bool :=
  s.polygon.contains p && !s.obstacles.any (·.contains p)

/-- The walls followed by the edges of the obstacles. -/
def barriers (s : SubRoom α) : List (Segment α) :=
  s.walls ++ s.obstacles.flatMap (·.edges)

end SubRoom

namespace Building

variable {α : Type}

/-- A building with nothing in it. -/
def named (caption : String) : Building α := ⟨caption, .empty, .empty, .empty⟩

def room? (b : Building α) (id : RoomId) : Option Room := b.rooms.find? id

def subroom? (b : Building α) (uid : SubRoomId) : Option (SubRoom α) := b.subrooms.find? uid

def door? (b : Building α) (uid : DoorId) : Option (Door α) := b.doors.find? uid

def subroom (b : Building α) (uid : SubRoomId) : Except BuildingError (SubRoom α) :=
  match b.subroom? uid with
  | some s => .ok s
  | none => .error (.unknownSubRoom uid)

def door (b : Building α) (uid : DoorId) : Except BuildingError (Door α) :=
  match b.door? uid with
  | some d => .ok d
  | none => .error (.unknownDoor uid)

/-- The doors on the boundary of the subroom, by ascending number. -/
def doorsOf (b : Building α) (s : SubRoomId) : List (Door α) :=
  b.doors.values.filter (·.connects s)

/-- The doors on the boundary of any subroom of the room, by ascending number. -/
def doorsOfRoom (b : Building α) (id : RoomId) : List (Door α) :=
  match b.room? id with
  | none => []
  | some r => b.doors.values.filter fun d => r.subrooms.any d.connects

/-- The subroom with the smallest number that contains `p`. -/
def subroomAt [Scalar α] (b : Building α) (p : Point α) : Option (SubRoom α) :=
  b.subrooms.values.find? (·.contains p)

end Building

end Egress
