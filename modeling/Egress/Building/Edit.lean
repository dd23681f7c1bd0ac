import Egress.Building.Basic

/-!
# Building up a building

Rooms, subrooms and doors are added one at a time, and doors opened and closed. An addition is
refused if the number is taken or something that it refers to is missing; a refused one changes
nothing.
-/
namespace Egress.Building

variable {α : Type}

def addRoom (b : Building α) (id : RoomId) (caption : String) :
    Except BuildingError (Building α) :=
  if b.rooms.contains id then .error (.duplicateRoom id)
  else .ok { b with rooms := b.rooms.insert id ⟨id, caption, []⟩ }

def addSubRoom (b : Building α) (s : SubRoom α) : Except BuildingError (Building α) :=
  if b.subrooms.contains s.uid then .error (.duplicateSubRoom s.uid)
  else match b.room? s.room with
    | none => .error (.unknownRoom s.room)
    | some r => .ok { b with
        rooms := b.rooms.insert s.room { r with subrooms := r.subrooms ++ [s.uid] }
        subrooms := b.subrooms.insert s.uid s }

/-- Appends a door to the doors of a subroom. -/
def recordDoor (subrooms : OrderedMap SubRoomId (SubRoom α)) (uid : DoorId) (s : SubRoomId) :
    OrderedMap SubRoomId (SubRoom α) :=
  subrooms.modify s fun sub => { sub with doors := sub.doors ++ [uid] }

/-- Adds an open door from the subroom `a` to the subroom `side`, or to the outside. -/
def addDoor (b : Building α) (uid : DoorId) (kind : DoorKind) (line : Segment α) (a : SubRoomId)
    (side : Option SubRoomId) : Except BuildingError (Building α) := do
  if b.doors.contains uid then throw (.duplicateDoor uid)
  let roomA := (← b.subroom a).room
  let roomB ← match side with
    | some s => some <$> SubRoom.room <$> b.subroom s
    | none => pure none
  if kind = .crossing ∧ roomB ≠ some roomA then throw (.invalidCrossing uid)
  return { b with
    subrooms := (a :: side.toList).foldl (recordDoor · uid) b.subrooms
    doors := b.doors.insert uid ⟨uid, kind, line, a, side, true⟩ }

def setDoorOpen (b : Building α) (uid : DoorId) (isOpen : Bool) :
    Except BuildingError (Building α) :=
  match b.door? uid with
  | none => .error (.unknownDoor uid)
  | some d => .ok { b with doors := b.doors.insert uid { d with isOpen } }

end Egress.Building
