import Egress.Building.Edit
import Egress.Hazard.Store
import Egress.Pedestrian

/-!
# An office floor

Two offices, a corridor, a lobby and a stairwell with two ways out, the people in the offices, and
smoke that spreads from the lobby's exit.

    +--------+---+-----------+
    |        |   | STAIR     |
    |OFFICE B2   4      exit 6 (top)
    |        |   +-----------+
    +---7----+ C |           |
    |        | O 3 LOBBY [] 5 exit
    |OFFICE A1 R |           |
    +--------+---+-----------+
-/
namespace Egress.Office

variable {α : Type} [Scalar α]

/-- The rooms, each with one subroom of the same number that fills it. -/
def rooms : List (RoomId × String × SubRoomKind × Point α × Point α) :=
  [(0, "office A", .floor, ⟨0, 0⟩, ⟨6, 6⟩),
    (1, "office B", .floor, ⟨0, 6⟩, ⟨6, 12⟩),
    (2, "corridor", .corridor, ⟨6, 0⟩, ⟨9, 12⟩),
    (3, "lobby", .lobby, ⟨9, 0⟩, ⟨17, 6⟩),
    (4, "stairwell", .stair, ⟨9, 6⟩, ⟨17, 12⟩)]

/-- What stands in the way in a room. -/
def obstacles (id : RoomId) : List (Polygon α) :=
  if id = 3 then [.rectangle ⟨12, 2.5⟩ ⟨13, 3.5⟩] else []

/-- The doors, with the subrooms on their two sides. -/
def doors : List (DoorId × Segment α × SubRoomId × Option SubRoomId) :=
  [(1, ⟨⟨6, 2.5⟩, ⟨6, 3.5⟩⟩, 0, some 2),
    (2, ⟨⟨6, 8.5⟩, ⟨6, 9.5⟩⟩, 1, some 2),
    (3, ⟨⟨9, 1⟩, ⟨9, 3⟩⟩, 2, some 3),
    (4, ⟨⟨9, 9⟩, ⟨9, 10⟩⟩, 2, some 4),
    (5, ⟨⟨17, 2⟩, ⟨17, 4⟩⟩, 3, none),
    (6, ⟨⟨14, 12⟩, ⟨16, 12⟩⟩, 4, none),
    (7, ⟨⟨1, 6⟩, ⟨2, 6⟩⟩, 0, some 1)]

def building : Except BuildingError (Building α) := do
  let furnished ← rooms.foldlM (fun b (id, caption, kind, lo, hi) => do
      let b ← b.addRoom id caption
      let s := SubRoom.ofPolygon id id kind (.rectangle lo hi)
      b.addSubRoom { s with obstacles := obstacles id }) (Building.named "office floor")
  doors.foldlM (fun b (uid, line, a, side) => b.addDoor uid .transition line a side) furnished

/-- Where person number `k` stands: on a regular grid, in either office by turns. -/
def place (k : Nat) : Point α :=
  let slot := k / 2
  ⟨0.8 + 1.2 * ((slot % 4 : Nat) : α),
    0.8 + 1.2 * ((slot / 4 : Nat) : α) + 6 * ((k % 2 : Nat) : α)⟩

/-- Up to 32 people in the offices of a building. Those who would stand outside are left out. -/
def crowd (b : Building α) (n : Nat) : List (Pedestrian α) :=
  (List.range (min n 32)).filterMap fun k =>
    (b.subroomAt (place k)).map fun s =>
      { Pedestrian.standing k s.room s.uid (place k) with
        riskTolerance := ((k % 5 : Nat) : α) * 0.25 }

/-- Thickness of the smoke at a distance from its source, once it has grown to the share
`growth`. -/
def thickness (growth distance : α) : α := 3 * growth * Scalar.exp (-distance / 4)

/-- The mesh of the smoke at a time. -/
def smokeMesh (params : HazardParams α) (time : α) : Except (HazardError α) (HazardMesh α) :=
  let growth := Scalar.smaller (time / Scalar.larger params.finalTime 1) 1
  HazardMesh.new ⟨0, 0⟩ 1 <| .ofFn 13 18 fun c =>
    thickness growth ((⟨(c.2 : α), (c.1 : α)⟩ : Point α).dist ⟨17, 3⟩)

/-- Stores a mesh for `time` and for every update interval after it up to the final time, at most
`fuel` of them. -/
def addSmoke : Nat → HazardStore α → α → Except (HazardError α) (HazardStore α)
  | 0, store, _ => .ok store
  | fuel + 1, store, time =>
    if time ≤ store.params.finalTime then do
      let key := store.key .smokeDensity store.params.eyeHeight none time
      let store := store.insert key (← smokeMesh store.params time)
      if 0 < store.params.updateInterval then
        addSmoke fuel store (time + store.params.updateInterval)
      else return store
    else .ok store

/-- Smoke that spreads from the lobby's exit, a mesh for each update interval. -/
def smoke (params : HazardParams α) : Except (HazardError α) (HazardStore α) :=
  let intervals := Scalar.toCount (params.finalTime / params.updateInterval)
  addSmoke (2 * intervals + 2) (.empty params) 0

end Egress.Office
