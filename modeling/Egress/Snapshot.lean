import Egress.Field.FloorFields
import Egress.Hazard.Store
import Egress.Scenario.Walking
import Egress.Settings
import Egress.Text.Json

/-!
# Snapshots

The library's values as JSON, to be looked at from outside. What is not finite is written as a text,
and zero without a sign. Kinds and choices have the names that parameter files give them.
-/
namespace Egress

open Text (Json)

def SubRoomKind.names : List (String × SubRoomKind) :=
  [("Floor", .floor), ("Corridor", .corridor), ("Lobby", .lobby), ("Entrance", .entrance),
    ("Stair", .stair), ("EscalatorUp", .escalatorUp), ("EscalatorDown", .escalatorDown),
    ("DA", .dedicatedArea), ("Unknown", .unknown)]

def DoorKind.names : List (String × DoorKind) :=
  [("Crossing", .crossing), ("Transition", .transition)]

namespace Snapshot

def num (x : Float) : Json :=
  if x.isNaN then .text "NaN"
  else if x.isInf then .text (if x < 0 then "-inf" else "inf")
  else .decimal (if x == 0 then 0 else x)

def nat (n : Nat) : Json := .integer n

def list {α : Type} (write : α → Json) (xs : List α) : Json := .list (xs.map write)

def orNull {α : Type} (write : α → Json) : Option α → Json
  | some v => write v
  | none => .null

def point (p : Point Float) : Json := .list [num p.x, num p.y]
def vec (v : Vec Float) : Json := .list [num v.x, num v.y]

def line (s : Segment Float) : Json :=
  .list [num s.start.x, num s.start.y, num s.stop.x, num s.stop.y]

def polygon (a : Polygon Float) : Json := list point a.vertices
def cell (c : Cell) : Json := .list [nat c.1, nat c.2]
def box : Option (Point Float × Point Float) → Json := orNull fun b => .list [point b.1, point b.2]

def named {α : Type} [DecidableEq α] (names : List (String × α)) (v : α) : Json :=
  orNull .text ((names.find? fun e => e.2 = v).map Prod.fst)

def zone : Zone → Json
  | .room id => .object [("Room", nat id)]
  | .subroom uid => .object [("SubRoom", nat uid)]

def room (r : Room) : Json :=
  .object [("id", nat r.id), ("caption", .text r.caption), ("subrooms", list nat r.subrooms)]

def subroom (s : SubRoom Float) : Json :=
  .object [("uid", nat s.uid), ("room", nat s.room), ("kind", named SubRoomKind.names s.kind),
    ("polygon", polygon s.polygon), ("walls", list line s.walls),
    ("obstacles", list polygon s.obstacles), ("elevation", num s.elevation),
    ("doors", list nat s.doors)]

def door (d : Door Float) : Json :=
  .object [("uid", nat d.uid), ("kind", named DoorKind.names d.kind), ("line", line d.line),
    ("a", nat d.sideA), ("b", orNull nat d.sideB), ("open", .boolean d.isOpen),
    ("exit", .boolean d.isExit), ("width", num d.width)]

def building (b : Building Float) : Json :=
  .object [("caption", .text b.caption), ("rooms", list room b.rooms.values),
    ("subrooms", list subroom b.subrooms.values), ("doors", list door b.doors.values)]

def agent (a : Pedestrian Float) : Json :=
  .object [("id", nat a.id), ("pos", point a.position), ("vel", vec a.velocity),
    ("speed", num a.speed), ("elevation", num a.elevation), ("room", nat a.room),
    ("subroom", nat a.subroom), ("risk", num a.riskTolerance), ("dest", orNull nat a.destination),
    ("line", orNull line a.exitLine)]

def fieldParams (p : FieldParams Float) : Json :=
  .object [("cell_size_m", num p.cellSize), ("wall_avoid_distance_m", num p.wallAvoidDistance),
    ("speed_mode", named SpeedMode.names p.speedMode),
    ("target_mode", named SeedMode.names p.seedMode),
    ("granularity", named Granularity.names p.granularity), ("num_solver_threads", nat p.workers)]

def sensorParams (p : SensorParams Float) : Json :=
  .object [("discover_doors", .boolean p.discovery), ("room_to_floor", .boolean p.circulation),
    ("jam", .boolean p.congestion), ("last_destinations", .boolean p.recency),
    ("hazard", .boolean p.danger), ("jam_threshold", num p.congestionThreshold),
    ("jam_stationary_weight", num p.stationaryWeight),
    ("last_destinations_depth", nat p.recencyDepth),
    ("last_destinations_penalty", num p.recencyPenalty),
    ("hazard_quantity", named HazardQuantity.names p.dangerQuantity)]

def routerParams (p : RouterParams Float) : Json :=
  .object [("cognitive_map_mode", named MapMode.names p.mapMode),
    ("sensors", sensorParams p.sensors)]

def hazardParams (p : HazardParams Float) : Json :=
  .object [("update_interval_s", num p.updateInterval), ("final_time_s", num p.finalTime),
    ("eye_height_m", num p.eyeHeight), ("elevation_bucket_m", num p.elevationBucket)]

def hazardKey (k : HazardKey) : Json :=
  .object [("quantity", named HazardQuantity.names k.quantity),
    ("elevation_bucket", .integer k.elevationBucket), ("door", orNull nat k.door),
    ("time_bucket", nat k.timeBucket), ("text", .text k.text)]

def factor (f : Factor Float) : Json := .list [num f.value, num f.updated]

def factorBag (bag : FactorBag Float) : Json :=
  .object (bag.entries.map fun (name, f) => (name, factor f))

def factors (g : Network Float) : Json := list (fun e => factorBag e.factors) g.edges.toList

def edge (e : Edge Float) : Json :=
  .object [("id", nat e.id), ("source", nat e.source), ("dest", orNull nat e.dest),
    ("door", nat e.door), ("line", line e.line), ("approx", num e.approximateDistance),
    ("exit", .boolean e.dest.isNone), ("factors", factorBag e.factors),
    ("multiplier", num e.factors.multiplier)]

def vertex (v : Vertex) : Json := .object [("subroom", nat v.subroom), ("out", list nat v.out)]

def network (g : Network Float) : Json :=
  .object [("vertices", list vertex g.vertices.toList), ("edges", list edge g.edges.toList)]

def destination (d : Destination Float) : Json :=
  .object [("edge", nat d.edge), ("door", nat d.door), ("cost", num d.cost),
    ("path", list nat d.path)]

def cognitiveMap (m : CognitiveMap Float) : Json :=
  .object [("agent", nat m.agent), ("mode", named MapMode.names m.mode),
    ("num_edges", nat m.network.edges.size), ("history", list nat m.history),
    ("doors", list nat m.historyDoors), ("depth", nat m.depth),
    ("last", orNull nat m.lastDestination?), ("has", .boolean m.hasDestination),
    ("last_subroom", orNull nat m.lastSubRoom)]

def rect (g : RectGrid Float) : Json :=
  .object [("origin", point g.origin), ("h", num g.cellSize),
    ("num_cells", .list [nat g.width, nat g.height]), ("num_points", nat g.size)]

def grid (g : ZoneGrid Float) : Json :=
  .object [("domain", zone g.zone), ("grid", rect g.grid),
    ("rows", list (fun row => .text (.ofList (row.map CellKind.char))) g.cells.rows),
    ("targets", .object (g.targets.entries.map fun (d, l) => (toString d, line l))),
    ("counts", list (fun k => nat (g.count k)) [.outside, .inside, .wall, .door])]

def scalars (l : Lattice Float) : Json := list (list num) l.rows
def vectors (l : Lattice (Vec Float)) : Json := list (list vec) l.rows

def doorField (f : DoorField Float) : Json :=
  .object [("target", nat f.target), ("cost", scalars f.cost), ("direction", vectors f.direction)]

def mesh (m : HazardMesh Float) : Json :=
  .object [("origin", point m.origin), ("cell", num m.cellSize),
    ("values", list (list num) m.values.lists)]

/-- Two sets of events and how they compare. -/
def events (a b : Events) : Json :=
  .object [("a", .text a.text), ("debug", .text ("SensorEvents(" ++ a.text ++ ")")),
    ("bits", nat a.bits.toNat), ("empty", .boolean a.isEmpty), ("union", .text (a.union b).text),
    ("or", nat (a.union b).bits.toNat), ("contains", .boolean (a.contains b)),
    ("intersects", .boolean (a.intersects b))]

def step : Step → Json
  | .moved => .text "Moved"
  | .evacuated => .text "Evacuated"
  | .blocked => .text "Blocked"

end Snapshot

end Egress
