import Egress.Grid.Trace
import Egress.Grid.Zoned

/-!
# Floor plans

The geometry of one zone, and its layout on a grid. Cells whose centre lies in a walkable area are
free floor; over them obstacles are drawn, then walls, and last the open doors, so that a door in
a wall can be walked through.
-/
namespace Egress

/-- The geometry of one zone. -/
structure FloorPlan (α : Type) where
  zone : Zone
  /-- Walkable areas, one for each subroom. -/
  areas : List (Polygon α)
  walls : List (Segment α)
  obstacles : List (Polygon α)
  /-- Lines of the open doors. -/
  targets : OrderedMap DoorId (Segment α)

namespace FloorPlan

variable {α : Type}

/-- Adds doors to a plan: open ones as targets, closed ones as walls. -/
def withDoors (plan : FloorPlan α) (doors : List (Door α)) : FloorPlan α :=
  doors.foldl (fun p d =>
    if d.isOpen then { p with targets := p.targets.insert d.uid d.line }
    else { p with walls := p.walls ++ [d.line] }) plan

def ofSubRoom (b : Building α) (uid : SubRoomId) : Except (FieldError α) (FloorPlan α) := do
  let s ← (b.subroom uid).mapError .building
  return withDoors ⟨.subroom uid, [s.polygon], s.walls, s.obstacles, .empty⟩ (b.doorsOf uid)

/-- The plan of a room with all its subrooms. The doors between them are targets too. -/
def ofRoom (b : Building α) (id : RoomId) : Except (FieldError α) (FloorPlan α) :=
  match b.room? id with
  | none => .error (.unknownZone (.room id))
  | some r => do
    let parts ← r.subrooms.mapM fun uid => (b.subroom uid).mapError FieldError.building
    return withDoors ⟨.room id, parts.map (·.polygon), parts.flatMap (·.walls),
      parts.flatMap (·.obstacles), .empty⟩ (b.doorsOfRoom id)

variable [Scalar α]

/-- The points that the grid of the plan has to cover. -/
def corners (plan : FloorPlan α) : List (Point α) :=
  plan.areas.flatMap (·.vertices) ++ plan.targets.values.flatMap fun l => [l.start, l.stop]

/-- Makes the cells of a list cells of the kind `k`. -/
def paint (k : CellKind) (cells : Lattice CellKind) (cs : List Cell) : Lattice CellKind :=
  cs.foldl (fun l c => l.set c k) cells

/-- The cells that an obstacle covers, within it and along its edges. -/
def obstacleCells (g : RectGrid α) (o : Polygon α) : List Cell :=
  (Lattice.places g.width g.height).filter (fun c => o.contains (g.centre c)) ++
    o.edges.flatMap g.cellsOn

/-- What each cell of a grid is. -/
def layout (plan : FloorPlan α) (g : RectGrid α) : Lattice CellKind :=
  let floor := Lattice.ofFn g.width g.height fun c =>
    if plan.areas.any (·.contains (g.centre c)) then CellKind.inside else .outside
  let blocked := plan.obstacles.foldl (fun l o => paint .wall l (obstacleCells g o)) floor
  let walled := plan.walls.foldl (fun l w => paint .wall l (g.cellsOn w)) blocked
  plan.targets.values.foldl (fun l d => paint .door l (g.cellsOn d)) walled

/-- Lays the plan out on a grid of cells of side `h`. A plan without targets is refused, as is one
that leaves no free floor. -/
def rasterize (plan : FloorPlan α) (h : α) : Except (FieldError α) (ZoneGrid α) := do
  if plan.targets.isEmpty then throw (.noTargets plan.zone)
  match Point.boundingBox plan.corners with
  | none => throw (.unbounded plan.zone)
  | some (lo, hi) =>
    let grid ← RectGrid.covering plan.zone lo hi h
    let laid : ZoneGrid α := ⟨plan.zone, grid, plan.layout grid, plan.targets⟩
    if laid.count .inside = 0 then throw (.noFloor plan.zone)
    return laid

end FloorPlan

end Egress
