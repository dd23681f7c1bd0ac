import Egress.Building.Basic
import Egress.Network.Factor

/-!
# Networks of doors

A directed graph with a vertex for each subroom and an edge for each way out of it: through a door
into another subroom, or out of the building. Vertices and edges are numbered in the order in
which they are added, and are never removed.
-/
namespace Egress

abbrev VertexId := Nat

abbrev EdgeId := Nat

structure Vertex where
  subroom : SubRoomId
  /-- The edges that leave the subroom, in the order in which they were added. -/
  out : List EdgeId

/-- The way through a door out of a subroom. -/
structure Edge (α : Type) where
  id : EdgeId
  source : VertexId
  /-- Where the edge leads, `none` for out of the building. -/
  dest : Option VertexId
  door : DoorId
  line : Segment α
  /-- Mean distance between the door and the other doors of the subroom. -/
  approximateDistance : α
  factors : FactorBag α

structure Network (α : Type) where
  vertices : Array Vertex
  edges : Array (Edge α)
  /-- The vertex of each subroom. -/
  vertexOf : OrderedMap SubRoomId VertexId

inductive NetworkError where
  /-- The network has no vertex for the subroom. -/
  | noVertex (subroom : SubRoomId)
  | doorNotInSubRoom (door : DoorId) (subroom : SubRoomId)
  | doorClosed (door : DoorId)
  /-- No way out of the building is known. -/
  | noRouteKnown (subroom : SubRoomId)
  /-- No door out of the subroom is known. -/
  | noOutEdges (subroom : SubRoomId)
  | building (error : BuildingError)
  deriving DecidableEq, Repr

def NetworkError.message : NetworkError → String
  | .noVertex s => s!"The graph has no vertex for subroom {s}"
  | .doorNotInSubRoom d s => s!"Door {d} is not on the boundary of subroom {s}"
  | .doorClosed d => s!"Door {d} is closed and cannot be used as an edge"
  | .noRouteKnown s => s!"No known route out of the building from subroom {s}"
  | .noOutEdges s => s!"Subroom {s} has no known doors"
  | .building e => s!"Building error: {e.message}"

namespace Edge

variable {α : Type} [Scalar α]

/-- Cost of taking the edge from the position `p`: the distance to the door, times the factors'
multiplier. -/
@[specialize] def weight (e : Edge α) (p : Point α) : α :=
  p.dist e.line.centre * e.factors.multiplier

def setFactor (e : Edge α) (name : String) (value time : α) : Edge α :=
  { e with factors := e.factors.insert name ⟨value, time⟩ }

end Edge

namespace Network

variable {α : Type}

def empty : Network α := ⟨#[], #[], .empty⟩

instance : Inhabited (Network α) := ⟨empty⟩

def vertex? (g : Network α) (v : VertexId) : Option Vertex := g.vertices[v]?

def edge? (g : Network α) (e : EdgeId) : Option (Edge α) := g.edges[e]?

def outOf (g : Network α) (v : VertexId) : List EdgeId := ((g.vertex? v).map (·.out)).getD []

/-- The edges out of a subroom, none if it has no vertex. -/
def outEdges (g : Network α) (s : SubRoomId) : List EdgeId :=
  match g.vertexOf.find? s with
  | some v => g.outOf v
  | none => []

def edgeThrough? (g : Network α) (s : SubRoomId) (door : DoorId) : Option EdgeId :=
  (g.outEdges s).find? fun e => ((g.edge? e).map (·.door)) == some door

/-- The edges through a door, in either direction. -/
def edgesThrough (g : Network α) (door : DoorId) : List EdgeId :=
  (g.edges.toList.filter (·.door == door)).map (·.id)

/-- The subroom that a vertex stands for. -/
def subroomAt? (g : Network α) (v : VertexId) : Option SubRoomId :=
  (g.vertex? v).map (·.subroom)

/-- The subroom that an edge leads into, `none` for exits. -/
def destSubRoom? (g : Network α) (e : EdgeId) : Option SubRoomId :=
  (g.edge? e).bind fun edge => edge.dest.bind g.subroomAt?

/-- Replaces an edge by its image. -/
def modifyEdge (g : Network α) (e : EdgeId) (f : Edge α → Edge α) : Network α :=
  { g with edges := g.edges.modify e f }

def setFactor [Scalar α] (g : Network α) (name : String) (time : α) (e : EdgeId) (value : α) :
    Network α :=
  g.modifyEdge e (·.setFactor name value time)

def setFactors [Scalar α] (g : Network α) (name : String) (time : α)
    (values : List (EdgeId × α)) : Network α :=
  values.foldl (fun g v => g.setFactor name time v.1 v.2) g

/-- The vertex of a subroom, which is added if there is none. -/
def addVertex (g : Network α) (s : SubRoomId) : Network α × VertexId :=
  match g.vertexOf.find? s with
  | some v => (g, v)
  | none =>
    let v := g.vertices.size
    ({ g with vertices := g.vertices.push ⟨s, []⟩, vertexOf := g.vertexOf.insert s v }, v)

variable [Scalar α]

/-- Mean distance between a door and the other open doors of a subroom that do not lead to the
same place, zero if there are none. -/
def approximateDistance (b : Building α) (s : SubRoomId) (uid : DoorId) (door : Door α)
    (side : Option SubRoomId) : α :=
  let others := (b.doorsOf s).filter fun d =>
    d.uid != uid && d.isOpen && d.otherSide s != some side
  if others.isEmpty then 0
  else
    Scalar.sum (others.map fun d => d.line.centre.dist door.line.centre) / (others.length : α)

/-- Appends an edge between vertices of the network. -/
def pushEdge (g : Network α) (source : VertexId) (dest : Option VertexId) (uid : DoorId)
    (line : Segment α) (distance : α) : Network α × EdgeId :=
  let e := g.edges.size
  ({ g with
      edges := g.edges.push ⟨e, source, dest, uid, line, distance, .empty⟩
      vertices := g.vertices.modify source fun v => { v with out := v.out ++ [e] } }, e)

/-- The edge out of a subroom through a door, which is added if there is none, together with the
vertices at its ends. -/
def addEdge (g : Network α) (b : Building α) (s : SubRoomId) (uid : DoorId) :
    Except NetworkError (Network α × EdgeId) :=
  match g.edgeThrough? s uid with
  | some e => .ok (g, e)
  | none =>
    match b.door uid with
    | .error e => .error (.building e)
    | .ok door =>
      if !door.isOpen then .error (.doorClosed uid)
      else match door.otherSide s with
        | none => .error (.doorNotInSubRoom uid s)
        | some side =>
          let distance := approximateDistance b s uid door side
          let (g₁, source) := g.addVertex s
          match side with
          | none => .ok (g₁.pushEdge source none uid door.line distance)
          | some t =>
            let (g₂, dest) := g₁.addVertex t
            .ok (g₂.pushEdge source (some dest) uid door.line distance)

/-- Adds edges for the listed doors of a subroom up to the first that cannot be added, whose error
is returned with what the network has become. -/
def addEdges (g : Network α) (b : Building α) (s : SubRoomId) :
    List DoorId → Network α × Except NetworkError Unit
  | [] => (g, .ok ())
  | uid :: rest =>
    match g.addEdge b s uid with
    | .ok (g', _) => addEdges g' b s rest
    | .error e => (g, .error e)

/-- Adds the vertex of a subroom and edges for all its open doors. The answer is how many edges
are new. -/
def addSubRoomDoors (g : Network α) (b : Building α) (s : SubRoomId) :
    Network α × Except NetworkError Nat :=
  match b.subroom s with
  | .error e => (g, .error (.building e))
  | .ok _ =>
    let g₁ := (g.addVertex s).1
    let doors := ((b.doorsOf s).filter (·.isOpen)).map (·.uid)
    let (g₂, result) := g₁.addEdges b s doors
    (g₂, result.map fun _ => g₂.edges.size - g₁.edges.size)

/-- Adds the doors of the listed subrooms up to the first that fails. -/
def addAllDoors (g : Network α) (b : Building α) :
    List SubRoomId → Except NetworkError (Network α)
  | [] => .ok g
  | s :: rest =>
    match g.addSubRoomDoors b s with
    | (g', .ok _) => addAllDoors g' b rest
    | (_, .error e) => .error e

/-- The complete network of a building: a vertex for each subroom and an edge for each open door
out of each of them. -/
def ofBuilding (b : Building α) : Except NetworkError (Network α) :=
  let subrooms := b.subrooms.values.map (·.uid)
  (subrooms.foldl (fun g s => (g.addVertex s).1) empty).addAllDoors b subrooms

end Network

end Egress
