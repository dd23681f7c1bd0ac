import Egress.MinHeap
import Egress.Network.Basic

/-!
# Cheapest ways out

What an edge costs depends on where it is entered from: the first from where the person stands,
each later one from the door before it. The search therefore labels edges and not vertices. It
takes the cheapest labelled edge, ends if that is an exit, and otherwise labels the edges out of
the subroom that it leads into, except those that lead straight back.

Each edge is settled at most once and then labels at most all edges, which bounds the number of
entries that the queue ever holds.
-/
namespace Egress

/-- A way out of a subroom. -/
structure Destination (α : Type) where
  /-- First edge of the way. -/
  edge : EdgeId
  /-- The door of that edge. -/
  door : DoorId
  /-- Sum of the weights of the edges. -/
  cost : α
  /-- All edges of the way in order. -/
  path : List EdgeId

/-- An edge with the cost of a chain of edges up to it. -/
structure Label (α : Type) where
  cost : α
  edge : EdgeId

variable {α : Type} [Scalar α]

/-- Cheaper labels come first, of equally cheap ones that with the lower edge number. -/
@[specialize] def Label.before (a b : Label α) : Bool :=
  Scalar.precedes a.cost b.cost || (!Scalar.precedes b.cost a.cost && decide (a.edge < b.edge))

/-- State of a search. The queue keeps labels that have been bettered since. -/
structure Search (α : Type) where
  /-- Cost of the cheapest chain found up to each edge. -/
  cost : Array α
  /-- The edge before each edge on that chain. -/
  previous : Array (Option EdgeId)
  /-- Edges whose cost is final. -/
  settled : Array Bool
  queue : MinHeap (Label α)

namespace Search

/-- Labels an edge with the cost of a chain that reaches it through `previous`, if that is an
improvement. -/
def offer (s : Search α) (previous : Option EdgeId) (e : EdgeId) (cost : α) : Search α :=
  if cost < s.cost.getD e Scalar.infinity then
    { s with
      cost := s.cost.setIfInBounds e cost
      previous := s.previous.setIfInBounds e previous
      queue := s.queue.push Label.before ⟨cost, e⟩ }
  else s

/-- The search before its first step: the edges out of a vertex, entered from `p`. -/
def start (g : Network α) (v : VertexId) (p : Point α) : Search α :=
  let n := g.edges.size
  (g.outOf v).foldl (fun s e => match g.edge? e with
      | some edge => s.offer none e (edge.weight p)
      | none => s)
    ⟨.replicate n Scalar.infinity, .replicate n none, .replicate n false, .nil⟩

/-- Labels the edges that follow an edge of the given cost, except settled ones and those that
lead back to where it came from. -/
def expand (g : Network α) (s : Search α) (edge : Edge α) (dest : VertexId) (cost : α) :
    Search α :=
  (g.outOf dest).foldl (fun s e => match g.edge? e with
      | some next =>
        if s.settled.getD e true || next.dest == some edge.source then s
        else s.offer (some edge.id) e (cost + next.weight edge.line.centre)
      | none => s) s

/-- What a step of the search comes to. -/
inductive Step (α : Type) where
  /-- The queue is empty. -/
  | exhausted
  | going (s : Search α)
  /-- The cheapest labelled edge is an exit. -/
  | found (s : Search α) (exit : EdgeId) (cost : α)

/-- Takes the first label from the queue: drops it if it has been bettered, ends at an exit, and
otherwise settles the edge and labels what follows. -/
def step (g : Network α) (s : Search α) : Step α :=
  match s.queue.pop? Label.before with
  | none => .exhausted
  | some (l, rest) =>
    if s.settled.getD l.edge true || decide (s.cost.getD l.edge Scalar.infinity < l.cost) then
      .going { s with queue := rest }
    else
      let s' := { s with settled := s.settled.setIfInBounds l.edge true, queue := rest }
      match g.edge? l.edge with
      | none => .going s'
      | some edge =>
        match edge.dest with
        | none => .found s' l.edge l.cost
        | some dest => .going (expand g s' edge dest l.cost)

/-- Takes up to `fuel` steps. -/
def run (g : Network α) : Nat → Search α → Option (Search α × EdgeId × α)
  | 0, _ => none
  | fuel + 1, s =>
    match s.step g with
    | .exhausted => none
    | .going s' => run g fuel s'
    | .found s' exit cost => some (s', exit, cost)

/-- The chain of edges up to `e`, before the edges of `rest`. -/
def chain (s : Search α) : Nat → EdgeId → List EdgeId → List EdgeId
  | 0, e, rest => e :: rest
  | fuel + 1, e, rest =>
    match s.previous.getD e none with
    | some p => chain s fuel p (e :: rest)
    | none => e :: rest

end Search

namespace Network

/-- The destination whose way is the given list of edges. -/
def destinationAlong (g : Network α) (path : List EdgeId) (cost : α) : Destination α :=
  let edge := path.headD 0
  ⟨edge, ((g.edge? edge).map (·.door)).getD 0, cost, path⟩

/-- The cheapest known way out of the building for a person at `p` in a subroom. -/
def cheapestDestination (g : Network α) (subroom : SubRoomId) (p : Point α) :
    Except NetworkError (Destination α) :=
  match g.vertexOf.find? subroom with
  | none => .error (.noVertex subroom)
  | some v =>
    let n := g.edges.size
    match Search.run g (n + n * n + 1) (Search.start g v p) with
    | none => .error (.noRouteKnown subroom)
    | some (s, exit, cost) => .ok (g.destinationAlong (s.chain n exit []) cost)

/-- True if the first of two weighted edges is cheaper, or as cheap with a lower number. -/
def cheaper (a b : EdgeId × α) : Bool :=
  Scalar.precedes a.2 b.2 || (!Scalar.precedes b.2 a.2 && decide (a.1 < b.1))

/-- The cheapest door out of a subroom for a person at `p`, wherever it leads. -/
def localDestination (g : Network α) (subroom : SubRoomId) (p : Point α) :
    Except NetworkError (Destination α) :=
  match g.vertexOf.find? subroom with
  | none => .error (.noVertex subroom)
  | some v =>
    let weighted := (g.outOf v).filterMap fun e => (g.edge? e).map fun edge => (e, edge.weight p)
    match weighted with
    | [] => .error (.noOutEdges subroom)
    | w :: ws =>
      let (e, cost) := ws.foldl (fun best w => if cheaper w best then w else best) w
      .ok (g.destinationAlong [e] cost)

end Network

end Egress
