import Egress.Network.Search
import Egress.Pedestrian

/-!
# Cognitive maps

What one person knows of a building: a network of doors, which is a copy of the complete one or
grows as doors are discovered, and the latest choices of where to go.
-/
namespace Egress

/-- How much a person knows at first. -/
inductive MapMode where
  /-- The whole building. -/
  | complete
  /-- Nothing. -/
  | progressive
  deriving DecidableEq, Repr

structure CognitiveMap (α : Type) where
  agent : AgentId
  mode : MapMode
  network : Network α
  /-- First edges of the latest destinations, oldest first. -/
  history : List EdgeId
  /-- How many destinations are remembered. -/
  depth : Nat
  /-- The subroom in which the latest destination was chosen. -/
  lastSubRoom : Option SubRoomId

namespace CognitiveMap

variable {α : Type}

/-- The last `depth` elements of a list. -/
def latest {β : Type} (depth : Nat) (xs : List β) : List β := xs.drop (xs.length - depth)

/-- The map of a person who has not chosen a destination, remembering up to 16. -/
def new (agent : AgentId) (mode : MapMode) (complete : Network α) : CognitiveMap α where
  agent
  mode
  network := match mode with
    | .complete => complete
    | .progressive => .empty
  history := []
  depth := 16
  lastSubRoom := none

/-- The map remembering only the `depth` latest destinations, but always the last one. -/
def withDepth (m : CognitiveMap α) (depth : Nat) : CognitiveMap α :=
  { m with depth := max depth 1, history := latest (max depth 1) m.history }

/-- Remembers a chosen destination, and forgets the oldest if there are too many. -/
def addDestination (m : CognitiveMap α) (e : EdgeId) : CognitiveMap α :=
  { m with history := latest m.depth (m.history ++ [e]) }

/-- Doors of the remembered destinations, oldest first. -/
def historyDoors (m : CognitiveMap α) : List DoorId :=
  m.history.filterMap fun e => (m.network.edge? e).map (·.door)

def lastDestination? (m : CognitiveMap α) : Option EdgeId := m.history.getLast?

def hasDestination (m : CognitiveMap α) : Bool := !m.history.isEmpty

end CognitiveMap

end Egress
