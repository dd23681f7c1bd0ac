import Egress.Sensing.Basic

/-!
# Recent destinations

Doors that a person has lately headed for become less attractive, the latest one most, so that
nobody walks back and forth between two doors.
-/
namespace Egress

/-- How recent destinations are penalised. -/
structure Recency (α : Type) where
  /-- Number of destinations that are penalised. -/
  depth : Nat
  /-- Penalty of the latest one. -/
  penalty : α

namespace Recency

variable {α : Type} [Scalar α]

def name : String := "LastDestinations"

/-- Factor of the destination before `age` later ones. -/
def factor (r : Recency α) (age : Nat) : α :=
  if r.depth ≤ age then 1
  else 1 + r.penalty * ((r.depth - age : Nat) : α) / (r.depth : α)

/-- Factor of each door of a history, oldest first. The latest visit to a door decides. -/
def doorFactors (r : Recency α) (history : List DoorId) : OrderedMap DoorId α :=
  .ofList (history.zipIdx.map fun (d, i) => (d, r.factor (history.length - 1 - i)))

/-- The edge with its factor brought up to date. Doors that are no longer in the history become
neutral. -/
def update (factors : OrderedMap DoorId α) (time : α) (e : Edge α) : Edge α :=
  match factors.find? e.door with
  | some f => e.setFactor name f time
  | none => if e.factors.contains name then e.setFactor name 1 time else e

/-- Writes the factors of all known edges. -/
def run (r : Recency α) (m : CognitiveMap α) (env : Surroundings α) : CognitiveMap α :=
  let factors := r.doorFactors m.historyDoors
  { m with network :=
      { m.network with edges := m.network.edges.map (update factors env.time) } }

end Recency

end Egress
