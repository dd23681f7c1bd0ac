import Egress.Sensing.Basic

/-!
# Congestion at doors

The people who head for a door from a subroom on either side of it, the slow ones counting more,
per meter of the door's width.
-/
namespace Egress

/-- When a door counts as congested. -/
structure Congestion (α : Type) where
  /-- Congestion per meter of width above which it becomes the door's factor. -/
  threshold : α
  /-- Weight of a person who stands still. -/
  stationaryWeight : α

namespace Congestion

variable {α : Type} [Scalar α]

def name : String := "Jam"

/-- Weight of a person with the given speed: one over its square, but no more than that of a person
who stands still. -/
def agentWeight (c : Congestion α) (speed : α) : α :=
  let weight := 1 / (speed * speed)
  if Scalar.isNaN weight then c.stationaryWeight else Scalar.smaller weight c.stationaryWeight

/-- Congestion at an edge whose door has the given width. -/
def atEdge (c : Congestion α) (g : Network α) (traffic : Traffic α) (e : Edge α) (width : α) : α :=
  let source := g.subroomAt? e.source
  let dest := g.destSubRoom? e.id
  let near := (traffic.approaching e.door).filter fun a =>
    some a.subroom == source || some a.subroom == dest
  Scalar.sum (near.map fun a => c.agentWeight a.speed) / width

/-- Factor of an edge, `none` if its door has no width. -/
def edgeFactor (c : Congestion α) (g : Network α) (env : Surroundings α) (e : Edge α) :
    Except (SensorError α) (Option (EdgeId × α)) := do
  let width := (← env.door e.door).width
  if 0 < width then
    let congestion := c.atEdge g env.traffic e width
    return some (e.id, if c.threshold < congestion then congestion else 1)
  else return none

/-- Writes the factors of all known edges, or none if a door is missing. -/
def run (c : Congestion α) (m : CognitiveMap α) (env : Surroundings α) :
    Except (SensorError α) (CognitiveMap α) := do
  let values ← m.network.edges.toList.mapM (c.edgeFactor m.network env)
  return m.setFactors name env.time (values.filterMap id)

end Congestion

end Egress
