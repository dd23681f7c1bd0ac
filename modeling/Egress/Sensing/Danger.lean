import Egress.Sensing.Basic

/-!
# Danger at doors

The doors out of a person's subroom become less attractive the worse the hazard there is, and the
less the person is ready to walk through it.
-/
namespace Egress.Danger

variable {α : Type} [Scalar α]

def name : String := "Hazard"

/-- Factor for an intensity, seen by a person with the given risk tolerance. -/
def factor (intensity riskTolerance : α) : α :=
  let tolerance := Scalar.clamp (Scalar.finiteOr riskTolerance 0) 0 1
  1 + (1 - tolerance) * Scalar.sanitize intensity

/-- Intensity at a door. Where nothing is known there is no hazard. -/
def intensityAt (quantity : HazardQuantity) (a : Pedestrian α) (env : Surroundings α)
    (e : Edge α) : Except (SensorError α) α :=
  match env.hazard with
  | none => .ok 0
  | some field =>
    match field.lookup ⟨e.line.centre, a.elevation, env.time, quantity, some e.door⟩ with
    | .ok v => .ok v
    | .error (.notFound _) => .ok 0
    | .error error => .error (.hazard error)

/-- Factor of an edge, which is given with its number. -/
def edgeFactor (quantity : HazardQuantity) (a : Pedestrian α) (env : Surroundings α)
    (e : EdgeId × Edge α) : Except (SensorError α) (EdgeId × α) := do
  return (e.1, factor (← intensityAt quantity a env e.2) a.riskTolerance)

/-- Writes the factors of the edges out of the person's subroom, or none if the hazard source
fails. -/
def run (quantity : HazardQuantity) (a : Pedestrian α) (m : CognitiveMap α)
    (env : Surroundings α) : Except (SensorError α) (CognitiveMap α) := do
  let edges := (m.network.outEdges a.subroom).filterMap fun e => (m.network.edge? e).map (e, ·)
  let values ← edges.mapM (edgeFactor quantity a env)
  return m.setFactors name env.time values

end Egress.Danger
