import Egress.Sensing.Circulation
import Egress.Sensing.Congestion
import Egress.Sensing.Danger
import Egress.Sensing.Recency

/-!
# Sensors

A sensor brings a person's map up to date when a routing event happens. Sensors are registered for
events and run in the order in which they were registered; one that fails keeps those after it from
running, and what was written before stays.
-/
namespace Egress

inductive Sensor (α : Type) where
  /-- Adds the open doors of the person's subroom to the map. -/
  | discovery
  | circulation
  | congestion (c : Congestion α)
  | danger (quantity : HazardQuantity)
  | recency (r : Recency α)

/-- Which sensors there are, and how they weigh. -/
structure SensorParams (α : Type) where
  discovery : Bool
  circulation : Bool
  congestion : Bool
  recency : Bool
  danger : Bool
  congestionThreshold : α
  stationaryWeight : α
  recencyDepth : Nat
  recencyPenalty : α
  dangerQuantity : HazardQuantity

/-- Sensors with the events that they are registered for, in the order in which they run. -/
abbrev SensorSuite (α : Type) := List (Sensor α × Events)

variable {α : Type}

def SensorParams.standard [Scalar α] : SensorParams α where
  discovery := true
  circulation := true
  congestion := true
  recency := true
  danger := true
  congestionThreshold := 10
  stationaryWeight := 100
  recencyDepth := 3
  recencyPenalty := 1
  dangerQuantity := .smokeDensity

namespace Sensor

def name : Sensor α → String
  | .discovery => "DiscoverDoors"
  | .circulation => Circulation.name
  | .congestion _ => Congestion.name
  | .danger _ => Danger.name
  | .recency _ => Recency.name

/-- The events that a sensor is meant for. -/
def usualEvents : Sensor α → Events
  | .discovery => .noRouteKnown
  | .circulation | .danger _ =>
    ((Events.init.union .periodic).union .noRouteKnown).union .changedSubRoom
  | .congestion _ => (Events.periodic.union .noRouteKnown).union .changedSubRoom
  | .recency _ => .newDestination

variable [Scalar α]

/-- Runs a sensor for a person. The map is returned as it has become, also where the sensor
fails. -/
def run (s : Sensor α) (a : Pedestrian α) (m : CognitiveMap α) (env : Surroundings α) :
    CognitiveMap α × Except (SensorError α) Unit :=
  let whole (r : Except (SensorError α) (CognitiveMap α)) :
      CognitiveMap α × Except (SensorError α) Unit :=
    match r with
    | .ok m' => (m', .ok ())
    | .error e => (m, .error e)
  match s with
  | .discovery =>
    let (network, result) := m.network.addSubRoomDoors env.building a.subroom
    ({ m with network },
      match result with
      | .ok _ => .ok ()
      | .error e => .error (.network e))
  | .circulation => whole (Circulation.run m env)
  | .congestion c => whole (c.run m env)
  | .danger quantity => whole (Danger.run quantity a m env)
  | .recency r => (r.run m env, .ok ())

end Sensor

namespace SensorSuite

/-- The sensors that the parameters ask for, each for its usual events. -/
def ofParams (p : SensorParams α) : SensorSuite α :=
  let sensors : List (Bool × Sensor α) :=
    [(p.discovery, .discovery), (p.circulation, .circulation),
      (p.congestion, .congestion ⟨p.congestionThreshold, p.stationaryWeight⟩),
      (p.danger, .danger p.dangerQuantity),
      (p.recency, .recency ⟨p.recencyDepth, p.recencyPenalty⟩)]
  sensors.filterMap fun (wanted, s) => if wanted then some (s, s.usualEvents) else none

variable [Scalar α]

/-- Runs the sensors that are registered for any of the events. The answer is how many ran. -/
def fire (events : Events) (a : Pedestrian α) (env : Surroundings α) :
    SensorSuite α → CognitiveMap α → CognitiveMap α × Except (SensorError α) Nat
  | [], m => (m, .ok 0)
  | (s, registered) :: rest, m =>
    if registered.intersects events then
      match s.run a m env with
      | (m', .error e) => (m', .error e)
      | (m', .ok _) =>
        let (m'', result) := fire events a env rest m'
        (m'', result.map (· + 1))
    else fire events a env rest m

end SensorSuite

end Egress
