import Egress.CognitiveMap
import Egress.Hazard.Basic
import Egress.Sensing.Events
import Egress.Sensing.Traffic

/-!
# Sensing

What sensors read besides the person's own map, and what keeps them from finishing.
-/
namespace Egress

/-- What a sensor may read besides the person and the person's map. -/
structure Surroundings (α : Type) where
  building : Building α
  /-- Simulation time in seconds. -/
  time : α
  traffic : Traffic α
  hazard : Option (HazardField α)

inductive SensorError (α : Type) where
  | network (error : NetworkError)
  | hazard (error : HazardError α)
  | building (error : BuildingError)

def SensorError.message : SensorError Float → String
  | .network e => s!"Graph error: {e.message}"
  | .hazard e => s!"Hazard error: {e.message}"
  | .building e => s!"Building error: {e.message}"

variable {α : Type}

def Surroundings.subroom (env : Surroundings α) (s : SubRoomId) :
    Except (SensorError α) (SubRoom α) :=
  (env.building.subroom s).mapError .building

def Surroundings.door (env : Surroundings α) (d : DoorId) : Except (SensorError α) (Door α) :=
  (env.building.door d).mapError .building

/-- The map with the named factor written on several edges. -/
def CognitiveMap.setFactors [Scalar α] (m : CognitiveMap α) (name : String) (time : α)
    (values : List (EdgeId × α)) : CognitiveMap α :=
  { m with network := m.network.setFactors name time values }

end Egress
