import Egress.Sensing.Basic

/-!
# Preference for circulation areas

Doors into corridors, stairs, lobbies and entrances are preferred to doors into other subrooms.
Doors between subrooms of one kind and doors out of the building are neutral.
-/
namespace Egress.Circulation

variable {α : Type} [Scalar α]

def name : String := "RoomToFloor"

/-- Factor of a door into a subroom of the kind. -/
def factor : SubRoomKind → α
  | .corridor | .stair | .floor => 0.3
  | .lobby => 0.2
  | .entrance => 0.1
  | .escalatorUp | .escalatorDown | .dedicatedArea | .unknown => 5

def edgeFactor (g : Network α) (env : Surroundings α) (e : Edge α) :
    Except (SensorError α) (EdgeId × α) :=
  match g.destSubRoom? e.id with
  | none => .ok (e.id, 1)
  | some dest => do
    let kind := (← env.subroom dest).kind
    let start ← match g.subroomAt? e.source with
      | none => pure none
      | some s => some <$> SubRoom.kind <$> env.subroom s
    return (e.id, if start = some kind then 1 else factor kind)

/-- Writes the factors of all known edges, or none if a subroom is missing. -/
def run (m : CognitiveMap α) (env : Surroundings α) : Except (SensorError α) (CognitiveMap α) := do
  let values ← m.network.edges.toList.mapM (edgeFactor m.network env)
  return m.setFactors name env.time values

end Egress.Circulation
