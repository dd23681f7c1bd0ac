import Egress.Building.Basic

/-!
# Zones

A zone is the part of a building in which a person is steered at one time: a room with all its
subrooms, or a single subroom.
-/
namespace Egress

inductive Zone where
  | room (id : RoomId)
  | subroom (uid : SubRoomId)
  deriving DecidableEq, Repr

namespace Zone

/-- Rooms come before subrooms, each by ascending number. -/
def rank : Zone → Nat × Nat
  | .room id => (0, id)
  | .subroom uid => (1, uid)

instance : Key Zone := .lift rank fun a b h => by
  cases a <;> cases b <;> simp_all [rank]

def text : Zone → String
  | .room id => s!"room {id}"
  | .subroom uid => s!"subroom {uid}"

end Zone

end Egress
