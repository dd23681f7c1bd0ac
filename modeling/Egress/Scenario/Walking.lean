import Egress.Pedestrian

/-!
# Walking

People walk at a constant speed straight at the point that they are steered to, and on through it.
-/
namespace Egress

/-- What a step comes to. -/
inductive Step where
  | moved
  /-- The person has left the building. -/
  | evacuated
  /-- There is no floor ahead. -/
  | blocked
  deriving DecidableEq, Repr

namespace Pedestrian

variable {α : Type} [Scalar α]

/-- Meters per second. -/
def walkingSpeed : α := 1.2

/-- Distance from an exit within which a person who walks out has left the building. -/
def exitTolerance : α := 0.5

/-- Direction of a step: towards the target, or straight on if the person stands on it, and `none`
for one who stands still there. -/
def heading? (a : Pedestrian α) (target : Point α) : Option (Vec α) :=
  let delta : Vec α := target - a.position
  if 1e-9 < delta.norm then some (delta.shrink delta.norm)
  else if 0 < a.velocity.norm then some (a.velocity.shrink a.velocity.norm)
  else none

/-- True if the door headed for is an exit and `p` is close to it. -/
def isLeaving (b : Building α) (a : Pedestrian α) (p : Point α) : Bool :=
  match a.destination.bind b.door? with
  | some d => d.isExit && decide (d.line.distTo p < exitTolerance)
  | none => false

/-- Puts the person at a point, and in the subroom there if there is one. -/
def placeAt (b : Building α) (a : Pedestrian α) (p : Point α) : Pedestrian α :=
  match b.subroomAt p with
  | some s => { a with position := p, room := s.room, subroom := s.uid }
  | none => { a with position := p }

/-- Walks towards a point for `dt` seconds. -/
def step (b : Building α) (a : Pedestrian α) (target : Point α) (dt : α) : Pedestrian α × Step :=
  match a.heading? target with
  | none => (a, .blocked)
  | some heading =>
    let velocity := heading.scale walkingSpeed
    let next := a.position + velocity.scale dt
    match b.subroomAt next with
    | some s => ({ a with position := next, velocity, room := s.room, subroom := s.uid }, .moved)
    | none =>
      if a.isLeaving b next then ({ a with position := next }, .evacuated)
      else ({ a with velocity := .zero }, .blocked)

end Pedestrian

end Egress
