import Egress.Scalar

/-!
# Points and vectors

Positions on the floor plan in meters, and the differences between them.
-/
namespace Egress

/-- A position on the floor plan. -/
structure Point (α : Type) where
  x : α
  y : α
  deriving Repr

/-- A displacement on the floor plan. -/
structure Vec (α : Type) where
  x : α
  y : α
  deriving Repr

variable {α : Type} [Scalar α]

namespace Vec

def zero : Vec α := ⟨0, 0⟩

instance : Neg (Vec α) := ⟨fun v => ⟨-v.x, -v.y⟩⟩

def scale (v : Vec α) (k : α) : Vec α := ⟨v.x * k, v.y * k⟩

def shrink (v : Vec α) (k : α) : Vec α := ⟨v.x / k, v.y / k⟩

def dot (v w : Vec α) : α := v.x * w.x + v.y * w.y

def normSq (v : Vec α) : α := v.x * v.x + v.y * v.y

@[specialize] def norm (v : Vec α) : α := Scalar.sqrt v.normSq

/-- The vector turned by a quarter to the left. -/
def turnLeft (v : Vec α) : Vec α := ⟨-v.y, v.x⟩

/-- The vector of length one in the same direction, and `v` itself where the length is not
positive. -/
def unit (v : Vec α) : Vec α :=
  if 0 < v.norm then v.shrink v.norm else v

end Vec

namespace Point

instance : HSub (Point α) (Point α) (Vec α) := ⟨fun p q => ⟨p.x - q.x, p.y - q.y⟩⟩

instance : HAdd (Point α) (Vec α) (Point α) := ⟨fun p v => ⟨p.x + v.x, p.y + v.y⟩⟩

instance : HSub (Point α) (Vec α) (Point α) := ⟨fun p v => ⟨p.x - v.x, p.y - v.y⟩⟩

@[specialize] def dist (p q : Point α) : α := (p - q : Vec α).norm

/-- The smallest and largest coordinates of the positions, `none` if there are none. A coordinate
that is no number counts only where no other does. -/
def boundingBox : List (Point α) → Option (Point α × Point α)
  | [] => none
  | p :: ps => some <| ps.foldl (fun (lo, hi) q =>
      (⟨Scalar.smaller lo.x q.x, Scalar.smaller lo.y q.y⟩,
       ⟨Scalar.larger hi.x q.x, Scalar.larger hi.y q.y⟩)) (p, p)

end Point

end Egress
