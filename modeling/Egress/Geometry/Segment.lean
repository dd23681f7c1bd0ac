import Egress.Geometry.Point

/-!
# Line segments

Walls, door lines and the edges of polygons. A segment may be degenerate, both ends being the same
point.
-/
namespace Egress

/-- The straight line from `start` to `stop`. -/
structure Segment (α : Type) where
  start : Point α
  stop : Point α
  deriving Repr

namespace Segment

variable {α : Type} [Scalar α]

def extent (s : Segment α) : Vec α := s.stop - s.start

def length (s : Segment α) : α := s.extent.norm

/-- The point at the fraction `u` of the way from `start` to `stop`. -/
def pointAt (s : Segment α) (u : α) : Point α := s.start + s.extent.scale u

def centre (s : Segment α) : Point α := s.pointAt 0.5

/-- Unit vector from `start` to `stop`, zero for a degenerate segment. -/
def direction (s : Segment α) : Vec α :=
  if 0 < s.length then s.extent.shrink s.length else .zero

/-- Unit vector square to the segment, pointing to the left of its direction. -/
def normal (s : Segment α) : Vec α := s.direction.turnLeft

/-- Fraction of the way along the segment at which it comes nearest to `p`, held to the segment. -/
def nearestFraction (s : Segment α) (p : Point α) : α :=
  Scalar.smaller (Scalar.larger ((p - s.start : Vec α).dot s.extent / s.extent.normSq) 0) 1

def nearestPoint (s : Segment α) (p : Point α) : Point α :=
  if s.extent.normSq == 0 then s.start else s.pointAt (s.nearestFraction p)

def distTo (s : Segment α) (p : Point α) : α := p.dist (s.nearestPoint p)

/-- The segment without the length `trim` at either end. One that is not longer than both trims
shrinks to its centre. -/
def shortened (s : Segment α) (trim : α) : Segment α :=
  if s.length ≤ 2 * trim then ⟨s.centre, s.centre⟩
  else ⟨s.pointAt (trim / s.length), s.pointAt (1 - trim / s.length)⟩

/-- The part of a door line that is aimed at, clear of the door frame: long doors lose 0.2 at
either end, short ones 0.05, and very short ones nothing. -/
def clearOfFrame (s : Segment α) : Segment α :=
  if 0.6 < s.length then s.shortened 0.2
  else if 0.2 < s.length then s.shortened 0.05
  else s

end Segment

end Egress
