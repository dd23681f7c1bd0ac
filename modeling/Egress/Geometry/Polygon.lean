import Egress.Geometry.Segment

/-!
# Polygons

Areas given by the vertices of their boundary, the last vertex being joined to the first. A point
belongs to the area if the ray to its right crosses the boundary an odd number of times. An edge
counts the end with the smaller height and not the other, so that two areas that share an edge
never both hold a point of it.
-/
namespace Egress

/-- An area bounded by the closed line through its vertices. -/
structure Polygon (α : Type) where
  vertices : List (Point α)
  deriving Repr

namespace Polygon

variable {α : Type} [Scalar α]

/-- The rectangle with the corners `lo` and `hi`, its vertices anticlockwise from `lo`. -/
def rectangle (lo hi : Point α) : Polygon α :=
  ⟨[lo, ⟨hi.x, lo.y⟩, hi, ⟨lo.x, hi.y⟩]⟩

/-- The segments from each vertex to the next and back from the last to the first. -/
def edges (p : Polygon α) : List (Segment α) :=
  match p.vertices with
  | [] | [_] => []
  | v :: vs => List.zipWith Segment.mk (v :: vs) (vs ++ [v])

/-- True if the ray from `p` to the right crosses the edge from `v` to its predecessor `u`. -/
@[specialize] def crosses (p u v : Point α) : Bool :=
  (decide (p.y < v.y) != decide (p.y < u.y)) &&
    decide (p.x < (u.x - v.x) * (p.y - v.y) / (u.y - v.y) + v.x)

/-- Parity of the crossings with the edges into the listed vertices, the first coming from `u`. -/
@[specialize] def oddCrossings (p : Point α) : Point α → List (Point α) → Bool
  | _, [] => false
  | u, v :: vs => crosses p u v ^^ oddCrossings p v vs

/-- True if `p` lies in the area. Fewer than three vertices bound none. -/
@[specialize] def contains (a : Polygon α) (p : Point α) : Bool :=
  match a.vertices.getLast? with
  | none => false
  | some u => decide (3 ≤ a.vertices.length) && oddCrossings p u a.vertices

/-- The corners of the smallest upright rectangle around the vertices. -/
def boundingBox (a : Polygon α) : Option (Point α × Point α) := Point.boundingBox a.vertices

end Polygon

end Egress
