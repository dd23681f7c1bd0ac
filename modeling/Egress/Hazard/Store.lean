import Egress.Hazard.Mesh

/-!
# Stores of hazard meshes

Meshes by quantity, height, door and time. Heights and times are counted in buckets both when a
mesh is stored and when it is looked up. A look-up takes a mesh for the time of the question, one
for its door before one for all doors, and of those the one nearest in height.
-/
namespace Egress

structure HazardStore (α : Type) where
  params : HazardParams α
  meshes : OrderedMap HazardKey (HazardMesh α)

namespace HazardStore

variable {α : Type} [Scalar α]

/-- The number of whole update intervals up to a time, which is held between zero and the final
time. -/
def timeBucket (params : HazardParams α) (time : α) : Nat :=
  if 0 < params.updateInterval then
    let t := Scalar.larger (Scalar.smaller time params.finalTime) 0
    if Scalar.isNaN t then 0
    else Scalar.toCount32 (Scalar.floor (t / params.updateInterval))
  else 0

/-- The bucket nearest to a height. -/
def elevationBucket (params : HazardParams α) (elevation : α) : Int :=
  if decide (0 < params.elevationBucket) && Scalar.isFinite elevation then
    Scalar.toInt32 (Scalar.round (elevation / params.elevationBucket))
  else 0

def empty (params : HazardParams α) : HazardStore α := ⟨params, .empty⟩

def key (s : HazardStore α) (quantity : HazardQuantity) (elevation : α) (door : Option DoorId)
    (time : α) : HazardKey :=
  ⟨quantity, elevationBucket s.params elevation, door, timeBucket s.params time⟩

/-- Stores a mesh, in place of one with the same key. -/
def insert (s : HazardStore α) (key : HazardKey) (mesh : HazardMesh α) : HazardStore α :=
  { s with meshes := s.meshes.insert key mesh }

/-- True if the first of two heights is nearer to `target`, or as near and lower. -/
def nearerBucket (target a b : Int) : Bool :=
  let da := (a - target).natAbs
  let db := (b - target).natAbs
  decide (da < db ∨ (da = db ∧ a < b))

/-- The stored key for a quantity, door and time that is nearest in height to `target`, the lower
of two equally near ones. -/
def nearestKey? (s : HazardStore α) (quantity : HazardQuantity) (door : Option DoorId)
    (timeBucket : Nat) (target : Int) : Option HazardKey :=
  match s.meshes.keys.filter fun k =>
      k.quantity = quantity ∧ k.door = door ∧ k.timeBucket = timeBucket with
  | [] => none
  | k :: ks => some (ks.foldl (fun best k' =>
      if nearerBucket target k'.elevationBucket best.elevationBucket then k' else best) k)

/-- The key of the mesh that answers a question. -/
def keyFor? (s : HazardStore α) (q : HazardQuery α) (timeBucket : Nat) (target : Int) :
    Option HazardKey :=
  (match q.door with
    | some d => s.nearestKey? q.quantity (some d) timeBucket target
    | none => none).or (s.nearestKey? q.quantity none timeBucket target)

/-- Intensity at the eyes of a person. -/
def lookup (s : HazardStore α) (q : HazardQuery α) : Except (HazardError α) α :=
  let time := timeBucket s.params q.time
  let target := elevationBucket s.params (q.elevation + s.params.eyeHeight)
  match s.keyFor? q time target with
  | none => .error (.notFound ⟨q.quantity, target, q.door, time⟩)
  | some key =>
    match s.meshes.find? key with
    | none => .error (.notFound key)
    | some mesh => .ok (Scalar.sanitize (mesh.valueAt q.position))

/-- The store as a source of intensities. -/
def field (s : HazardStore α) : HazardField α := ⟨s.lookup⟩

end HazardStore

end Egress
