import Egress.Building.Basic
import Egress.Text.Decimal
import Egress.Text.Quoted

/-!
# Hazards

What can be asked of a source of hazard intensities, such as smoke, and what can go wrong.
-/
namespace Egress

inductive HazardQuantity where
  | smokeDensity
  | temperature
  | toxicity
  deriving DecidableEq, Repr

namespace HazardQuantity

def rank : HazardQuantity → Nat
  | .smokeDensity => 0
  | .temperature => 1
  | .toxicity => 2

def text : HazardQuantity → String
  | .smokeDensity => "smoke density"
  | .temperature => "temperature"
  | .toxicity => "toxicity"

end HazardQuantity

/-- What a stored mesh is known by. -/
structure HazardKey where
  quantity : HazardQuantity
  /-- Height of the mesh in elevation buckets. -/
  elevationBucket : Int
  /-- The door that the mesh was computed for, `none` if it holds for all. -/
  door : Option DoorId
  /-- Time of the mesh in update intervals. -/
  timeBucket : Nat
  deriving DecidableEq, Repr

namespace HazardKey

/-- The components in the order in which keys are compared. What holds for all doors comes before
what holds for one. -/
def rank (k : HazardKey) : Nat × Int × Nat × Nat :=
  (k.quantity.rank, k.elevationBucket, (k.door.map (· + 1)).getD 0, k.timeBucket)

instance : Key HazardKey := .lift rank fun a b h => by
  obtain ⟨qa, ea, da, ta⟩ := a
  obtain ⟨qb, eb, db, tb⟩ := b
  simp only [rank, Prod.mk.injEq] at h
  obtain ⟨hq, he, hd, ht⟩ := h
  have hq : qa = qb := by cases qa <;> cases qb <;> simp_all [HazardQuantity.rank]
  have hd : da = db := by cases da <;> cases db <;> simp_all
  simp_all

def text (k : HazardKey) : String :=
  s!"{k.quantity.text} at elevation bucket {k.elevationBucket}, time bucket {k.timeBucket}" ++
    match k.door with
    | some d => s!", door {d}"
    | none => ""

end HazardKey

/-- A question about a hazard. -/
structure HazardQuery (α : Type) where
  position : Point α
  /-- Height of the floor in meters. -/
  elevation : α
  /-- Simulation time in seconds. -/
  time : α
  quantity : HazardQuantity
  /-- The door that is being judged. -/
  door : Option DoorId

/-- What is wrong with a mesh. -/
inductive MeshFault (α : Type) where
  | cellSize (found : α)
  | noKnots
  | missingHeader
  | headerFields (found : Nat)
  /-- The corners or the cell size in the header make no sense. -/
  | extent (header : List α)
  | notANumber (text : String)
  | rowLength (row found expected : Nat)
  | rowCount (found expected : Nat)
  /-- A fault of another kind of source, in its own words. -/
  | described (text : String)

def MeshFault.message : MeshFault Float → String
  | .cellSize h => s!"cell size must be positive, found {Text.Decimal.plain h}"
  | .noKnots => "mesh has no knots"
  | .missingHeader => "missing header"
  | .headerFields n => s!"expected 5 header fields, found {n}"
  | .extent header =>
    s!"invalid extent [" ++ ", ".intercalate (header.map Text.Decimal.detailed) ++ "]"
  | .notANumber t => s!"could not parse {Text.quoted t}"
  | .rowLength row n m => s!"row {row} has {n} values, expected {m}"
  | .rowCount n m => s!"found {n} rows, expected {m}"
  | .described t => t

inductive HazardError (α : Type) where
  /-- There is no mesh for the question. -/
  | notFound (key : HazardKey)
  | badMesh (fault : MeshFault α)
  /-- A file is not text. -/
  | unreadable
  /-- A file cannot be opened. -/
  | unopened

def HazardError.message : HazardError Float → String
  | .notFound key => s!"No hazard mesh for {key.text}"
  | .badMesh fault => s!"Invalid hazard mesh: {fault.message}"
  | .unreadable => "Could not read hazard mesh"
  | .unopened => "Could not open hazard mesh"

/-- A source of hazard intensities. -/
structure HazardField (α : Type) where
  lookup : HazardQuery α → Except (HazardError α) α

structure HazardParams (α : Type) where
  /-- Time between two meshes in seconds. -/
  updateInterval : α
  /-- Time of the last mesh in seconds, which holds from then on. -/
  finalTime : α
  /-- Height of people's eyes above the floor in meters. -/
  eyeHeight : α
  /-- Resolution of mesh heights in meters. -/
  elevationBucket : α

def HazardParams.standard {α : Type} [Scalar α] : HazardParams α where
  updateInterval := 10
  finalTime := 600
  eyeHeight := 1.8
  elevationBucket := 0.1

end Egress
