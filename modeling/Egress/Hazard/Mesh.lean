import Egress.Hazard.Basic
import Egress.Lattice
import Egress.Text.Csv
import Egress.Word

/-!
# Hazard meshes

One quantity at the knots of a rectangular mesh, at one height and time. A position reads the knot
nearest to it, on the border for a position beyond the mesh.

A mesh is written as records of numbers: a header with the cell size and the ends of the mesh along
x and y, then a record for each row of knots.
-/
namespace Egress

structure HazardMesh (α : Type) where
  /-- Position of the first knot of the first row. -/
  origin : Point α
  /-- Distance between neighbouring knots. -/
  cellSize : α
  /-- Values by row, which run along y, and column. -/
  values : Lattice α

namespace HazardMesh

variable {α : Type} [Scalar α]

/-- A mesh with the given values, if it has knots and a positive finite cell size. -/
def new (origin : Point α) (cellSize : α) (values : Lattice α) :
    Except (HazardError α) (HazardMesh α) :=
  if ¬(0 < cellSize ∧ Scalar.isFinite cellSize) then .error (.badMesh (.cellSize cellSize))
  else if values.width * values.height = 0 then .error (.badMesh .noKnots)
  else .ok ⟨origin, cellSize, values⟩

/-- The knot nearest to `v` along an axis with `n` knots. -/
def knotAt (m : HazardMesh α) (v : α) (n : Nat) : Nat :=
  let k := Scalar.round (v / m.cellSize)
  if Scalar.isNaN k || decide (k ≤ 0) then 0 else min (Scalar.toCount k) (n - 1)

def valueAt (m : HazardMesh α) (p : Point α) : α :=
  m.values.getD (m.knotAt (p.y - m.origin.y) m.values.width,
    m.knotAt (p.x - m.origin.x) m.values.height) 0

/-- The number in a field, read by `number`. -/
def numberIn (number : String → Option α) (field : String) : Except (HazardError α) α :=
  match number field with
  | some v => .ok v
  | none => .error (.badMesh (.notANumber field))

/-- The numbers of a record. -/
def numbers (number : String → Option α) (record : Option (List String)) :
    Except (HazardError α) (List α) :=
  match record with
  | none => .error .unreadable
  | some fields => fields.mapM (numberIn number)

/-- Number of knots from `low` to `high`. -/
def knotCount (low high h : α) : Nat := Scalar.toCount (Scalar.round ((high - low) / h)) + 1

/-- What the first record of a mesh says. -/
structure Header (α : Type) where
  cellSize : α
  xLow : α
  xHigh : α
  yLow : α
  yHigh : α

namespace Header

/-- Number of values in each record after the header. -/
def columns (d : Header α) : Nat := knotCount d.xLow d.xHigh d.cellSize

/-- Number of records after the header. -/
def rows (d : Header α) : Nat := knotCount d.yLow d.yHigh d.cellSize

/-- True if memory for the values can be asked for. A value takes eight bytes, and how many bytes
all of them take is a word with a sign. -/
def canHold (d : Header α) : Bool := fitsWord (8 * (d.rows * d.columns) : Nat)

end Header

/-- The header in the first record of a mesh, if its numbers make sense. -/
def readHeader (number : String → Option α) (record : Option (List String)) :
    Except (HazardError α) (Header α) := do
  match ← numbers number record with
  | [h, xLow, xHigh, yLow, yHigh] =>
    if ¬0 < h ∨ xHigh < xLow ∨ yHigh < yLow then
      throw (.badMesh (.extent [h, xLow, xHigh, yLow, yHigh]))
    return ⟨h, xLow, xHigh, yLow, yHigh⟩
  | header => throw (.badMesh (.headerFields header.length))

/-- The rows of values, each with `columns` of them. -/
def readRows (number : String → Option α) (columns : Nat) :
    Nat → List (Option (List String)) → Except (HazardError α) (List (List α))
  | _, [] => .ok []
  | row, record :: rest => do
    let values ← numbers number record
    if values.length ≠ columns then
      throw (.badMesh (.rowLength row values.length columns))
    return values :: (← readRows number columns (row + 1) rest)

/-- The mesh with a header and the records after it. -/
def ofRows (number : String → Option α) (header : Header α)
    (records : List (Option (List String))) : Except (HazardError α) (HazardMesh α) := do
  let rows ← readRows number header.columns 0 records
  if rows.length ≠ header.rows then
    throw (.badMesh (.rowCount rows.length header.rows))
  new ⟨header.xLow, header.yLow⟩ header.cellSize (.ofLists header.columns 0 rows)

/-- How reading a mesh ends without one. -/
inductive ReadFailure (α : Type) where
  /-- What is written is no mesh. -/
  | refused (error : HazardError α)
  /-- The header asks for more values than can be counted and held. The program stops there and
  then. -/
  | overflow

/-- The mesh written in a list of records, where `none` is a record that is not text. -/
def ofRecords (number : String → Option α) :
    List (Option (List String)) → Except (ReadFailure α) (HazardMesh α)
  | [] => .error (.refused (.badMesh .missingHeader))
  | first :: rest => do
    let header ← (readHeader number first).mapError .refused
    if header.canHold then (ofRows number header rest).mapError .refused
    else throw .overflow

/-- The mesh written in a file of comma separated values. -/
def ofCsv (bytes : List UInt8) : Except (ReadFailure Float) (HazardMesh Float) :=
  ofRecords Text.Decimal.read? ((Text.Csv.records bytes).map Text.Csv.texts?)

end HazardMesh

end Egress
