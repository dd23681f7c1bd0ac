import Egress.Grid.Zoned
import Egress.MinHeap

/-!
# Marching fronts

Travel cost from a set of seed cells over the free cells of a grid, where `speed` says how fast
each cell is crossed. The front starts at the seeds with cost zero and takes in the cheapest trial
cell next to it, one at a time. A cell's cost is computed from its neighbours that have been taken
in, one along each axis, so that costs grow as they do in front of a wave and not along the axes.

`solve` runs the front until no trial cell is left. Each cell is taken in at most once and offers
costs to four neighbours, which bounds the number of entries that the queue ever holds.
-/
namespace Egress

variable {α : Type} [Scalar α]

/-- Cost of a cell whose cheapest neighbours along the two axes have the costs `x` and `y`, where
`s` is the cost of crossing the cell along an axis. -/
@[specialize] def upwind (x y s : α) : α :=
  let a := if x ≤ y then x else y
  let b := if x ≤ y then y else x
  if Scalar.isFinite b && decide (b - a < s) then
    (a + b + Scalar.sqrt (2 * s * s - (b - a) * (b - a))) / 2
  else a + s

/-- How far the front has come at a cell. -/
inductive Progress where
  /-- Not reached. -/
  | far
  /-- Reached, its cost may still go down. -/
  | trial
  /-- Taken in, its cost is final. -/
  | known
  deriving DecidableEq, Repr

/-- An offer of a cost to a cell. -/
structure Trial (α : Type) where
  cost : α
  /-- Number of the cell. -/
  key : Nat
  cell : Cell

/-- Cheaper trials come first, of equally cheap ones that with the lower cell number. -/
@[specialize] def Trial.before (a b : Trial α) : Bool :=
  Scalar.precedes a.cost b.cost || (!Scalar.precedes b.cost a.cost && decide (a.key < b.key))

/-- State of a front. The queue keeps offers that have been bettered since. -/
structure Front (α : Type) where
  cost : Lattice α
  progress : Lattice Progress
  queue : MinHeap (Trial α)

namespace Front

/-- Cost of the cell at an offset if it has been taken in, infinite if not. -/
@[specialize] def knownCost (f : Front α) (g : ZoneGrid α) (c : Cell) (di dj : Int) : α :=
  match g.grid.offset? c di dj with
  | none => Scalar.infinity
  | some n =>
    if f.progress.getD n .far = .known then f.cost.getD n Scalar.infinity else Scalar.infinity

/-- Cost of a cell computed from its neighbours that have been taken in. -/
@[specialize] def estimate (f : Front α) (g : ZoneGrid α) (c : Cell) (s : α) : α :=
  upwind (Scalar.smaller (f.knownCost g c (-1) 0) (f.knownCost g c 1 0))
    (Scalar.smaller (f.knownCost g c 0 (-1)) (f.knownCost g c 0 1)) s

/-- Recomputes the cost of a cell next to the front and queues it if that is an improvement. -/
@[specialize] def offer (g : ZoneGrid α) (speed : Lattice α) (f : Front α) (c : Cell) : Front α :=
  if f.progress.getD c .known = .known || !g.isPassable c then f
  else
    let v := speed.getD c 0
    if 0 < v then
      let e := f.estimate g c (g.grid.cellSize / v)
      if e < f.cost.getD c Scalar.infinity then
        { cost := f.cost.set c e
          progress := f.progress.set c .trial
          queue := f.queue.push Trial.before ⟨e, g.grid.key c, c⟩ }
      else f
    else f

/-- Offers costs to all neighbours of a cell that has been taken in. -/
@[specialize] def expand (g : ZoneGrid α) (speed : Lattice α) (f : Front α) (c : Cell) : Front α :=
  (g.grid.neighbours c).foldl (offer g speed) f

/-- The front at the seeds. -/
@[specialize] def start (g : ZoneGrid α) (speed : Lattice α) (seeds : List Cell) : Front α :=
  let n := g.grid.width
  let m := g.grid.height
  seeds.foldl (expand g speed)
    { cost := seeds.foldl (fun l c => l.set c 0) (.constant n m Scalar.infinity)
      progress := seeds.foldl (fun l c => l.set c .known) (.constant n m .far)
      queue := .nil }

/-- Acts on the first offer of the queue, which has `rest` behind it: drops the offer if it has
been bettered, and otherwise takes in its cell. -/
@[specialize] def accept (g : ZoneGrid α) (speed : Lattice α) (f : Front α) (t : Trial α)
    (rest : MinHeap (Trial α)) : Front α :=
  if f.progress.getD t.cell .known = .known
      || decide (f.cost.getD t.cell Scalar.infinity < t.cost) then
    { f with queue := rest }
  else
    expand g speed { f with progress := f.progress.set t.cell .known, queue := rest } t.cell

/-- Acts on up to `fuel` offers. -/
@[specialize] def run (g : ZoneGrid α) (speed : Lattice α) : Nat → Front α → Front α
  | 0, f => f
  | fuel + 1, f =>
    match f.queue.pop? Trial.before with
    | none => f
    | some (t, rest) => run g speed fuel (f.accept g speed t rest)

end Front

/-- Travel cost from the seeds to each cell, infinite where the front does not come. -/
@[specialize] def ZoneGrid.solve (g : ZoneGrid α) (speed : Lattice α) (seeds : List Cell) :
    Lattice α :=
  (Front.run g speed (4 * (g.grid.size + seeds.length)) (Front.start g speed seeds)).cost

end Egress
