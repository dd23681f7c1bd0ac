import Egress.Grid.FloorPlan
import Egress.Proofs.Grid.Rect
import Egress.Proofs.Grid.Trace
import Egress.Proofs.Lattice
import Egress.Proofs.Laws
import Egress.Proofs.OrderedMap
import Egress.Proofs.Outcome

/-!
# What laying out a plan ensures

The layers that are drawn one over another amount to one rule that tells what each cell is from the
geometry of the plan. A plan that is laid out has cells of the size that was asked for, one kind for
each cell of its grid, and free cells where its doors are.
-/
namespace Egress
open Exact

theorem CellKind.isPassable_iff {k : CellKind} : k.isPassable = true ↔ k = .inside ∨ k = .door := by
  cases k <;> decide

def ZoneGrid.Shaped {α : Type} (g : ZoneGrid α) : Prop :=
  g.cells.width = g.grid.width ∧ g.cells.height = g.grid.height

lemma ZoneGrid.has_of_kind {α : Type} {g : ZoneGrid α} {c : Cell} (hc : g.kind c ≠ .outside) :
    g.cells.Has c := by
  by_contra hout
  exact hc (Lattice.getD_of_not_has _ hout .outside)

theorem ZoneGrid.Shaped.contains_of_kind {α : Type} {g : ZoneGrid α} (hg : g.Shaped) {c : Cell}
    (hc : g.kind c ≠ .outside) : g.grid.contains c = true := by
  rw [RectGrid.contains_iff, ← hg.1, ← hg.2]
  exact has_of_kind hc

theorem ZoneGrid.Shaped.contains_of_isPassable {α : Type} {g : ZoneGrid α} (hg : g.Shaped)
    {c : Cell} (hc : g.isPassable c = true) : g.grid.contains c = true := by
  refine hg.contains_of_kind fun hout => ?_
  rw [isPassable, hout] at hc
  exact absurd hc (by decide)

namespace RectGrid

lemma nearestBelow_lt {α : Type} [Scalar α] {n : Nat} (hcount : Scalar.CountsBelow α n)
    (hn : 0 < n) (v : α) : nearestBelow v n < n := by
  unfold nearestBelow
  split
  · exact hn
  · have hle := hcount (Scalar.larger (Scalar.round v) 0) (n - 1) (by omega)
    omega

/-- A place within the grid is rounded to the nearest whole number, halves going up. -/
lemma nearestBelow_real {v : ℝ} {n : ℕ} (hlow : 0 ≤ v) (hhigh : v ≤ n) :
    nearestBelow (real v) (n + 1) = ⌊v + 1 / 2⌋₊ := by
  have hle : (⌊v + 1 / 2⌋₊ : ℝ) ≤ n := by
    rw [Nat.cast_le, ← Nat.lt_succ_iff, Nat.floor_lt (by linarith)]
    push_cast
    linarith
  have hnumber : Scalar.isNaN (real v) = false := rfl
  rw [nearestBelow, hnumber, round_of_nonneg hlow, zero_eq, larger_real,
    max_eq_left (Nat.cast_nonneg _), Nat.add_sub_cancel, natCast_eq, smaller_real,
    min_eq_left hle, toCount_natCast]
  rfl

theorem contains_nearestCell {α : Type} [Scalar α] {g : RectGrid α}
    (hw : Scalar.CountsBelow α g.width) (hh : Scalar.CountsBelow α g.height) (hwidth : 0 < g.width)
    (hheight : 0 < g.height) (p : Point α) : g.contains (g.nearestCell p) = true :=
  contains_iff.2 ⟨nearestBelow_lt hw hwidth _, nearestBelow_lt hh hheight _⟩

/-- True of the cells that a segment covers. -/
def covers {α : Type} [Scalar α] (g : RectGrid α) (s : Segment α) (c : Cell) : Bool :=
  (g.cellsOn s).contains c

theorem covers_iff {α : Type} [Scalar α] {g : RectGrid α} {s : Segment α} {c : Cell} :
    g.covers s c = true ↔ c ∈ g.cellsOn s :=
  List.contains_iff_mem

theorem nearestCell_mem_cellsOn {α : Type} [Scalar α] (g : RectGrid α) (s : Segment α) :
    g.nearestCell s.start ∈ g.cellsOn s :=
  Trace.mem_lineBetween.2 ⟨0, Nat.zero_le _, Trace.cellAfter_zero _ _⟩

end RectGrid

/-- True of corners whose differences are finite and not negative. -/
def Point.Bounded {α : Type} [Scalar α] (lo hi : Point α) : Prop :=
  (Scalar.isFinite (hi.x - lo.x) = true ∧ Scalar.isFinite (hi.y - lo.y) = true) ∧
    ¬hi.x - lo.x < 0 ∧ ¬hi.y - lo.y < 0

namespace RectGrid

/-- A box is covered if the cell size can be used and the box is bounded. -/
theorem covering_eq_ok_iff {α : Type} [Scalar α] {zone : Zone} {lo hi : Point α} {h : α}
    {g : RectGrid α} : covering zone lo hi h = .ok g ↔
      (0 < h ∧ Scalar.isFinite h = true) ∧ lo.Bounded hi ∧
        g = ⟨⟨lo.x - h, lo.y - h⟩, h, Scalar.toCount (Scalar.ceil ((hi.x - lo.x) / h)) + 3,
          Scalar.toCount (Scalar.ceil ((hi.y - lo.y) / h)) + 3⟩ := by
  have hextent : (hi - lo : Vec α) = ⟨hi.x - lo.x, hi.y - lo.y⟩ := rfl
  unfold covering checkCellSize Point.Bounded
  by_cases hh : 0 < h ∧ Scalar.isFinite h = true
  · simp only [if_pos hh, ok_bind, hextent, Bool.and_eq_true, Bool.not_eq_true',
      decide_eq_false_iff_not, and_assoc]
    split
    · rename_i hbox
      simp [hh, hbox, eq_comm]
    · rename_i hbox
      refine iff_of_false (fun hg => by cases hg) ?_
      rintro ⟨-, -, hx, hy, hx', hy', -⟩
      exact hbox ⟨hx, hy, hx', hy'⟩
  · rw [if_neg hh, error_bind]
    exact iff_of_false (fun hg => by cases hg) fun hg => hh hg.1

lemma covering_spec {α : Type} [Scalar α] {zone : Zone} {lo hi : Point α} {h : α} {g : RectGrid α}
    (hg : covering zone lo hi h = .ok g) :
    (0 < h ∧ Scalar.isFinite h = true) ∧ g.cellSize = h ∧ 0 < g.width ∧ 0 < g.height := by
  obtain ⟨hh, -, rfl⟩ := covering_eq_ok_iff.1 hg
  exact ⟨hh, rfl, Nat.succ_pos _, Nat.succ_pos _⟩

end RectGrid

namespace FloorPlan

variable {α : Type} [Scalar α] {plan : FloorPlan α} {h : α} {g : ZoneGrid α}

omit [Scalar α] in
lemma vertex_mem_corners {a : Polygon α} (ha : a ∈ plan.areas) {v : Point α}
    (hv : v ∈ a.vertices) : v ∈ plan.corners :=
  List.mem_append_left _ (List.mem_flatMap.2 ⟨a, ha, hv⟩)

omit [Scalar α] in
lemma ends_mem_corners {line : Segment α} (hline : line ∈ plan.targets.values) :
    line.start ∈ plan.corners ∧ line.stop ∈ plan.corners :=
  ⟨List.mem_append_right _ (List.mem_flatMap.2 ⟨line, hline, by simp⟩),
    List.mem_append_right _ (List.mem_flatMap.2 ⟨line, hline, by simp⟩)⟩

@[simp] theorem width_paint (k : CellKind) (l : Lattice CellKind) (cs : List Cell) :
    (paint k l cs).width = l.width :=
  Lattice.width_foldl_set cs k l

@[simp] theorem height_paint (k : CellKind) (l : Lattice CellKind) (cs : List Cell) :
    (paint k l cs).height = l.height :=
  Lattice.height_foldl_set cs k l

lemma shape_foldl_paint {δ : Type} (k : CellKind) (cells : δ → List Cell) (ds : List δ)
    (l : Lattice CellKind) :
    (ds.foldl (fun l d => paint k l (cells d)) l).width = l.width ∧
      (ds.foldl (fun l d => paint k l (cells d)) l).height = l.height := by
  induction ds generalizing l with
  | nil => exact ⟨rfl, rfl⟩
  | cons d ds ih => simpa using ih (paint k l (cells d))

@[simp] lemma has_foldl_paint {δ : Type} (k : CellKind) (cells : δ → List Cell) (ds : List δ)
    (l : Lattice CellKind) (c : Cell) :
    (ds.foldl (fun l d => paint k l (cells d)) l).Has c ↔ l.Has c := by
  obtain ⟨hwidth, hheight⟩ := shape_foldl_paint k cells ds l
  rw [Lattice.Has, Lattice.Has, hwidth, hheight]

/-- Painting with one kind after another makes the painted cells of that kind, in whatever order,
and leaves the others as they are. -/
lemma getD_foldl_paint {δ : Type} (k : CellKind) (cells : δ → List Cell) (ds : List δ)
    {l : Lattice CellKind} {c : Cell} (hc : l.Has c) (default : CellKind) :
    (ds.foldl (fun l d => paint k l (cells d)) l).getD c default =
      if ∃ d ∈ ds, c ∈ cells d then k else l.getD c default := by
  induction ds generalizing l with
  | nil => simp
  | cons d ds ih =>
    have hpaint : (paint k l (cells d)).Has c := by simpa [Lattice.Has] using hc
    rw [List.foldl_cons, ih hpaint]
    by_cases hrest : ∃ d ∈ ds, c ∈ cells d
    · rw [if_pos hrest, if_pos (by simpa using .inr hrest)]
    · rw [if_neg hrest]
      by_cases hd : c ∈ cells d
      · rw [if_pos ⟨d, List.mem_cons_self, hd⟩]
        exact Lattice.getD_foldl_set_of_mem hd hc k default
      · rw [if_neg (by simpa [hd] using hrest)]
        exact Lattice.getD_foldl_set_of_not_mem hd l k default

theorem shape_layout (plan : FloorPlan α) (g : RectGrid α) :
    (plan.layout g).width = g.width ∧ (plan.layout g).height = g.height := by
  simp only [layout, shape_foldl_paint, Lattice.width_ofFn, Lattice.height_ofFn, and_self]

/-- What a cell is, told from the geometry of the plan: doors go before walls and obstacles, and
these go before floor. -/
def kindAt (plan : FloorPlan α) (g : RectGrid α) (c : Cell) : CellKind :=
  if plan.targets.values.any (g.covers · c) then .door
  else if plan.walls.any (g.covers · c) ||
      plan.obstacles.any fun o => o.edges.any (g.covers · c) || o.contains (g.centre c) then .wall
  else if plan.areas.any (·.contains (g.centre c)) then .inside
  else .outside

theorem kindAt_eq (plan : FloorPlan α) (g : RectGrid α) (c : Cell) : plan.kindAt g c =
    if ∃ line ∈ plan.targets.values, c ∈ g.cellsOn line then .door
    else if (∃ wall ∈ plan.walls, c ∈ g.cellsOn wall) ∨ ∃ o ∈ plan.obstacles,
        (∃ edge ∈ o.edges, c ∈ g.cellsOn edge) ∨ o.contains (g.centre c) = true then .wall
    else if ∃ a ∈ plan.areas, a.contains (g.centre c) = true then .inside
    else .outside := by
  simp only [kindAt, List.any_eq_true, Bool.or_eq_true, RectGrid.covers_iff]

lemma mem_obstacleCells_iff {g : RectGrid α} {o : Polygon α} {c : Cell}
    (hc : g.contains c = true) : c ∈ obstacleCells g o ↔
      (∃ edge ∈ o.edges, c ∈ g.cellsOn edge) ∨ o.contains (g.centre c) = true := by
  simp [obstacleCells, Lattice.mem_places_iff, RectGrid.contains_iff.1 hc, or_comm]

/-- The layers that are drawn one over another amount to one rule for each cell. -/
theorem getD_layout (plan : FloorPlan α) {g : RectGrid α} {c : Cell} (hc : g.contains c = true) :
    (plan.layout g).getD c .outside = plan.kindAt g c := by
  have hplace := RectGrid.contains_iff.1 hc
  have hfloor (f : Cell → CellKind) : (Lattice.ofFn g.width g.height f).Has c := hplace
  rw [layout, getD_foldl_paint _ _ _ (by simpa using hfloor _),
    getD_foldl_paint _ _ _ (by simpa using hfloor _), getD_foldl_paint _ _ _ (hfloor _),
    Lattice.getD_ofFn _ hplace, kindAt_eq]
  simp only [mem_obstacleCells_iff hc, List.any_eq_true, ite_or]

/-- The cells of the doors are drawn last. -/
theorem layout_door (plan : FloorPlan α) {g : RectGrid α} {line : Segment α}
    (hline : line ∈ plan.targets.values) {c : Cell} (hc : c ∈ g.cellsOn line)
    (hg : g.contains c = true) : (plan.layout g).getD c .outside = .door := by
  rw [getD_layout plan hg, kindAt_eq, if_pos ⟨line, hline, hc⟩]

/-- Free floor is counted exactly if some cell is free floor. -/
lemma count_layout_ne_zero_iff {g : RectGrid α} : (plan.layout g).count (· = .inside) ≠ 0 ↔
    ∃ c, g.contains c = true ∧ plan.kindAt g c = .inside := by
  obtain ⟨hwidth, hheight⟩ := shape_layout plan g
  rw [Lattice.count_ne_zero_iff .outside]
  refine exists_congr fun c => ?_
  rw [Lattice.Has, hwidth, hheight, ← RectGrid.contains_iff]
  refine and_congr_right fun hc => ?_
  rw [getD_layout plan hc, decide_eq_true_iff]

/-- A plan with a target whose box a grid covers is laid out on it, unless no cell is free floor. -/
theorem rasterize_of_covering {lo hi : Point α} {grid : RectGrid α}
    (htargets : plan.targets.isEmpty = false)
    (hbox : Point.boundingBox plan.corners = some (lo, hi))
    (hgrid : RectGrid.covering plan.zone lo hi h = .ok grid) :
    plan.rasterize h =
      if (plan.layout grid).count (· = .inside) = 0 then .error (.noFloor plan.zone)
      else .ok ⟨plan.zone, grid, plan.layout grid, plan.targets⟩ := by
  simp only [rasterize, htargets, hbox, hgrid]
  rfl

/-- A plan that is laid out has a target, and becomes its layout on the grid that covers it. -/
theorem rasterize_eq_ok_iff : plan.rasterize h = .ok g ↔
    plan.targets.isEmpty = false ∧ ∃ lo hi grid,
      Point.boundingBox plan.corners = some (lo, hi) ∧
      RectGrid.covering plan.zone lo hi h = .ok grid ∧
      (plan.layout grid).count (· = .inside) ≠ 0 ∧
      g = ⟨plan.zone, grid, plan.layout grid, plan.targets⟩ := by
  constructor
  · intro hg
    cases hempty : plan.targets.isEmpty with
    | true => simp [rasterize, hempty] at hg
    | false =>
      cases hbox : Point.boundingBox plan.corners with
      | none => simp [rasterize, hempty, hbox] at hg
      | some box =>
        obtain ⟨lo, hi⟩ := box
        cases hgrid : RectGrid.covering plan.zone lo hi h with
        | error e => simp [rasterize, hempty, hbox, hgrid] at hg
        | ok grid =>
          rw [rasterize_of_covering hempty hbox hgrid] at hg
          split at hg
          · cases hg
          · rename_i hcount
            exact ⟨rfl, lo, hi, grid, rfl, hgrid, hcount, (Except.ok.inj hg).symm⟩
  · rintro ⟨hempty, lo, hi, grid, hbox, hgrid, hcount, rfl⟩
    rw [rasterize_of_covering hempty hbox hgrid]
    exact if_neg hcount

/-- The cells have the size that was asked for, and the targets are those of the plan. -/
theorem rasterize_spec (hg : plan.rasterize h = .ok g) :
    (0 < h ∧ Scalar.isFinite h = true) ∧
      (g.grid.cellSize = h ∧ 0 < g.grid.width ∧ 0 < g.grid.height) ∧
      g.cells = plan.layout g.grid ∧ g.targets = plan.targets := by
  obtain ⟨-, lo, hi, grid, -, hgrid, -, rfl⟩ := rasterize_eq_ok_iff.1 hg
  obtain ⟨hh, hshape⟩ := RectGrid.covering_spec hgrid
  exact ⟨hh, hshape, rfl, rfl⟩

theorem shaped_of_rasterize (hg : plan.rasterize h = .ok g) : g.Shaped := by
  obtain ⟨-, -, hcells, -⟩ := rasterize_spec hg
  rw [ZoneGrid.Shaped, hcells]
  exact shape_layout plan g.grid

/-- Every door of a plan has a free cell on its line: the doors are drawn last. -/
theorem exists_free_cell (hg : plan.rasterize h = .ok g)
    (hw : Scalar.CountsBelow α g.grid.width) (hh : Scalar.CountsBelow α g.grid.height)
    {target : DoorId} {line : Segment α} (hline : g.targets.find? target = some line) :
    ∃ c ∈ g.grid.cellsOn line, g.isPassable c = true := by
  obtain ⟨-, ⟨-, hwidth, hheight⟩, hcells, htargets⟩ := rasterize_spec hg
  have hmem : line ∈ plan.targets.values :=
    OrderedMap.mem_values_iff.2 ⟨target, htargets ▸ hline⟩
  have hc := RectGrid.nearestCell_mem_cellsOn g.grid line
  refine ⟨_, hc, ?_⟩
  rw [ZoneGrid.isPassable, ZoneGrid.kind, hcells,
    layout_door plan hmem hc (RectGrid.contains_nearestCell hw hh hwidth hheight _)]
  rfl

lemma freeCellsOn_ne_nil {plan : FloorPlan Exact} {h : Exact} {g : ZoneGrid Exact}
    (hg : plan.rasterize h = .ok g) {target : DoorId} {line : Segment Exact}
    (hline : g.targets.find? target = some line) :
    ∃ c ∈ g.grid.cellsOn line, g.isPassable c = true :=
  exists_free_cell hg (countsBelow _) (countsBelow _) hline

/-- A square room with a door along its whole lower side. -/
noncomputable def square (side : ℝ) : FloorPlan Exact where
  zone := .room 0
  areas := [.rectangle ⟨real 0, real 0⟩ ⟨real side, real side⟩]
  walls := []
  obstacles := []
  targets := OrderedMap.empty.insert 0 ⟨⟨real 0, real 0⟩, ⟨real side, real 0⟩⟩

/-- The grid of the square room, with a spare cell on every side. -/
noncomputable def squareGrid : RectGrid Exact := ⟨⟨real (-1), real (-1)⟩, real 1, 5, 5⟩

lemma covering_square :
    RectGrid.covering (.room 0) ⟨real 0, real 0⟩ ⟨real 2, real 2⟩ (real 1) = .ok squareGrid := by
  have hone : (0 : Exact) < real 1 := by
    rw [zero_eq, real_lt_real]
    exact one_pos
  have hextent : (⟨real 2, real 2⟩ : Point Exact) - (⟨real 0, real 0⟩ : Point Exact) =
      (⟨real 2, real 2⟩ : Vec Exact) := by
    show Vec.mk (real 2 - real 0) (real 2 - real 0) = _
    rw [real_sub_real, sub_zero]
  have hcount : Scalar.toCount (Scalar.ceil (real 2 / real 1)) = 2 := by
    rw [real_div_real _ one_ne_zero, div_one]
    show ⌊((⌈(2 : ℝ)⌉ : ℤ) : ℝ)⌋₊ = 2
    simp
  have hnonneg : ¬real 2 < 0 := by
    rw [zero_eq, real_lt_real]
    norm_num
  simp [RectGrid.covering, RectGrid.checkCellSize, hone, hextent, hcount, hnonneg, squareGrid]

lemma corners_square : (square 2).corners = [⟨real 0, real 0⟩, ⟨real 2, real 0⟩, ⟨real 2, real 2⟩,
    ⟨real 0, real 2⟩, ⟨real 0, real 0⟩, ⟨real 2, real 0⟩] := rfl

lemma boundingBox_square :
    Point.boundingBox (square 2).corners = some (⟨real 0, real 0⟩, ⟨real 2, real 2⟩) := by
  simp [corners_square, Point.boundingBox, larger_real, smaller_real]

lemma nearestCell_square {x y : ℝ} {i j : ℕ}
    (hx : (0 ≤ x + 1 ∧ x + 1 ≤ 4) ∧ i ≤ x + 1 + 1 / 2 ∧ x + 1 + 1 / 2 < i + 1)
    (hy : (0 ≤ y + 1 ∧ y + 1 ≤ 4) ∧ j ≤ y + 1 + 1 / 2 ∧ y + 1 + 1 / 2 < j + 1) :
    squareGrid.nearestCell ⟨real x, real y⟩ = (i, j) := by
  have axis {x : ℝ} {k : ℕ}
      (h : (0 ≤ x + 1 ∧ x + 1 ≤ 4) ∧ k ≤ x + 1 + 1 / 2 ∧ x + 1 + 1 / 2 < k + 1) :
      RectGrid.nearestBelow ((real x - real (-1)) / real 1) 5 = k := by
    obtain ⟨⟨hlow, hhigh⟩, hround⟩ := h
    rw [real_sub_real, real_div_real _ one_ne_zero, div_one, sub_neg_eq_add,
      RectGrid.nearestBelow_real hlow (by push_cast; exact hhigh), Nat.floor_eq_iff (by linarith)]
    exact hround
  exact Prod.ext (axis hx) (axis hy)

lemma cellsOn_square :
    squareGrid.cellsOn ⟨⟨real 0, real 0⟩, ⟨real 2, real 0⟩⟩ = [(1, 1), (2, 1), (3, 1)] := by
  have hstart : squareGrid.nearestCell ⟨real 0, real 0⟩ = (1, 1) :=
    nearestCell_square (by norm_num) (by norm_num)
  have hstop : squareGrid.nearestCell ⟨real 2, real 0⟩ = (3, 1) :=
    nearestCell_square (by norm_num) (by norm_num)
  rw [RectGrid.cellsOn, hstart, hstop]
  decide

lemma areas_square : ∃ a ∈ (square 2).areas, a.contains (squareGrid.centre (2, 2)) = true := by
  have hcentre : squareGrid.centre (2, 2) = ⟨real 1, real 1⟩ := by
    have hone : real (-1) + real (2 : ℕ) * real 1 = real 1 := by
      rw [real_mul_real, real_add_real, real_inj]
      norm_num
    exact congrArg₂ Point.mk hone hone
  rw [hcentre]
  simp [square, Polygon.rectangle, Polygon.contains, Polygon.oddCrossings, Polygon.crosses]
  rw [real_div_real _ two_ne_zero, real_div_real _ (neg_ne_zero.2 two_ne_zero)]
  norm_num

lemma kindAt_square (walls : List (Segment Exact)) (c : Cell) :
    kindAt { square 2 with walls := walls } squareGrid c =
      if c = (1, 1) ∨ c = (2, 1) ∨ c = (3, 1) then .door
      else if ∃ wall ∈ walls, c ∈ squareGrid.cellsOn wall then .wall
      else if ∃ a ∈ (square 2).areas, a.contains (squareGrid.centre c) = true then .inside
      else .outside := by
  have hvalues : (square 2).targets.values = [⟨⟨real 0, real 0⟩, ⟨real 2, real 0⟩⟩] := rfl
  have hobstacles : (square 2).obstacles = [] := rfl
  simp only [kindAt_eq, hvalues, hobstacles, exists_eq_left, cellsOn_square, List.mem_cons,
    List.not_mem_nil, false_and, exists_false, or_false]

lemma rasterize_square : (square 2).rasterize (real 1) =
    .ok ⟨.room 0, squareGrid, (square 2).layout squareGrid, (square 2).targets⟩ := by
  have hinside : (square 2).kindAt squareGrid (2, 2) = .inside :=
    (kindAt_square [] (2, 2)).trans (by simp [areas_square])
  rw [rasterize_of_covering rfl boundingBox_square covering_square]
  exact if_neg (count_layout_ne_zero_iff.2 ⟨(2, 2), rfl, hinside⟩)

end FloorPlan

end Egress
