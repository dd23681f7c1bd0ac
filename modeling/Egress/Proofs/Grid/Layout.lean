import Egress.Proofs.Geometry.Polygon
import Egress.Proofs.Grid.Covering

/-!
# The layout of a plan

Each cell of a plan that is laid out is what one rule tells from the geometry of the plan, so the
order in which areas, walls and obstacles are listed does not matter. Free floor and doors keep off
the border of the grid: areas and door lines lie in the box that the grid covers, while walls and
obstacles may lie beyond it.
-/
namespace Egress
open Exact

namespace FloorPlan

/-- A plan with a target and with real corners has a box that can be covered. -/
lemma exists_bounded {plan : FloorPlan Exact} (htargets : plan.targets.isEmpty = false)
    (hfin : ∀ p ∈ plan.corners, p.IsFinite) :
    ∃ lo hi, Point.boundingBox plan.corners = some (lo, hi) ∧ lo.Bounded hi := by
  have hcorners : plan.corners ≠ [] := by
    obtain ⟨entry, hentry⟩ := List.exists_mem_of_ne_nil plan.targets.entries
      (by simpa [OrderedMap.isEmpty] using htargets)
    exact List.ne_nil_of_mem (ends_mem_corners (List.mem_map_of_mem hentry)).1
  obtain ⟨x₀, y₀, x₁, y₁, hbox, hx, hy⟩ := Point.exists_boundingBox hcorners hfin
  have hnonneg {a b : ℝ} (h : a ≤ b) : ¬real b - real a < 0 := by
    rw [real_sub_real, zero_eq, real_lt_real]
    linarith
  refine ⟨_, _, hbox, ⟨?_, ?_⟩, hnonneg hx, hnonneg hy⟩
  · rw [real_sub_real, isFinite_real]
  · rw [real_sub_real, isFinite_real]

section
variable {α : Type} {plan plan' : FloorPlan α}

/-- Two plans that differ only in the order of their areas, walls and obstacles. -/
structure Reorders (plan plan' : FloorPlan α) : Prop where
  zone_eq : plan.zone = plan'.zone
  areas : plan.areas.Perm plan'.areas
  walls : plan.walls.Perm plan'.walls
  obstacles : plan.obstacles.Perm plan'.obstacles
  targets_eq : plan.targets = plan'.targets

lemma Reorders.corners_perm (h : plan.Reorders plan') : plan.corners.Perm plan'.corners := by
  rw [corners, corners, h.targets_eq]
  exact (h.areas.flatMap_right _).append_right _

lemma Reorders.kindAt_congr [Scalar α] (h : plan.Reorders plan') (g : RectGrid α) (c : Cell) :
    plan.kindAt g c = plan'.kindAt g c := by
  simp only [kindAt_eq, h.targets_eq, h.areas.mem_iff, h.walls.mem_iff, h.obstacles.mem_iff]

theorem Reorders.layout_eq [Scalar α] (h : plan.Reorders plan') (g : RectGrid α) :
    plan.layout g = plan'.layout g := by
  obtain ⟨hwidth, hheight⟩ := shape_layout plan g
  obtain ⟨hwidth', hheight'⟩ := shape_layout plan' g
  refine Lattice.ext_getD .outside (hwidth.trans hwidth'.symm) (hheight.trans hheight'.symm) ?_
  intro c hc
  rw [Lattice.Has, hwidth, hheight, ← RectGrid.contains_iff] at hc
  rw [getD_layout plan hc, getD_layout plan' hc, h.kindAt_congr]

end

/-- In exact arithmetic the box of the corners does not depend on their order either. -/
theorem Reorders.rasterize_eq {plan plan' : FloorPlan Exact} (hr : plan.Reorders plan')
    (h : Exact) : plan.rasterize h = plan'.rasterize h := by
  have hlayout : plan.layout = plan'.layout := funext hr.layout_eq
  simp only [rasterize, hr.zone_eq, hr.targets_eq, Point.boundingBox_perm hr.corners_perm, hlayout]

section
variable {α : Type} [Scalar α] {plan : FloorPlan α} {g : RectGrid α} {c : Cell}

lemma exists_target_of_kindAt (h : plan.kindAt g c = .door) :
    ∃ line ∈ plan.targets.values, c ∈ g.cellsOn line := by
  rw [kindAt_eq] at h
  split_ifs at h with hdoor
  exact hdoor

lemma exists_area_of_kindAt (h : plan.kindAt g c = .inside) :
    ∃ a ∈ plan.areas, a.contains (g.centre c) = true := by
  rw [kindAt_eq] at h
  split_ifs at h with _ _ hinside
  exact hinside

end

/-- Every cell of a plan that is laid out is what the rule tells, whatever the order of areas, walls
and obstacles. A plan with a target and a bounded box is refused only if by the rule no cell is free
floor. Over real numbers the order does not matter for the grid either, and real corners have a
bounded box. -/
theorem rasterize_pointwise :
    (∀ {α : Type} [Scalar α] (plan : FloorPlan α) (h : α),
      (∀ g, plan.rasterize h = .ok g → ∀ c, g.grid.contains c = true →
        g.kind c = plan.kindAt g.grid c) ∧
      (∀ plan', plan.Reorders plan' → ∀ g, plan.layout g = plan'.layout g) ∧
      ∀ lo hi, plan.targets.isEmpty = false → Point.boundingBox plan.corners = some (lo, hi) →
        lo.Bounded hi → 0 < h → Scalar.isFinite h = true →
        ∃ g, RectGrid.covering plan.zone lo hi h = .ok g ∧
          ((∃ c, g.contains c = true ∧ plan.kindAt g c = .inside) →
            plan.rasterize h = .ok ⟨plan.zone, g, plan.layout g, plan.targets⟩) ∧
          ((∀ c, g.contains c = true → plan.kindAt g c ≠ .inside) →
            plan.rasterize h = .error (.noFloor plan.zone))) ∧
    ∀ plan : FloorPlan Exact,
      (∀ plan', plan.Reorders plan' → ∀ h, plan.rasterize h = plan'.rasterize h) ∧
      (plan.targets.isEmpty = false → (∀ p ∈ plan.corners, p.IsFinite) →
        ∃ lo hi, Point.boundingBox plan.corners = some (lo, hi) ∧ lo.Bounded hi) := by
  refine ⟨fun plan h => ⟨?_, ?_, ?_⟩, fun plan => ⟨?_, exists_bounded⟩⟩
  · intro g hg c hc
    obtain ⟨-, lo, hi, grid, -, -, -, rfl⟩ := rasterize_eq_ok_iff.1 hg
    exact getD_layout plan hc
  · intro plan' hr g
    exact hr.layout_eq g
  · intro lo hi htargets hbox hbounded hpos hfin
    have hg : RectGrid.covering plan.zone lo hi h = .ok _ :=
      RectGrid.covering_eq_ok_iff.2 ⟨⟨hpos, hfin⟩, hbounded, rfl⟩
    refine ⟨_, hg, fun hinside => ?_, fun hnone => ?_⟩
    · rw [rasterize_of_covering htargets hbox hg, if_neg (count_layout_ne_zero_iff.2 hinside)]
    · rw [rasterize_of_covering htargets hbox hg, if_pos]
      by_contra hcount
      obtain ⟨c, hc, hinside⟩ := count_layout_ne_zero_iff.1 hcount
      exact hnone c hc hinside
  · intro plan' hr h
    exact hr.rasterize_eq h

lemma isFinite_corners_square : ∀ p ∈ (square 2).corners, p.IsFinite := by
  simp [corners_square, Point.IsFinite]

/-- The square room with walls along its lower and its upper side. -/
noncomputable def walledSquare (side : ℝ) : FloorPlan Exact :=
  { square side with
    walls := [⟨⟨real 0, real 0⟩, ⟨real side, real 0⟩⟩,
      ⟨⟨real 0, real side⟩, ⟨real side, real side⟩⟩] }

lemma kindAt_walledSquare (c : Cell) : (walledSquare 2).kindAt squareGrid c =
    if c = (1, 1) ∨ c = (2, 1) ∨ c = (3, 1) then .door
    else if c = (1, 3) ∨ c = (2, 3) ∨ c = (3, 3) then .wall
    else if ∃ a ∈ (square 2).areas, a.contains (squareGrid.centre c) = true then .inside
    else .outside := by
  have hupper : squareGrid.cellsOn ⟨⟨real 0, real 2⟩, ⟨real 2, real 2⟩⟩ =
      [(1, 3), (2, 3), (3, 3)] := by
    have hstart : squareGrid.nearestCell ⟨real 0, real 2⟩ = (1, 3) :=
      nearestCell_square (by norm_num) (by norm_num)
    have hstop : squareGrid.nearestCell ⟨real 2, real 2⟩ = (3, 3) :=
      nearestCell_square (by norm_num) (by norm_num)
    rw [RectGrid.cellsOn, hstart, hstop]
    decide
  have hwalls : (∃ wall ∈ (walledSquare 2).walls, c ∈ squareGrid.cellsOn wall) ↔
      (c = (1, 1) ∨ c = (2, 1) ∨ c = (3, 1)) ∨ c = (1, 3) ∨ c = (2, 3) ∨ c = (3, 3) := by
    simp [walledSquare, cellsOn_square, hupper]
  rw [walledSquare, kindAt_square]
  split
  · rfl
  · rename_i hdoor
    exact if_congr (hwalls.trans (or_iff_right hdoor)) rfl rfl

/-- The door goes before the wall under it, the walls may be listed the other way round, and a room
without areas is refused. -/
theorem rasterize_pointwise_walled :
    ∃ g, (walledSquare 2).rasterize (real 1) = .ok g ∧ g.kind (1, 1) = .door ∧
      g.kind (2, 3) = .wall ∧ g.kind (2, 2) = .inside ∧
      rasterize { walledSquare 2 with walls := (walledSquare 2).walls.reverse } (real 1) = .ok g ∧
      rasterize { square 2 with areas := [] } (real 1) = .error (.noFloor (.room 0)) := by
  have hpos : (0 : Exact) < real 1 := by
    rw [← one_eq]
    exact zero_lt_one
  obtain ⟨hkinds, -, hlaid⟩ := rasterize_pointwise.1 (walledSquare 2) (real 1)
  obtain ⟨horder, hbounded⟩ := rasterize_pointwise.2 (walledSquare 2)
  have hreversed : (walledSquare 2).Reorders
      { walledSquare 2 with walls := (walledSquare 2).walls.reverse } :=
    ⟨rfl, .rfl, (List.reverse_perm _).symm, .rfl, rfl⟩
  have hkind : (walledSquare 2).kindAt squareGrid (2, 2) = .inside :=
    (kindAt_walledSquare (2, 2)).trans (by simp [areas_square])
  have hrefused : rasterize { square 2 with areas := [] } (real 1) =
      .error (.noFloor (.room 0)) := by
    obtain ⟨-, -, hlaid⟩ := rasterize_pointwise.1 { square 2 with areas := [] } (real 1)
    obtain ⟨-, hbounded⟩ := rasterize_pointwise.2 { square 2 with areas := [] }
    obtain ⟨lo, hi, hbox, hbounded⟩ := hbounded rfl fun p hp =>
      isFinite_corners_square p (List.mem_append_right _ hp)
    obtain ⟨g, -, -, hrefused⟩ := hlaid lo hi rfl hbox hbounded hpos rfl
    refine hrefused fun c _ hinside => ?_
    obtain ⟨a, ha, -⟩ := exists_area_of_kindAt hinside
    exact absurd ha List.not_mem_nil
  obtain ⟨lo, hi, hbox, hbounded⟩ := hbounded rfl isFinite_corners_square
  obtain ⟨grid, hgrid, hlaid, -⟩ := hlaid lo hi rfl hbox hbounded hpos rfl
  obtain ⟨rfl, rfl⟩ : lo = ⟨real 0, real 0⟩ ∧ hi = ⟨real 2, real 2⟩ := by
    simpa using hbox.symm.trans boundingBox_square
  obtain rfl : grid = squareGrid := Except.ok.inj (hgrid.symm.trans covering_square)
  have hlaid := hlaid ⟨(2, 2), rfl, hkind⟩
  refine ⟨_, hlaid, ?_, ?_, ?_, ?_, hrefused⟩
  · exact (hkinds _ hlaid (1, 1) rfl).trans (kindAt_walledSquare (1, 1))
  · exact (hkinds _ hlaid (2, 3) rfl).trans (kindAt_walledSquare (2, 3))
  · exact (hkinds _ hlaid (2, 2) rfl).trans hkind
  · exact (horder _ hreversed (real 1)).symm.trans hlaid

lemma inner_of_kindAt {plan : FloorPlan Exact} (hcorners : ∀ p ∈ plan.corners, p.IsNumber)
    {lo hi : Point Exact} (hbox : Point.boundingBox plan.corners = some (lo, hi)) {h : Exact}
    {g : RectGrid Exact} (hg : RectGrid.covering plan.zone lo hi h = .ok g) {c : Cell}
    (hc : plan.kindAt g c = .inside ∨ plan.kindAt g c = .door) : g.Inner c := by
  have hin {p : Point Exact} (hp : p ∈ plan.corners) : p.InBox lo hi :=
    Point.inBox_of_mem hbox hp (hcorners p hp)
  rcases hc with hinside | hdoor
  -- Walls and obstacles may lie beyond the box, but neither makes a cell free floor or a door.
  · obtain ⟨a, ha, hcontains⟩ := exists_area_of_kindAt hinside
    obtain ⟨x₀, y₀, x₁, y₁, s, hs, rfl, rfl, rfl, rfl⟩ := RectGrid.exists_overBox hg
    exact RectGrid.inner_of_inBox hs (Polygon.inBox_of_contains ⟨rfl, rfl⟩ ⟨rfl, rfl⟩
      (fun v hv => hin (vertex_mem_corners ha hv)) ⟨rfl, rfl⟩ hcontains)
  · obtain ⟨line, hline, hmem⟩ := exists_target_of_kindAt hdoor
    obtain ⟨hstart, hstop⟩ := ends_mem_corners hline
    exact (RectGrid.near_of_mem_cellsOn hg (hin hstart) (hin hstop) hmem).1

/-- Whatever the areas of a plan look like, as long as its corners are numbers, no free cell is on
the border of the grid, so all free cells have four neighbours. -/
theorem rasterize_spareRing {plan : FloorPlan Exact} {h : Exact} {g : ZoneGrid Exact}
    (hcorners : ∀ p ∈ plan.corners, p.IsNumber) (hg : plan.rasterize h = .ok g) :
    (∀ c, g.kind c = .inside ∨ g.kind c = .door → g.grid.Inner c) ∧
      ∀ c, g.isPassable c = true → g.grid.neighbours c =
        [(c.1 + 1, c.2), (c.1, c.2 + 1), (c.1 - 1, c.2), (c.1, c.2 - 1)] := by
  have hshaped := shaped_of_rasterize hg
  obtain ⟨-, lo, hi, grid, hbox, hgrid, -, rfl⟩ := rasterize_eq_ok_iff.1 hg
  have hinner (c : Cell) (hc : (⟨plan.zone, grid, plan.layout grid, plan.targets⟩ :
      ZoneGrid Exact).isPassable c = true) : grid.Inner c := by
    have hcell := hshaped.contains_of_isPassable hc
    rw [ZoneGrid.isPassable, ZoneGrid.kind, getD_layout plan hcell, CellKind.isPassable_iff] at hc
    exact inner_of_kindAt hcorners hbox hgrid hc
  refine ⟨fun c hc => hinner c ?_, fun c hc => RectGrid.neighbours_of_inner (hinner c hc)⟩
  exact CellKind.isPassable_iff.2 hc

/-- In the square room the cell at the corner of the door has its four neighbours. -/
theorem rasterize_spareRing_square :
    (∀ p ∈ (square 2).corners, p.IsNumber) ∧
    ∃ g, (square 2).rasterize (real 1) = .ok g ∧ g.isPassable (1, 1) = true ∧
      g.grid.Inner (1, 1) ∧ g.grid.neighbours (1, 1) = [(2, 1), (1, 2), (0, 1), (1, 0)] := by
  have hcorners : ∀ p ∈ (square 2).corners, p.IsNumber := fun p hp =>
    (isFinite_corners_square p hp).isNumber
  have hdoor : ((square 2).layout squareGrid).getD (1, 1) .outside = .door :=
    (getD_layout (square 2) rfl).trans (kindAt_square [] (1, 1))
  obtain ⟨hinner, hneighbours⟩ := rasterize_spareRing hcorners rasterize_square
  refine ⟨hcorners, _, rasterize_square, ?_, hinner (1, 1) (.inr hdoor), hneighbours (1, 1) ?_⟩
  · exact congrArg CellKind.isPassable hdoor
  · exact congrArg CellKind.isPassable hdoor

end FloorPlan

end Egress
