import Egress.Proofs.Field.Reach
import Egress.Proofs.Grid.Addressing

/-!
# Fields towards doors lead to the door

The field towards a door of a plan that has been laid out leads down to the door from every cell
from which the door can be reached.
-/
namespace Egress
open Exact

namespace ZoneGrid

variable {g : ZoneGrid Exact} {speed : Lattice Exact} {line : Segment Exact} {c : Cell}

lemma passable_of_mem_doorCells (hc : c ∈ g.doorCells line) : g.isPassable c = true := by
  unfold doorCells at hc
  split at hc
  · exact (List.mem_filter.1 hc).2
  · exact (List.mem_filter.1 hc).2

lemma passable_of_mem_seeds {mode : SeedMode} (hc : c ∈ g.seeds line mode) :
    g.isPassable c = true := by
  cases mode with
  | wholeLine => exact passable_of_mem_doorCells hc
  | centre =>
    simp only [seeds] at hc
    split at hc
    · rename_i c' hc'
      obtain rfl := List.mem_singleton.1 hc
      exact (Option.filter_eq_some_iff.1 hc').2
    · exact passable_of_mem_doorCells hc

/-- A door with a free cell on its line has cells to start from. -/
lemma doorCells_ne_nil {α : Type} [Scalar α] {g : ZoneGrid α} {line : Segment α}
    (h : ∃ c ∈ g.grid.cellsOn line, g.isPassable c = true) : g.doorCells line ≠ [] := by
  obtain ⟨c, hc, hfree⟩ := h
  have hmem : c ∈ g.freeCellsOn line := List.mem_filter.2 ⟨hc, hfree⟩
  unfold doorCells
  split
  · exact List.ne_nil_of_mem hmem
  · rename_i hne
    exact hne

noncomputable def doorCost (g : ZoneGrid Exact) (speed : Lattice Exact) (line : Segment Exact)
    (mode : SeedMode) : Lattice Exact :=
  if mode = .centre then overwrite (g.solve speed (g.seeds line mode)) (g.doorCells line) 0
  else g.solve speed (g.seeds line mode)

theorem downhill_doorCost (hm : g.Measured speed) (hg : g.Shaped) (mode : SeedMode) :
    g.Downhill (g.doorCost speed line mode) := by
  have hseeds : ∀ c ∈ g.seeds line mode, g.grid.contains c = true := fun c hc =>
    hg.contains_of_isPassable (passable_of_mem_seeds hc)
  have hsolve : g.Downhill (g.solve speed (g.seeds line mode)) :=
    (isArrival_solve hm hseeds).downhill hm fun c hc => passable_of_mem_seeds hc
  unfold doorCost
  split
  · apply hsolve.overwrite_zero
    intro c hc
    have hfree := passable_of_mem_doorCells hc
    exact ⟨hfree, hg.contains_of_isPassable hfree⟩
  · exact hsolve

/-- The cells of a door cost nothing, whichever of them the front starts from. -/
lemma doorCost_of_mem_doorCells (hm : g.Measured speed) (hg : g.Shaped) (mode : SeedMode)
    (hc : c ∈ g.doorCells line) :
    (g.doorCost speed line mode).getD c Scalar.infinity = 0 := by
  have hseeds : ∀ c ∈ g.seeds line mode, g.grid.contains c = true := fun c hc =>
    hg.contains_of_isPassable (passable_of_mem_seeds hc)
  have hsolve := isArrival_solve hm hseeds
  unfold doorCost
  cases mode with
  | wholeLine =>
    rw [if_neg (by decide)]
    exact hsolve.seed c hc
  | centre =>
    rw [if_pos rfl]
    refine Lattice.getD_foldl_set_of_mem hc ?_ 0 _
    rw [Lattice.Has, hsolve.width_eq, hsolve.height_eq]
    exact RectGrid.contains_iff.1 (hg.contains_of_isPassable (passable_of_mem_doorCells hc))

/-- Off the line of the door the direction is that of steepest descent. -/
theorem solveTarget_spec {target : DoorId} (hline : g.targets.find? target = some line)
    (hdoor : g.doorCells line ≠ []) (speed : Lattice Exact) (mode : SeedMode) :
    ∃ field, g.solveTarget speed target mode = .ok field ∧
      field.cost = g.doorCost speed line mode ∧
      ∀ c, c ∉ g.grid.cellsOn line → c ∉ g.doorCells line →
        field.direction.getD c .zero =
          (g.descent (g.doorCost speed line mode)).getD c .zero := by
  have hempty : (g.doorCells line).isEmpty = false := by
    simpa [List.isEmpty_eq_false_iff] using hdoor
  simp only [solveTarget, hline, hempty]
  refine ⟨_, rfl, rfl, fun c hc hc' => ?_⟩
  dsimp only
  cases hpass : g.passVector line with
  | none => rfl
  | some pass =>
    have hout : c ∉ g.freeCellsOn line ++ g.doorCells line := by
      rw [List.mem_append, not_or]
      exact ⟨fun hfree => hc (List.mem_filter.1 hfree).1, hc'⟩
    exact Lattice.getD_foldl_set_of_not_mem hout _ _ _

end ZoneGrid

open ZoneGrid in
/-- The field towards a door of a plan that has been laid out leads down to the door, and steps to
cheapest neighbours come to it. -/
theorem FloorPlan.solveTarget_descends {plan : FloorPlan Exact} {h : Exact} {g : ZoneGrid Exact}
    (hg : plan.rasterize h = .ok g) {speed : Lattice Exact}
    (hspeed : ∀ c, g.grid.contains c = true → speed.getD c 0 ≠ Scalar.infinity)
    {target : DoorId} {line : Segment Exact} (hline : g.targets.find? target = some line)
    (mode : SeedMode) :
    ∃ field, g.solveTarget speed target mode = .ok field ∧
      (∀ c, g.isPassable c = true → c ∉ g.grid.cellsOn line → c ∉ g.doorCells line →
        Scalar.isFinite (field.cost.getD c Scalar.infinity) = true →
        field.cost.getD c Scalar.infinity ≠ 0 →
        g.LeadsDown field.cost c (field.direction.getD c .zero)) ∧
      (∀ c, g.isPassable c = true → c ∉ g.grid.cellsOn line →
        field.cost.getD c Scalar.infinity = Scalar.infinity →
        field.direction.getD c .zero = .zero) ∧
      (∀ c, Scalar.isFinite (field.cost.getD c Scalar.infinity) = true →
        g.isPassable c = true ∧ (field.cost.getD c Scalar.infinity ≠ 0 →
          (∃ n, g.IsCheapest field.cost c n) ∧ ∀ n, g.IsCheapest field.cost c n →
            field.cost.getD n Scalar.infinity < field.cost.getD c Scalar.infinity)) ∧
      ∀ walk : ℕ → Cell, Scalar.isFinite (field.cost.getD (walk 0) Scalar.infinity) = true →
        (∀ k, field.cost.getD (walk k) Scalar.infinity ≠ 0 →
          g.IsCheapest field.cost (walk k) (walk (k + 1))) →
        ∃ k, field.cost.getD (walk k) Scalar.infinity = 0 ∧
          (∀ i < k, field.cost.getD (walk (i + 1)) Scalar.infinity <
            field.cost.getD (walk i) Scalar.infinity) ∧
          ∀ i ≤ k, g.isPassable (walk i) = true := by
  obtain ⟨⟨hpos, hfinite⟩, ⟨hsize, -, -⟩, -, -⟩ := rasterize_spec hg
  have hm : g.Measured speed := ⟨hsize ▸ hpos, hsize ▸ hfinite, hspeed⟩
  have hshaped := shaped_of_rasterize hg
  have hdown : g.Downhill (g.doorCost speed line mode) := downhill_doorCost hm hshaped mode
  obtain ⟨field, hfield, hcost, hdir⟩ :=
    solveTarget_spec hline (doorCells_ne_nil (freeCellsOn_ne_nil hg hline)) speed mode
  refine ⟨field, hfield, ?_⟩
  rw [hcost]
  have hfin (c : Cell) : Scalar.isFinite ((g.doorCost speed line mode).getD c Scalar.infinity) =
      true ↔ costs (g.doorCost speed line mode) c ≠ ⊤ := by
    rw [hdown.ofCost_costs c, isFinite_ofCost]
  have hzero (c : Cell) : (g.doorCost speed line mode).getD c Scalar.infinity = 0 ↔
      costs (g.doorCost speed line mode) c = 0 := by
    rw [hdown.ofCost_costs c, zero_eq, ← ofCost_coe, ofCost_injective.eq_iff, WithTop.coe_zero]
  have hlt (n c : Cell) : (g.doorCost speed line mode).getD n Scalar.infinity <
      (g.doorCost speed line mode).getD c Scalar.infinity ↔
      costs (g.doorCost speed line mode) n < costs (g.doorCost speed line mode) c := by
    rw [hdown.ofCost_costs n, hdown.ofCost_costs c, ofCost_lt_ofCost]
  refine ⟨?_, ?_, ?_, ?_⟩
  · intro c hfree hc hc' hcfin hc0
    rw [hdir c hc hc']
    exact hdown.leadsDown_descent (hsize ▸ hpos) (hsize ▸ hfinite) ((hfin c).1 hcfin)
      fun h0 => hc0 ((hzero c).2 h0)
  · intro c hfree hc hinf
    have hc' : c ∉ g.doorCells line := by
      intro hmem
      rw [doorCost_of_mem_doorCells hm hshaped mode hmem, zero_eq] at hinf
      exact real_ne_posInf 0 hinf
    have hcfin : ¬Scalar.isFinite ((g.doorCost speed line mode).getD c Scalar.infinity) = true := by
      rw [hinf]
      exact Bool.false_ne_true
    rw [hdir c hc hc', getD_descent hdown (hshaped.contains_of_isPassable hfree) hfree,
      if_neg hcfin]
  · intro c hcfin
    have hc := (hfin c).1 hcfin
    refine ⟨hdown.passable c hc, fun hc0 => ?_⟩
    have hc0' := fun h0 => hc0 ((hzero c).2 h0)
    exact ⟨hdown.exists_isCheapest hc hc0',
      fun n hn => (hlt n c).2 (hdown.costs_lt_of_isCheapest hc hc0' hn)⟩
  · intro walk hstart hstep
    simp only [hzero, hlt]
    exact hdown.walk walk ((hfin _).1 hstart) fun k hk => hstep k fun h0 => hk ((hzero _).1 h0)

namespace FloorPlan

/-- The door of the square room. -/
noncomputable def lowerSide (side : ℝ) : Segment Exact :=
  ⟨⟨real 0, real 0⟩, ⟨real side, real 0⟩⟩

lemma pointAt_lowerSide (t : ℝ) : (lowerSide 2).pointAt (real t) = ⟨real (2 * t), real 0⟩ := by
  simp [lowerSide, Segment.pointAt_real]

lemma clearOfFrame_lowerSide :
    (lowerSide 2).clearOfFrame = ⟨⟨real 0.2, real 0⟩, ⟨real 1.8, real 0⟩⟩ := by
  have hlength : (lowerSide 2).length = real 2 := by
    rw [Segment.length, Segment.extent, lowerSide, Point.sub_real, Vec.norm_real]
    norm_num
  have hlong : (0.6 : Exact) < (lowerSide 2).length := by
    rw [hlength, ofScientific_eq, real_lt_real]
    norm_num
  have htrims : ¬(lowerSide 2).length ≤ 2 * 0.2 := by
    rw [hlength, ofScientific_eq, two_eq, real_mul_real, real_le_real]
    norm_num
  rw [Segment.clearOfFrame, if_pos hlong, Segment.shortened, if_neg htrims, hlength,
    ofScientific_eq, real_div_real _ two_ne_zero, one_eq, real_sub_real, pointAt_lowerSide,
    pointAt_lowerSide]
  norm_num

/-- All cells of the door are in the same row. -/
lemma snd_of_mem_doorCells {g : ZoneGrid Exact} (hg : g.grid = squareGrid) {c : Cell}
    (hc : c ∈ g.doorCells (lowerSide 2)) : c.2 = 1 := by
  have hrow {s : Segment Exact} {i j : ℕ} (hstart : squareGrid.nearestCell s.start = (i, 1))
      (hstop : squareGrid.nearestCell s.stop = (j, 1)) (hc : c ∈ g.freeCellsOn s) : c.2 = 1 := by
    have hmem := (List.mem_filter.1 hc).1
    rw [hg, RectGrid.cellsOn, hstart, hstop] at hmem
    simpa using (Trace.mem_uIcc_of_mem_lineBetween hmem).2
  unfold ZoneGrid.doorCells at hc
  split at hc
  · exact hrow (nearestCell_square (i := 1) (by norm_num) (by norm_num))
      (nearestCell_square (i := 3) (by norm_num) (by norm_num)) hc
  · rw [clearOfFrame_lowerSide] at hc
    exact hrow (nearestCell_square (i := 1) (by norm_num) (by norm_num))
      (nearestCell_square (i := 3) (by norm_num) (by norm_num)) hc

/-- The square room, laid out on the grid that fits a side of two meters. -/
noncomputable def squareZone (side : ℝ) : ZoneGrid Exact :=
  ⟨.room 0, squareGrid, (square side).layout squareGrid, (square side).targets⟩

lemma isPassable_squareZone {c : Cell} (hc : squareGrid.contains c = true) :
    (squareZone 2).isPassable c = true ↔
      (square 2).kindAt squareGrid c = .inside ∨ (square 2).kindAt squareGrid c = .door := by
  rw [ZoneGrid.isPassable, ZoneGrid.kind, ← CellKind.isPassable_iff, ← getD_layout (square 2) hc]
  rfl

lemma not_mem_doorCells : (2, 2) ∉ (squareZone 2).doorCells (lowerSide 2) :=
  fun hmem => absurd (snd_of_mem_doorCells rfl hmem) (by decide)

lemma cellSize_squareGrid_pos : 0 < squareGrid.cellSize := by
  rw [squareGrid, ← one_eq]
  exact Exact.zero_lt_one

lemma seeds_lowerSide : (squareZone 2).seeds (lowerSide 2) .centre = [(2, 1)] := by
  have hcentre : (lowerSide 2).centre = ⟨real 1, real 0⟩ := by
    rw [Segment.centre, ofScientific_eq, pointAt_lowerSide]
    norm_num
  have hreal : squareGrid.IsReal := ⟨cellSize_squareGrid_pos, rfl, rfl, rfl⟩
  have hcell : squareGrid.nearestCell ⟨real 1, real 0⟩ = (2, 1) :=
    nearestCell_square (by norm_num) (by norm_num)
  have hat : squareGrid.cellAt? ⟨real 1, real 0⟩ = some (2, 1) := by
    have hinner : squareGrid.Inner (2, 1) := ⟨by decide, by decide⟩
    rw [← hcell] at hinner
    rw [RectGrid.cellAt?_of_inner hreal ⟨rfl, rfl⟩ hinner, hcell]
  have hfree : (squareZone 2).isPassable (2, 1) = true :=
    (isPassable_squareZone rfl).2 (.inr ((kindAt_square [] (2, 1)).trans (by simp)))
  have hfound : (squareZone 2).grid.cellAt? (lowerSide 2).centre = some (2, 1) := hcentre ▸ hat
  rw [ZoneGrid.seeds, hfound, Option.filter_some, if_pos hfree]

lemma measured_squareZone : (squareZone 2).Measured (squareZone 2).evenSpeed :=
  ZoneGrid.measured_evenSpeed cellSize_squareGrid_pos rfl

/-- The cell above the middle of the door is reached. -/
lemma doorCost_squareZone : ∃ x : ℝ, x ≠ 0 ∧
    ((squareZone 2).doorCost (squareZone 2).evenSpeed (lowerSide 2) .centre).getD (2, 2)
      Scalar.infinity = real x := by
  have hseeds : ∀ c ∈ [((2, 1) : Cell)], (squareZone 2).grid.contains c = true := by decide
  have hT := ZoneGrid.isArrival_solve measured_squareZone hseeds
  have hfree : (squareZone 2).isPassable (2, 2) = true :=
    (isPassable_squareZone rfl).2 (.inl ((kindAt_square [] (2, 2)).trans (by simp [areas_square])))
  have hpath : (squareZone 2).IsPath (squareZone 2).evenSpeed [(2, 1)] (2, 2) [(2, 2)] :=
    (ZoneGrid.IsPath.seed (List.mem_singleton_self _)).stepFree (by decide) hfree
  have hreached := (hT.costs_ne_top_iff measured_squareZone hseeds).2 ⟨_, hpath⟩
  obtain ⟨n, -, hlower⟩ := hT.exists_lower measured_squareZone hreached (by decide)
  have hpos := (hT.nonneg measured_squareZone n).trans_lt hlower
  obtain ⟨x, hx⟩ := WithTop.ne_top_iff_exists.1 hreached
  rw [← hx] at hpos
  refine ⟨x, (WithTop.coe_pos.1 hpos).ne', ?_⟩
  rw [ZoneGrid.doorCost, if_pos rfl, ZoneGrid.overwrite,
    Lattice.getD_foldl_set_of_not_mem not_mem_doorCells, seeds_lowerSide, hT.ofCost_costs, ← hx,
    ofCost_coe]

/-- The square room is laid out, and walks down its field come to the door. Above the middle of the
door the field leads down to a cheaper cell. -/
theorem solveTarget_square : (square 2).rasterize (real 1) = .ok (squareZone 2) ∧
    (∀ c, (squareZone 2).grid.contains c = true →
      (squareZone 2).evenSpeed.getD c 0 ≠ Scalar.infinity) ∧
    (squareZone 2).targets.find? 0 = some (lowerSide 2) ∧
    ∃ field, (squareZone 2).solveTarget (squareZone 2).evenSpeed 0 .centre = .ok field ∧
      Scalar.isFinite (field.cost.getD (2, 2) Scalar.infinity) = true ∧
      field.cost.getD (2, 2) Scalar.infinity ≠ 0 ∧
      (squareZone 2).LeadsDown field.cost (2, 2) (field.direction.getD (2, 2) .zero) ∧
      (∃ n, (squareZone 2).IsCheapest field.cost (2, 2) n ∧
        field.cost.getD n Scalar.infinity < field.cost.getD (2, 2) Scalar.infinity) ∧
      ∀ walk : ℕ → Cell, Scalar.isFinite (field.cost.getD (walk 0) Scalar.infinity) = true →
        (∀ k, field.cost.getD (walk k) Scalar.infinity ≠ 0 →
          (squareZone 2).IsCheapest field.cost (walk k) (walk (k + 1))) →
        ∃ k, field.cost.getD (walk k) Scalar.infinity = 0 := by
  have hspeed : ∀ c, (squareZone 2).grid.contains c = true →
      (squareZone 2).evenSpeed.getD c 0 ≠ Scalar.infinity := measured_squareZone.speed_ne_infinity
  have hline : (squareZone 2).targets.find? 0 = some (lowerSide 2) :=
    OrderedMap.find?_insert_self _ _ _
  obtain ⟨field, hfield, hdown, -, hreached, hwalk⟩ :=
    solveTarget_descends rasterize_square hspeed hline .centre
  obtain ⟨x, hx, hcost⟩ := doorCost_squareZone
  have hdoor : (squareZone 2).doorCells (lowerSide 2) ≠ [] :=
    ZoneGrid.doorCells_ne_nil (freeCellsOn_ne_nil rasterize_square hline)
  obtain ⟨field', hfield', hcost', -⟩ :=
    ZoneGrid.solveTarget_spec hline hdoor (squareZone 2).evenSpeed .centre
  obtain rfl : field' = field := Except.ok.inj (hfield'.symm.trans hfield)
  rw [← hcost'] at hcost
  have hfin : Scalar.isFinite (field'.cost.getD (2, 2) Scalar.infinity) = true := by
    rw [hcost]
    rfl
  have hnonzero : field'.cost.getD (2, 2) Scalar.infinity ≠ 0 := by
    rw [hcost, zero_eq, ne_eq, real_inj]
    exact hx
  obtain ⟨hfree, hcheapest⟩ := hreached (2, 2) hfin
  obtain ⟨⟨n, hn⟩, hless⟩ := hcheapest hnonzero
  have hoff : (2, 2) ∉ (squareZone 2).grid.cellsOn (lowerSide 2) := by
    have hcells : (squareZone 2).grid.cellsOn (lowerSide 2) = [(1, 1), (2, 1), (3, 1)] :=
      cellsOn_square
    rw [hcells]
    decide
  refine ⟨rasterize_square, hspeed, hline, field', hfield, hfin, hnonzero,
    hdown (2, 2) hfree hoff not_mem_doorCells hfin hnonzero, ⟨n, hn, hless n hn⟩, ?_⟩
  intro walk hstart hstep
  obtain ⟨k, hk, -⟩ := hwalk walk hstart hstep
  exact ⟨k, hk⟩

end FloorPlan

end Egress
