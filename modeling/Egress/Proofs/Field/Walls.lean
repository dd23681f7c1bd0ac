import Egress.Proofs.Field.Monotone
import Egress.Proofs.Grid.FloorPlan

/-!
# Keeping clear of walls

A front that is nowhere faster is nowhere cheaper. Near walls speeds are lowered in proportion to
the distance, which is positive at every free cell, so that fronts are slowed down there but come to
the same cells.
-/
namespace Egress
open Exact

namespace ZoneGrid

variable {g : ZoneGrid Exact} {speed speed' : Lattice Exact} {seeds : List Cell} {c : Cell}

/-- A front that is nowhere faster is nowhere cheaper. -/
theorem IsArrival.costs_le_of_slower {T T' : Lattice Exact} (hm : g.Measured speed)
    (hm' : g.Measured speed') (hT : g.IsArrival speed seeds T)
    (hT' : g.IsArrival speed' seeds T')
    (hslow : ∀ c, g.Enterable speed' c → speed'.getD c 0 ≤ speed.getD c 0) (c : Cell) :
    costs T c ≤ costs T' c := by
  have hslower : NoHarder g speed' seeds g speed seeds :=
    ⟨rfl, rfl, le_self_of_isFinite hm.cellSize_finite, fun _ hc => hc, hslow, fun _ hc => hc⟩
  exact hslower.costs_le hm' hm hT' hT c

lemma IsPath.mono {cs : List Cell} (h : g.IsPath speed seeds c cs)
    (hent : ∀ n, g.Enterable speed n → g.Enterable speed' n) : g.IsPath speed' seeds c cs := by
  induction h with
  | seed hc => exact .seed hc
  | step _ hn hc ih => exact ih.step hn (hent _ hc)

lemma mem_wallCells_iff : c ∈ g.wallCells ↔ g.kind c = .wall := by
  simp only [wallCells, List.mem_map, List.mem_filter, Prod.exists, exists_and_right,
    exists_eq_right, decide_eq_true_eq, Lattice.mem_entries_iff CellKind.outside]
  refine ⟨fun h => h.2, fun hc => ⟨has_of_kind ?_, hc⟩⟩
  rw [hc]
  nofun

/-- The distances from the walls are an arrival field. -/
theorem isArrival_wallDistance (hg : g.Shaped) (hm : g.Measured g.evenSpeed) :
    g.IsArrival g.evenSpeed g.wallCells g.wallDistance := by
  refine isArrival_solve hm fun c hc => hg.contains_of_kind ?_
  rw [mem_wallCells_iff.1 hc]
  nofun

/-- No free cell is at a wall. -/
lemma wallDistance_pos (hg : g.Shaped) (hm : g.Measured g.evenSpeed)
    (hc : g.isPassable c = true) : 0 < costs g.wallDistance c := by
  have hT := isArrival_wallDistance hg hm
  by_cases htop : costs g.wallDistance c = ⊤
  · rw [htop]
    exact WithTop.coe_lt_top 0
  · have hwall : c ∉ g.wallCells := by
      intro hmem
      rw [isPassable, mem_wallCells_iff.1 hmem] at hc
      cases hc
    obtain ⟨n, -, hlt⟩ := hT.exists_lower hm htop hwall
    exact (hT.nonneg hm n).trans_lt hlt

/-- The speed at a distance from the walls is at most one, and positive off the walls. -/
lemma wallAvoid_spec {d : WithTop ℝ} (hd : 0 ≤ d) (a : ℝ) :
    ∃ v : ℝ, (if Scalar.isFinite (ofCost d) && decide (ofCost d < real a) then
        Scalar.linMap 0 (real a) 0 1 (ofCost d) else 1) = real v ∧ v ≤ 1 ∧ (0 < d → 0 < v) := by
  cases d with
  | top => exact ⟨1, one_eq, le_rfl, fun _ => one_pos⟩
  | coe x =>
    have hx : 0 ≤ x := WithTop.coe_nonneg.1 hd
    by_cases hlt : x < a
    · have ha : 0 < a := hx.trans_lt hlt
      have hmap : Scalar.linMap 0 (real a) 0 1 (real x) = real (x / a) := by
        simp [Scalar.linMap, zero_eq, one_eq, real_div_real _ ha.ne']
      refine ⟨x / a, ?_, (div_le_one ha).2 hlt.le, fun hpos => ?_⟩
      · rw [ofCost_coe, hmap]
        simp [hlt]
      · exact div_pos (WithTop.coe_pos.1 hpos) ha
    · exact ⟨1, by simp [hlt, one_eq], le_rfl, fun _ => one_pos⟩

/-- Near walls people keep some speed on all free cells, and nobody hurries. -/
lemma exists_wallAvoidSpeed (hg : g.Shaped) (hm : g.Measured g.evenSpeed) (a : ℝ)
    (hc : g.grid.contains c = true) :
    ∃ v : ℝ, (wallAvoidSpeed g.wallDistance (real a)).getD c 0 = real v ∧ v ≤ 1 ∧
      (g.isPassable c = true → 0 < v) := by
  have hT := isArrival_wallDistance hg hm
  have hhas : g.wallDistance.Has c := by
    rw [Lattice.Has, hT.width_eq, hT.height_eq]
    exact RectGrid.contains_iff.1 hc
  obtain ⟨v, hv, hle, hpos⟩ := wallAvoid_spec (hT.nonneg hm c) a
  refine ⟨v, ?_, hle, fun hfree => hpos (wallDistance_pos hg hm hfree)⟩
  rw [wallAvoidSpeed, Lattice.getD_map _ hhas Scalar.infinity, hT.ofCost_costs c]
  exact hv

lemma measured_wallAvoidSpeed (hg : g.Shaped) (hm : g.Measured g.evenSpeed) (a : ℝ) :
    g.Measured (wallAvoidSpeed g.wallDistance (real a)) := by
  refine ⟨hm.cellSize_pos, hm.cellSize_finite, fun c hc => ?_⟩
  obtain ⟨v, hv, -⟩ := exists_wallAvoidSpeed hg hm a hc
  rw [hv]
  exact real_ne_posInf v

/-- Free cells near walls are entered, and no faster than at speed one. -/
lemma wallAvoidSpeed_spec (hg : g.Shaped) (hm : g.Measured g.evenSpeed) (a : ℝ)
    (hc : g.isPassable c = true) :
    0 < (wallAvoidSpeed g.wallDistance (real a)).getD c 0 ∧
      (wallAvoidSpeed g.wallDistance (real a)).getD c 0 ≤ 1 := by
  obtain ⟨v, hv, hle, hpos⟩ := exists_wallAvoidSpeed hg hm a (hg.contains_of_isPassable hc)
  rw [hv, zero_eq, one_eq, real_lt_real, real_le_real]
  exact ⟨hpos hc, hle⟩

/-- Keeping clear of walls takes no free cell out of reach: all of them keep a positive speed of at
most one, the front comes to the same cells as at speed one, and nowhere at a lower cost. -/
theorem wallAvoid_reaches (hg : g.Shaped) (hpos : 0 < g.grid.cellSize)
    (hfin : Scalar.isFinite g.grid.cellSize = true) {avoid : Exact}
    (havoid : Scalar.isFinite avoid = true) (hseeds : ∀ c ∈ seeds, g.isPassable c = true) :
    (∀ c, g.isPassable c = true → 0 < (wallAvoidSpeed g.wallDistance avoid).getD c 0 ∧
      (wallAvoidSpeed g.wallDistance avoid).getD c 0 ≤ 1) ∧
    (∀ c, Scalar.isFinite ((g.solve (wallAvoidSpeed g.wallDistance avoid) seeds).getD c
        Scalar.infinity) = true ↔
      Scalar.isFinite ((g.solve g.evenSpeed seeds).getD c Scalar.infinity) = true) ∧
    ∀ c, (g.solve g.evenSpeed seeds).getD c Scalar.infinity ≤
      (g.solve (wallAvoidSpeed g.wallDistance avoid) seeds).getD c Scalar.infinity := by
  obtain ⟨a, rfl⟩ := isFinite_iff.1 havoid
  have hm := measured_evenSpeed hpos hfin
  have hm' := measured_wallAvoidSpeed hg hm a
  have hfree (c : Cell) (hc : g.isPassable c = true) := wallAvoidSpeed_spec hg hm a hc
  have hgrid (c : Cell) (hc : c ∈ seeds) := hg.contains_of_isPassable (hseeds c hc)
  have hT := isArrival_solve hm hgrid
  have hT' := isArrival_solve hm' hgrid
  refine ⟨hfree, fun c => ?_, fun c => ?_⟩
  · rw [hT'.isFinite_iff_exists_isPath hm' hgrid, hT.isFinite_iff_exists_isPath hm hgrid]
    constructor
    · rintro ⟨cs, hcs⟩
      exact ⟨cs, hcs.mono fun n hn => enterable_evenSpeed hn.1 hn.2.1⟩
    · rintro ⟨cs, hcs⟩
      exact ⟨cs, hcs.mono fun n hn => ⟨hn.1, hn.2.1, (hfree n hn.2.1).1⟩⟩
  · rw [hT.ofCost_costs, hT'.ofCost_costs, ofCost_le_ofCost]
    refine hT.costs_le_of_slower hm hm' hT' (fun n hent => ?_) c
    rw [getD_evenSpeed hent.1]
    exact (hfree n hent.2.1).2

/-- Keeping clear of the wall people come from the first of the three cells to the second, and not
behind the wall. -/
theorem wallAvoid_reaches_divided : divided.Shaped ∧ 0 < divided.grid.cellSize ∧
    Scalar.isFinite divided.grid.cellSize = true ∧ Scalar.isFinite (real 2) = true ∧
    (∀ c ∈ [((0, 0) : Cell)], divided.isPassable c = true) ∧
    0 < (wallAvoidSpeed divided.wallDistance (real 2)).getD (1, 0) 0 ∧
    Scalar.isFinite ((divided.solve (wallAvoidSpeed divided.wallDistance (real 2)) [(0, 0)]).getD
      (1, 0) Scalar.infinity) = true ∧
    ¬Scalar.isFinite ((divided.solve (wallAvoidSpeed divided.wallDistance (real 2)) [(0, 0)]).getD
      (3, 0) Scalar.infinity) = true := by
  have hfin : Scalar.isFinite divided.grid.cellSize = true := isFinite_iff.2 ⟨1, one_eq⟩
  have hseeds : ∀ c ∈ [((0, 0) : Cell)], divided.isPassable c = true := by decide
  have hgrid : ∀ c ∈ [((0, 0) : Cell)], divided.grid.contains c = true := by decide
  have hT := isArrival_solve measured_divided hgrid
  obtain ⟨hspeed, hreached, -⟩ :=
    wallAvoid_reaches ⟨rfl, rfl⟩ Exact.zero_lt_one hfin (isFinite_real 2) hseeds
  simp only [hreached, hT.isFinite_iff_exists_isPath measured_divided hgrid]
  refine ⟨⟨rfl, rfl⟩, Exact.zero_lt_one, hfin, rfl, hseeds, (hspeed (1, 0) (by decide)).1,
    ⟨_, isPath_divided⟩, fun hex => ?_⟩
  obtain ⟨cs, hcs⟩ := hex
  exact absurd hcs.le_one_of_divided (by decide)

end ZoneGrid

end Egress
