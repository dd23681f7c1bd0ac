import Egress.Proofs.Field.Reach

/-!
# Fronts that have it no harder

A front has it no harder than another one on a grid of the same shape if it can go wherever the
other can, is nowhere slower, and starts from all of its seeds. It then charges nowhere more. The
proof goes along the costs of the other front: a cell does not see neighbours that are not cheaper
than itself, and at the cheaper ones the claim holds already.
-/
namespace Egress.ZoneGrid
open Exact

variable {g g' : ZoneGrid Exact} {speed speed' : Lattice Exact} {seeds seeds' : List Cell}
  {T T' : Lattice Exact} {c : Cell}

/-- On a grid of the same shape with cells no larger, the second front can go wherever the first
can, is nowhere slower there, and starts from all seeds of the first. -/
structure NoHarder (g : ZoneGrid Exact) (speed : Lattice Exact) (seeds : List Cell)
    (g' : ZoneGrid Exact) (speed' : Lattice Exact) (seeds' : List Cell) : Prop where
  width_eq : g'.grid.width = g.grid.width
  height_eq : g'.grid.height = g.grid.height
  cellSize_le : g'.grid.cellSize ≤ g.grid.cellSize
  passable : ∀ c, g.isPassable c = true → g'.isPassable c = true
  speed_le : ∀ c, g.Enterable speed c → speed.getD c 0 ≤ speed'.getD c 0
  seed : ∀ c ∈ seeds, c ∈ seeds'

namespace NoHarder

theorem enterable (h : NoHarder g speed seeds g' speed' seeds') (hc : g.Enterable speed c) :
    g'.Enterable speed' c := by
  refine ⟨?_, h.passable c hc.2.1, Exact.lt_of_lt_of_le hc.2.2 (h.speed_le c hc)⟩
  rw [RectGrid.contains_iff, h.width_eq, h.height_eq]
  exact RectGrid.contains_iff.1 hc.1

theorem crossing_le (h : NoHarder g speed seeds g' speed' seeds') (hm : g.Measured speed)
    (hm' : g'.Measured speed') (hc : g.Enterable speed c) :
    g'.crossing speed' c ≤ g.crossing speed c := by
  obtain ⟨k, v, hk, hv, hsize, hspeed, hcrossing⟩ := hm.exists_crossing hc
  obtain ⟨k', v', hk', hv', hsize', hspeed', hcrossing'⟩ := hm'.exists_crossing (h.enterable hc)
  have hsizes := h.cellSize_le
  rw [hsize, hsize', real_le_real] at hsizes
  have hspeeds := h.speed_le c hc
  rw [hspeed, hspeed', real_le_real] at hspeeds
  rw [hcrossing, hcrossing']
  exact div_le_div₀ hk.le hsizes hv hspeeds

theorem arrival_eq (h : NoHarder g speed seeds g' speed' seeds') (F : Cell → WithTop ℝ) (c : Cell)
    (s : ℝ) : arrival g'.grid F c s = arrival g.grid F c s := by
  have hoffset (di dj : Int) : g'.grid.offset? c di dj = g.grid.offset? c di dj := by
    simp only [RectGrid.offset?, h.width_eq, h.height_eq]
  simp only [arrival, beside, hoffset]

/-- A front that has it no harder charges nowhere more. -/
theorem costs_le (h : NoHarder g speed seeds g' speed' seeds') (hm : g.Measured speed)
    (hm' : g'.Measured speed') (hT : g.IsArrival speed seeds T)
    (hT' : g'.IsArrival speed' seeds' T') (c : Cell) : costs T' c ≤ costs T c := by
  by_cases hc : costs T c = ⊤
  · rw [hc]
    exact le_top
  · refine hT.induction (P := fun c => costs T' c ≤ costs T c) ?_ ?_ hc
    · intro c hseed
      rw [hT.costs_seed hseed, hT'.costs_seed (h.seed c hseed)]
    · intro c hseed hent _ ih
      by_cases hseed' : c ∈ seeds'
      · rw [hT'.costs_seed hseed']
        exact hT.nonneg hm c
      · have hent' := h.enterable hent
        calc costs T' c
            = arrival g.grid (costs T') c (g'.crossing speed' c) := by
              rw [hT'.costs_eq hm' hseed' hent', h.arrival_eq]
          _ ≤ arrival g.grid (costsBelow T (costs T c)) c (g'.crossing speed' c) := by
              refine arrival_mono (hm'.crossing_spec hent').2 fun n hn => ?_
              exact le_costsBelow (ih n hn)
          _ ≤ arrival g.grid (costsBelow T (costs T c)) c (g.crossing speed c) :=
              arrival_mono_step (hm'.crossing_spec hent').2 (h.crossing_le hm hm' hent)
          _ = costs T c := hT.arrival_costsBelow hm hseed hent

end NoHarder

/-- Making walls free, raising speeds and starting from more seeds makes no cell costlier. -/
theorem solve_mono (h : NoHarder g speed seeds g' speed' seeds') (hm : g.Measured speed)
    (hm' : g'.Measured speed') (hseeds : ∀ c ∈ seeds, g.grid.contains c = true)
    (hseeds' : ∀ c ∈ seeds', g'.grid.contains c = true) (c : Cell) :
    (g'.solve speed' seeds').getD c Scalar.infinity ≤
      (g.solve speed seeds).getD c Scalar.infinity := by
  have hT := isArrival_solve hm hseeds
  have hT' := isArrival_solve hm' hseeds'
  rw [hT.ofCost_costs, hT'.ofCost_costs, ofCost_le_ofCost]
  exact h.costs_le hm hm' hT hT' c

/-- The four cells of `divided` without the wall. -/
noncomputable def undivided : ZoneGrid Exact := { divided with cells := .constant 4 1 .inside }

/-- Without the wall, at twice the speed and with a second seed, the second cell is no costlier. -/
theorem solve_mono_undivided :
    NoHarder divided divided.evenSpeed [(0, 0)]
      undivided (.constant 4 1 (real 2)) [(3, 0), (0, 0)] ∧
    divided.Measured divided.evenSpeed ∧ undivided.Measured (.constant 4 1 (real 2)) ∧
    (∀ c ∈ [((0, 0) : Cell)], divided.grid.contains c = true) ∧
    (∀ c ∈ [((3, 0) : Cell), (0, 0)], undivided.grid.contains c = true) ∧
    Scalar.isFinite ((divided.solve divided.evenSpeed [(0, 0)]).getD (1, 0) Scalar.infinity) =
      true ∧
    (undivided.solve (.constant 4 1 (real 2)) [(3, 0), (0, 0)]).getD (1, 0) Scalar.infinity ≤
      (divided.solve divided.evenSpeed [(0, 0)]).getD (1, 0) Scalar.infinity := by
  have hfast {c : Cell} (hc : c.1 < 4 ∧ c.2 < 1) :
      (Lattice.constant 4 1 (real 2)).getD c 0 = real 2 := Lattice.getD_constant_of_lt _ _ hc
  have hgrid : ∀ c ∈ [((0, 0) : Cell)], divided.grid.contains c = true := by decide
  have hgrid' : ∀ c ∈ [((3, 0) : Cell), (0, 0)], undivided.grid.contains c = true := by decide
  have hm' : undivided.Measured (.constant 4 1 (real 2)) := by
    refine ⟨Exact.zero_lt_one, isFinite_iff.2 ⟨1, one_eq⟩, fun c hc => ?_⟩
    rw [hfast (RectGrid.contains_iff.1 hc)]
    exact real_ne_posInf 2
  have hharder : NoHarder divided divided.evenSpeed [(0, 0)]
      undivided (.constant 4 1 (real 2)) [(3, 0), (0, 0)] := by
    refine ⟨rfl, rfl, le_self_of_isFinite (isFinite_iff.2 ⟨1, one_eq⟩), fun c hc => ?_,
      fun c hc => ?_, by simp⟩
    · have hin : divided.cells.Has c := by
        by_contra hout
        rw [isPassable, kind, Lattice.getD_of_not_has _ hout] at hc
        cases hc
      have hkind : undivided.kind c = .inside := Lattice.getD_constant_of_lt _ _ hin
      rw [isPassable, hkind]
      rfl
    · rw [getD_evenSpeed hc.1, hfast (RectGrid.contains_iff.1 hc.1), one_eq, real_le_real]
      exact one_le_two
  refine ⟨hharder, measured_divided, hm', hgrid, hgrid', ?_,
    solve_mono hharder measured_divided hm' hgrid hgrid' (1, 0)⟩
  exact ((isArrival_solve measured_divided hgrid).isFinite_iff_exists_isPath measured_divided
    hgrid).2 ⟨_, isPath_divided⟩

end Egress.ZoneGrid
