import Egress.Proofs.Field.Reach

/-!
# Costs of cells and costs of paths

A front goes straight from cell to cell or cuts corners, so that a cell costs at most as much as the
cheapest path to it. It saves nothing on a cell that it enters along an axis, and most on one that
it enters from two sides alike, which it then crosses along the diagonal. So the cheapest path costs
at most `√2` times as much.
-/
namespace Egress.ZoneGrid
open Exact

variable {g : ZoneGrid Exact} {speed : Lattice Exact} {seeds : List Cell} {T : Lattice Exact}
  {c : Cell} {cs : List Cell}

def pathCosts (g : ZoneGrid Exact) (speed : Lattice Exact) (seeds : List Cell) (c : Cell) :
    Set ℝ :=
  {d | ∃ cs, g.IsPath speed seeds c cs ∧ g.pathCost speed cs = d}

/-- There is a cheapest path to every cell to which a path leads: paths add up costs of the finitely
many cells of the grid. -/
theorem exists_isLeast_pathCosts (hm : g.Measured speed) (h : g.IsPath speed seeds c cs) :
    ∃ d, IsLeast (g.pathCosts speed seeds c) d := by
  let crossings : Set ℝ := g.crossing speed '' {n | g.Enterable speed n}
  have hfinite : crossings.Finite := by
    refine Set.Finite.image _ (Set.Finite.subset
      (Finset.range g.grid.width ×ˢ Finset.range g.grid.height).finite_toSet fun n hn => ?_)
    simpa using RectGrid.contains_iff.1 hn.1
  have hnonneg : ∀ x ∈ crossings, 0 ≤ x := by
    rintro x ⟨n, hn, rfl⟩
    exact (hm.crossing_spec hn).2.le
  have hsub : g.pathCosts speed seeds c ⊆ AddSubmonoid.closure crossings := by
    rintro d ⟨cs, hcs, rfl⟩
    refine AddSubmonoid.list_sum_mem _ fun x hx => ?_
    obtain ⟨n, hn, rfl⟩ := List.mem_map.1 hx
    exact AddSubmonoid.subset_closure ⟨n, hcs.enterable_of_mem hn, rfl⟩
  have hwf : (g.pathCosts speed seeds c).IsWF :=
    (hfinite.isPWO.addSubmonoid_closure hnonneg).isWF.mono hsub
  have hne : (g.pathCosts speed seeds c).Nonempty := ⟨_, cs, h, rfl⟩
  exact ⟨hwf.min hne, hwf.min_mem hne, fun d hd => hwf.min_le hne hd⟩

/-- Back along the cheapest neighbours a path leads to a cell that costs at most `√2` times as much
as the cell. -/
theorem IsArrival.exists_pathCost_le (hm : g.Measured speed) (hT : g.IsArrival speed seeds T)
    (hc : costs T c ≠ ⊤) : ∃ cs, g.IsPath speed seeds c cs ∧
      ∃ t : ℝ, costs T c = t ∧ g.pathCost speed cs ≤ √2 * t := by
  refine hT.induction (P := fun c => ∃ cs, g.IsPath speed seeds c cs ∧
    ∃ t : ℝ, costs T c = t ∧ g.pathCost speed cs ≤ √2 * t) ?_ ?_ hc
  · intro c hc
    exact ⟨[], .seed hc, 0, hT.costs_seed hc, by simp⟩
  · intro c hseed hent hc ih
    obtain ⟨t, ht⟩ := WithTop.ne_top_iff_exists.1 hc
    have harrival : arrival g.grid (costs T) c (g.crossing speed c) = t :=
      (hT.costs_eq hm hseed hent).symm.trans ht.symm
    obtain ⟨n, hn, m, hnm, hlt, hstep⟩ :=
      exists_neighbour_between (hm.crossing_spec hent).2 harrival
    have hlower : costs T n < costs T c := by
      rw [hnm, ← ht]
      exact WithTop.coe_lt_coe.2 hlt
    obtain ⟨cs, hcs, m', hm', hle⟩ := ih n hn hlower
    obtain rfl : m' = m := WithTop.coe_injective (hm'.symm.trans hnm)
    refine ⟨c :: cs, hcs.enter hn hent, t, ht.symm, ?_⟩
    calc g.pathCost speed (c :: cs)
        = g.crossing speed c + g.pathCost speed cs := pathCost_cons
      _ ≤ √2 * (t - m') + √2 * m' := add_le_add hstep hle
      _ = √2 * t := by ring

/-- What a front charges for a cell that it reaches lies between the cost of the cheapest path to it
and that cost divided by `√2`. -/
theorem solve_pathCosts (hm : g.Measured speed)
    (hseeds : ∀ c ∈ seeds, g.grid.contains c = true)
    (hc : Scalar.isFinite ((g.solve speed seeds).getD c Scalar.infinity) = true) :
    ∃ d t : ℝ, IsLeast (g.pathCosts speed seeds c) d ∧
      (g.solve speed seeds).getD c Scalar.infinity = real t ∧ d / √2 ≤ t ∧ t ≤ d := by
  have hT := isArrival_solve hm hseeds
  obtain ⟨cs, hcs, t, ht, hle⟩ := hT.exists_pathCost_le hm (hT.isFinite_iff.1 hc)
  obtain ⟨d, hd⟩ := exists_isLeast_pathCosts hm hcs
  refine ⟨d, t, hd, by rw [hT.ofCost_costs, ht, ofCost_coe], ?_, ?_⟩
  · have hroot : 0 < √2 := Real.sqrt_pos.2 two_pos
    rw [div_le_iff₀' hroot]
    exact (hd.2 ⟨cs, hcs, rfl⟩).trans hle
  · obtain ⟨cs', hcs', hcost⟩ := hd.1
    have hbound := hT.costs_le_pathCost hm hseeds hcs'
    rwa [ht, hcost, WithTop.coe_le_coe] at hbound

noncomputable def square : ZoneGrid Exact where
  zone := .room 0
  grid := ⟨⟨0, 0⟩, 1, 2, 2⟩
  cells := .constant 2 2 .inside
  targets := .empty

lemma measured_square : square.Measured square.evenSpeed :=
  measured_evenSpeed Exact.zero_lt_one (isFinite_iff.2 ⟨1, one_eq⟩)

lemma IsPath.pathCost_square (h : square.IsPath square.evenSpeed seeds c cs) :
    square.pathCost square.evenSpeed cs = cs.length := by
  have hone : ∀ x ∈ cs.map (square.crossing square.evenSpeed), x = 1 := by
    intro x hx
    obtain ⟨n, hn, rfl⟩ := List.mem_map.1 hx
    exact crossing_evenSpeed one_eq (h.enterable_of_mem hn).1
  rw [pathCost, List.sum_eq_card_nsmul _ 1 hone, List.length_map, nsmul_one]

/-- A path that sets out from the corner enters at least as many cells as it gets away from it. -/
lemma IsPath.le_length (h : g.IsPath speed [(0, 0)] c cs) : c.1 + c.2 ≤ cs.length := by
  induction h with
  | seed hc =>
    rw [List.mem_singleton.1 hc]
    exact Nat.zero_le _
  | step _ hn _ ih =>
    have hbeside := (RectGrid.mem_neighbours_iff.1 hn).2
    rw [List.length_cons]
    omega

/-- The cheapest path to the opposite corner enters two cells. The front comes there at a cost
between `√2` and two. -/
theorem solve_pathCosts_square : square.Measured square.evenSpeed ∧
    (∀ c ∈ [((0, 0) : Cell)], square.grid.contains c = true) ∧
    Scalar.isFinite ((square.solve square.evenSpeed [(0, 0)]).getD (1, 1) Scalar.infinity) =
      true ∧
    ∃ t : ℝ, (square.solve square.evenSpeed [(0, 0)]).getD (1, 1) Scalar.infinity = real t ∧
      √2 ≤ t ∧ t ≤ 2 := by
  have hgrid : ∀ c ∈ [((0, 0) : Cell)], square.grid.contains c = true := by decide
  have hpath : square.IsPath square.evenSpeed [(0, 0)] (1, 1) [(1, 1), (1, 0)] :=
    ((IsPath.seed (List.mem_singleton_self _)).step (by decide)
      (enterable_evenSpeed (by decide) (by decide))).step (by decide)
      (enterable_evenSpeed (by decide) (by decide))
  have hreached := ((isArrival_solve measured_square hgrid).isFinite_iff_exists_isPath
    measured_square hgrid).2 ⟨_, hpath⟩
  obtain ⟨d, t, hd, ht, hlow, hhigh⟩ := solve_pathCosts measured_square hgrid hreached
  have htwo : d = 2 := by
    obtain ⟨cs, hcs, hcost⟩ := hd.1
    refine le_antisymm (hd.2 ⟨_, hpath, ?_⟩) ?_
    · rw [hpath.pathCost_square]
      rfl
    · rw [← hcost, hcs.pathCost_square]
      exact_mod_cast hcs.le_length
  subst htwo
  rw [Real.div_sqrt] at hlow
  exact ⟨measured_square, hgrid, hreached, t, ht, hlow, hhigh⟩

end Egress.ZoneGrid
