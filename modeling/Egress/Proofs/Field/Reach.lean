import Egress.Proofs.Field.Descent
import Egress.Proofs.Field.Solve

/-!
# What a front reaches

A path leads from a seed over neighbouring cells that can be entered. No cell that a path leads to
costs more than the path, so the front reaches it. Back from a cell that has been reached cheaper
and cheaper neighbours lead to a seed, which makes a path.
-/
namespace Egress.ZoneGrid
open Exact

variable {g : ZoneGrid Exact} {speed : Lattice Exact} {seeds : List Cell} {T : Lattice Exact}
  {c : Cell} {cs : List Cell}

/-- What holds of the seeds, and of every other cell as soon as it holds of the cheaper ones beside
it, holds of all cells of finite cost. -/
theorem IsArrival.induction (hT : g.IsArrival speed seeds T) {P : Cell → Prop}
    (hseeds : ∀ c ∈ seeds, P c)
    (hstep : ∀ c, c ∉ seeds → g.Enterable speed c → costs T c ≠ ⊤ →
      (∀ n ∈ g.grid.neighbours c, costs T n < costs T c → P n) → P c)
    (hc : costs T c ≠ ⊤) : P c := by
  -- on the number of cells that cost less
  induction hcard : (below g T c).card using Nat.strong_induction_on generalizing c with
  | _ k ih =>
    by_cases hseed : c ∈ seeds
    · exact hseeds c hseed
    · refine hstep c hseed (hT.enterable hc hseed) hc fun n hn hlt => ?_
      have hfewer := card_below_lt (RectGrid.contains_of_mem_neighbours hn) hlt
      exact ih _ (hcard ▸ hfewer) hlt.ne_top rfl

theorem IsArrival.nonneg (hm : g.Measured speed) (hT : g.IsArrival speed seeds T) (c : Cell) :
    0 ≤ costs T c := by
  by_cases hc : costs T c = ⊤
  · rw [hc]
    exact le_top
  · refine hT.induction (P := fun c => 0 ≤ costs T c) (fun c hc => (hT.costs_seed hc).ge) ?_ hc
    intro c hseed _ hc ih
    obtain ⟨n, hn, hlt⟩ := hT.exists_lower hm hc hseed
    exact (ih n hn hlt).trans hlt.le

/-- The costs below a level, all others being infinite. -/
noncomputable def costsBelow (T : Lattice Exact) (u : WithTop ℝ) (c : Cell) : WithTop ℝ :=
  if costs T c < u then costs T c else ⊤

lemma le_costsBelow {z u : WithTop ℝ} (h : costs T c < u → z ≤ costs T c) :
    z ≤ costsBelow T u c := by
  unfold costsBelow
  split
  · exact h ‹_›
  · exact le_top

/-- A cell does not see neighbours that are no cheaper than itself. -/
theorem IsArrival.arrival_costsBelow (hm : g.Measured speed) (hT : g.IsArrival speed seeds T)
    (hseed : c ∉ seeds) (hent : g.Enterable speed c) :
    arrival g.grid (costsBelow T (costs T c)) c (g.crossing speed c) = costs T c := by
  refine arrival_congr (hm.crossing_spec hent).2 (hT.costs_eq hm hseed hent).symm fun n _ => ?_
  unfold costsBelow
  split
  · exact .inl rfl
  · rename_i hn
    exact .inr ⟨not_lt.1 hn, le_top⟩

/-- The paths from a seed to `c`, given by the cells that they enter, the latest first. The seed
itself is not entered, and need not be free. -/
inductive IsPath (g : ZoneGrid Exact) (speed : Lattice Exact) (seeds : List Cell) :
    Cell → List Cell → Prop
  | seed {c : Cell} : c ∈ seeds → IsPath g speed seeds c []
  | step {c n : Cell} {cs : List Cell} : IsPath g speed seeds c cs → n ∈ g.grid.neighbours c →
      g.Enterable speed n → IsPath g speed seeds n (n :: cs)

/-- What it costs to cross the cells that a path enters, one after the other. -/
noncomputable def pathCost (g : ZoneGrid Exact) (speed : Lattice Exact) (cs : List Cell) : ℝ :=
  (cs.map (g.crossing speed)).sum

@[simp] theorem pathCost_nil : g.pathCost speed [] = 0 := rfl

@[simp] theorem pathCost_cons :
    g.pathCost speed (c :: cs) = g.crossing speed c + g.pathCost speed cs := List.sum_cons

lemma IsPath.enterable_of_mem (h : g.IsPath speed seeds c cs) {n : Cell} (hn : n ∈ cs) :
    g.Enterable speed n := by
  induction h with
  | seed => cases hn
  | step _ _ hent ih =>
    rcases List.mem_cons.1 hn with rfl | hn
    · exact hent
    · exact ih hn

lemma IsPath.pathCost_nonneg (hm : g.Measured speed) (h : g.IsPath speed seeds c cs) :
    0 ≤ g.pathCost speed cs := by
  refine List.sum_nonneg fun x hx => ?_
  obtain ⟨n, hn, rfl⟩ := List.mem_map.1 hx
  exact (hm.crossing_spec (h.enterable_of_mem hn)).2.le

lemma IsPath.enter {n : Cell} (h : g.IsPath speed seeds n cs) (hn : n ∈ g.grid.neighbours c)
    (hc : g.Enterable speed c) : g.IsPath speed seeds c (c :: cs) :=
  h.step (RectGrid.mem_neighbours_comm hc.1 hn) hc

lemma IsPath.exists_seed (h : g.IsPath speed seeds c cs) : ∃ s, s ∈ seeds := by
  induction h with
  | seed hc => exact ⟨_, hc⟩
  | step _ _ _ ih => exact ih

lemma IsPath.contains (hseeds : ∀ c ∈ seeds, g.grid.contains c = true)
    (h : g.IsPath speed seeds c cs) : g.grid.contains c = true := by
  cases h with
  | seed hc => exact hseeds c hc
  | step _ _ hent => exact hent.1

theorem IsArrival.costs_le_pathCost (hm : g.Measured speed) (hT : g.IsArrival speed seeds T)
    (hseeds : ∀ c ∈ seeds, g.grid.contains c = true) (h : g.IsPath speed seeds c cs) :
    costs T c ≤ g.pathCost speed cs := by
  induction h with
  | seed hc => exact (hT.costs_seed hc).le
  | @step c n cs hpath hn hent ih =>
    by_cases hseed : n ∈ seeds
    · rw [hT.costs_seed hseed]
      exact WithTop.coe_nonneg.2 ((hpath.step hn hent).pathCost_nonneg hm)
    · have hback := RectGrid.mem_neighbours_comm (hpath.contains hseeds) hn
      calc costs T n = arrival g.grid (costs T) n (g.crossing speed n) :=
            hT.costs_eq hm hseed hent
        _ ≤ costs T c + g.crossing speed n := arrival_le_add (hm.crossing_spec hent).2 hback
        _ ≤ g.pathCost speed cs + g.crossing speed n := add_le_add_left ih _
        _ = g.pathCost speed (n :: cs) := by rw [pathCost_cons, add_comm, WithTop.coe_add]

/-- To a cell of finite cost leads a path over cheaper cells. -/
theorem IsArrival.exists_isPath (hm : g.Measured speed) (hT : g.IsArrival speed seeds T)
    (hc : costs T c ≠ ⊤) :
    ∃ cs, g.IsPath speed seeds c cs ∧ ∀ n ∈ cs, n = c ∨ costs T n < costs T c := by
  refine hT.induction (P := fun c => ∃ cs, g.IsPath speed seeds c cs ∧
    ∀ n ∈ cs, n = c ∨ costs T n < costs T c) (fun c hc => ⟨[], .seed hc, nofun⟩) ?_ hc
  intro c hseed hent hc ih
  obtain ⟨n, hn, hlt⟩ := hT.exists_lower hm hc hseed
  obtain ⟨cs, hcs, hcheaper⟩ := ih n hn hlt
  refine ⟨c :: cs, hcs.enter hn hent, fun m hm => ?_⟩
  rcases List.mem_cons.1 hm with rfl | hm
  · exact .inl rfl
  · rcases hcheaper m hm with rfl | hlt'
    · exact .inr hlt
    · exact .inr (hlt'.trans hlt)

theorem IsArrival.costs_ne_top_iff (hm : g.Measured speed) (hT : g.IsArrival speed seeds T)
    (hseeds : ∀ c ∈ seeds, g.grid.contains c = true) :
    costs T c ≠ ⊤ ↔ ∃ cs, g.IsPath speed seeds c cs := by
  constructor
  · intro hc
    obtain ⟨cs, hcs, -⟩ := hT.exists_isPath hm hc
    exact ⟨cs, hcs⟩
  · intro hex
    obtain ⟨cs, hcs⟩ := hex
    exact ((hT.costs_le_pathCost hm hseeds hcs).trans_lt (WithTop.coe_lt_top _)).ne

lemma IsArrival.isFinite_iff (hT : g.IsArrival speed seeds T) :
    Scalar.isFinite (T.getD c Scalar.infinity) = true ↔ costs T c ≠ ⊤ := by
  rw [hT.ofCost_costs, isFinite_ofCost]

lemma IsArrival.isFinite_iff_exists_isPath (hm : g.Measured speed)
    (hT : g.IsArrival speed seeds T) (hseeds : ∀ c ∈ seeds, g.grid.contains c = true) :
    Scalar.isFinite (T.getD c Scalar.infinity) = true ↔ ∃ cs, g.IsPath speed seeds c cs :=
  hT.isFinite_iff.trans (hT.costs_ne_top_iff hm hseeds)

lemma getD_evenSpeed (hc : g.grid.contains c = true) : g.evenSpeed.getD c 0 = 1 :=
  Lattice.getD_constant_of_lt _ _ (RectGrid.contains_iff.1 hc)

theorem measured_evenSpeed (hpos : 0 < g.grid.cellSize)
    (hfin : Scalar.isFinite g.grid.cellSize = true) : g.Measured g.evenSpeed := by
  refine ⟨hpos, hfin, fun c hc => ?_⟩
  rw [getD_evenSpeed hc, one_eq]
  exact real_ne_posInf 1

lemma enterable_evenSpeed (hc : g.grid.contains c = true) (hfree : g.isPassable c = true) :
    g.Enterable g.evenSpeed c := by
  refine ⟨hc, hfree, ?_⟩
  rw [getD_evenSpeed hc]
  exact zero_lt_one

lemma crossing_evenSpeed {h : ℝ} (hsize : g.grid.cellSize = real h)
    (hc : g.grid.contains c = true) : g.crossing g.evenSpeed c = h := by
  rw [crossing, getD_evenSpeed hc, hsize, one_eq, real_div_real h one_ne_zero, toReal_real, div_one]

/-- At speed one a path goes on to any free cell beside it. -/
lemma IsPath.stepFree {n : Cell} (h : g.IsPath g.evenSpeed seeds c cs)
    (hn : n ∈ g.grid.neighbours c) (hfree : g.isPassable n = true) :
    g.IsPath g.evenSpeed seeds n (n :: cs) :=
  h.step hn (enterable_evenSpeed (RectGrid.contains_of_mem_neighbours hn) hfree)

/-- The front reaches exactly the cells that a path leads to. All others are left infinite, those
that are neither free nor seeds among them. -/
theorem solve_reaches (hm : g.Measured speed) (hseeds : ∀ c ∈ seeds, g.grid.contains c = true) :
    (∀ c, Scalar.isFinite ((g.solve speed seeds).getD c Scalar.infinity) = true ↔
      ∃ cs, g.IsPath speed seeds c cs) ∧
    (∀ c, (¬∃ cs, g.IsPath speed seeds c cs) →
      (g.solve speed seeds).getD c Scalar.infinity = Scalar.infinity) ∧
    ∀ c, c ∉ seeds → g.isPassable c = false →
      (g.solve speed seeds).getD c Scalar.infinity = Scalar.infinity := by
  have hT := isArrival_solve hm hseeds
  have hinfinite {c : Cell} (hc : ¬∃ cs, g.IsPath speed seeds c cs) :
      (g.solve speed seeds).getD c Scalar.infinity = Scalar.infinity := by
    have htop := not_not.1 (mt (hT.costs_ne_top_iff hm hseeds).1 hc)
    rw [hT.ofCost_costs, htop]
    rfl
  refine ⟨fun c => hT.isFinite_iff_exists_isPath hm hseeds, fun c => hinfinite, ?_⟩
  intro c hseed hwall
  refine hinfinite fun hex => ?_
  obtain ⟨cs, hcs⟩ := hex
  cases hcs with
  | seed hc => exact hseed hc
  | step _ _ hent =>
    rw [hent.2.1] at hwall
    cases hwall

/-- Three free cells in a row, the last of them behind a wall. -/
noncomputable def divided : ZoneGrid Exact where
  zone := .room 0
  grid := ⟨⟨0, 0⟩, 1, 4, 1⟩
  cells := .ofFn 4 1 fun c => if c.1 = 2 then .wall else .inside
  targets := .empty

lemma measured_divided : divided.Measured divided.evenSpeed :=
  measured_evenSpeed zero_lt_one (isFinite_iff.2 ⟨1, one_eq⟩)

lemma isPath_divided : divided.IsPath divided.evenSpeed [(0, 0)] (1, 0) [(1, 0)] :=
  (IsPath.seed (List.mem_singleton_self _)).stepFree (by decide) (by decide)

/-- No path from the first cell leads past the wall. -/
lemma IsPath.le_one_of_divided (h : divided.IsPath divided.evenSpeed [(0, 0)] c cs) :
    c.1 ≤ 1 := by
  induction h with
  | seed hc =>
    rw [List.mem_singleton.1 hc]
    exact Nat.zero_le 1
  | @step c n cs _ hn hent ih =>
    obtain ⟨hgrid, hbeside⟩ := RectGrid.mem_neighbours_iff.1 hn
    have hrow : n.2 < 1 := (RectGrid.contains_iff.1 hgrid).2
    have hwall : n.1 ≠ 2 := by
      intro h2
      have hplace : n = (2, 0) := Prod.ext h2 (by omega)
      have hfree := hent.2.1
      rw [hplace] at hfree
      exact absurd hfree (by decide)
    omega

/-- From the first of the three cells the front comes to the second, and neither into the wall nor
to the free cell behind it. -/
theorem solve_reaches_divided : divided.Measured divided.evenSpeed ∧
    (∀ c ∈ [((0, 0) : Cell)], divided.grid.contains c = true) ∧
    Scalar.isFinite ((divided.solve divided.evenSpeed [(0, 0)]).getD (1, 0) Scalar.infinity) =
      true ∧
    (divided.solve divided.evenSpeed [(0, 0)]).getD (2, 0) Scalar.infinity = Scalar.infinity ∧
    divided.isPassable (3, 0) = true ∧
    (divided.solve divided.evenSpeed [(0, 0)]).getD (3, 0) Scalar.infinity = Scalar.infinity := by
  have hseeds : ∀ c ∈ [((0, 0) : Cell)], divided.grid.contains c = true := by decide
  obtain ⟨hreached, hleft, hwall⟩ := solve_reaches measured_divided hseeds
  refine ⟨measured_divided, hseeds, (hreached (1, 0)).2 ⟨_, isPath_divided⟩, ?_, by decide, ?_⟩
  · exact hwall (2, 0) (by decide) (by decide)
  · refine hleft (3, 0) fun hex => ?_
    obtain ⟨cs, hcs⟩ := hex
    exact absurd hcs.le_one_of_divided (by decide)

end Egress.ZoneGrid
