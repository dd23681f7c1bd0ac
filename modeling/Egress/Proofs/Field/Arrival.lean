import Egress.Field.Descent
import Egress.Proofs.Field.Upwind
import Egress.Proofs.Grid.Rect
import Egress.Proofs.Lattice

/-!
# Arrival fields

A field of costs on a grid is an arrival field if it is zero at the seeds, infinite at all other
cells that cannot be entered, and everywhere else the upwind update of its own values at the four
neighbours. Such a field is determined by its grid, its speeds and its seeds: at a cell where two
of them differ and whose smaller value is least, both see the same lower neighbours.
-/
namespace Egress
open Exact

/-- The cost at a side of a cell, infinite beyond the grid. -/
noncomputable def beside (g : RectGrid Exact) (T : Cell → WithTop ℝ) (c : Cell) (d : Int × Int) :
    WithTop ℝ :=
  ((g.offset? c d.1 d.2).map T).getD ⊤

/-- The update from the costs of its neighbours of a cell that it takes `s` to cross. -/
noncomputable def arrival (g : RectGrid Exact) (T : Cell → WithTop ℝ) (c : Cell) (s : ℝ) :
    WithTop ℝ :=
  Upwind.update (min (beside g T c (-1, 0)) (beside g T c (1, 0)))
    (min (beside g T c (0, -1)) (beside g T c (0, 1))) s

namespace ZoneGrid

/-- True of the cells that a front can enter: free cells with a positive speed. -/
def Enterable (g : ZoneGrid Exact) (speed : Lattice Exact) (c : Cell) : Prop :=
  g.grid.contains c = true ∧ g.isPassable c = true ∧ 0 < speed.getD c 0

/-- The cells of the grid have a positive size, and no cell is crossed in no time. -/
structure Measured (g : ZoneGrid Exact) (speed : Lattice Exact) : Prop where
  cellSize_pos : 0 < g.grid.cellSize
  cellSize_finite : Scalar.isFinite g.grid.cellSize = true
  speed_ne_infinity : ∀ c, g.grid.contains c = true → speed.getD c 0 ≠ Scalar.infinity

/-- Cost of crossing a cell along an axis. -/
noncomputable def crossing (g : ZoneGrid Exact) (speed : Lattice Exact) (c : Cell) : ℝ :=
  toReal (g.grid.cellSize / speed.getD c 0)

/-- The fields of travel costs from the seeds. -/
structure IsArrival (g : ZoneGrid Exact) (speed : Lattice Exact) (seeds : List Cell)
    (T : Lattice Exact) : Prop where
  width_eq : T.width = g.grid.width
  height_eq : T.height = g.grid.height
  /-- Every value is a real number or infinite. -/
  isCost : ∀ c, g.grid.contains c = true → (T.getD c Scalar.infinity).IsCost
  seed : ∀ c ∈ seeds, T.getD c Scalar.infinity = 0
  blocked : ∀ c, g.grid.contains c = true → c ∉ seeds → ¬g.Enterable speed c →
    T.getD c Scalar.infinity = Scalar.infinity
  update : ∀ c, c ∉ seeds → g.Enterable speed c → T.getD c Scalar.infinity =
    upwind (Scalar.smaller (g.costAt T c (-1) 0) (g.costAt T c 1 0))
      (Scalar.smaller (g.costAt T c 0 (-1)) (g.costAt T c 0 1))
      (g.grid.cellSize / speed.getD c 0)

end ZoneGrid

section
variable {g : RectGrid Exact} {T T' : Cell → WithTop ℝ} {c n : Cell} {s : ℝ}

/-- What holds at all neighbours and of the infinite cost holds at every side. -/
lemma beside_induction (P : WithTop ℝ → WithTop ℝ → Prop) (htop : P ⊤ ⊤)
    (h : ∀ n ∈ g.neighbours c, P (T n) (T' n)) {d : Int × Int} (hd : d ∈ RectGrid.sides) :
    P (beside g T c d) (beside g T' c d) := by
  unfold beside
  cases hn : g.offset? c d.1 d.2 with
  | none => exact htop
  | some n => exact h n (RectGrid.mem_neighbours_of_offset? hd hn)

theorem arrival_mono (hs : 0 < s) (h : ∀ n ∈ g.neighbours c, T n ≤ T' n) :
    arrival g T c s ≤ arrival g T' c s := by
  have side {d : Int × Int} (hd : d ∈ RectGrid.sides) : beside g T c d ≤ beside g T' c d :=
    beside_induction (· ≤ ·) le_rfl h hd
  exact Upwind.update_mono hs
    (min_le_min (side (by decide)) (side (by decide)))
    (min_le_min (side (by decide)) (side (by decide)))

theorem arrival_mono_step {s' : ℝ} (hs : 0 < s) (h : s ≤ s') :
    arrival g T c s ≤ arrival g T c s' :=
  Upwind.update_mono_step _ _ hs h

/-- The least of pairs of costs that agree below `u` agree below `u`. -/
lemma min_agree {a a' b b' u : WithTop ℝ} (ha : a = a' ∨ u ≤ a ∧ u ≤ a')
    (hb : b = b' ∨ u ≤ b ∧ u ≤ b') :
    min a b = min a' b' ∨ u ≤ min a b ∧ u ≤ min a' b' := by
  rcases ha with rfl | ⟨ha, ha'⟩ <;> rcases hb with rfl | ⟨hb, hb'⟩
  · exact .inl rfl
  · rcases le_total u a with h | h
    · exact .inr ⟨le_min h hb, le_min h hb'⟩
    · exact .inl (by rw [min_eq_left (h.trans hb), min_eq_left (h.trans hb')])
  · rcases le_total u b with h | h
    · exact .inr ⟨le_min ha h, le_min ha' h⟩
    · exact .inl (by rw [min_eq_right (h.trans ha), min_eq_right (h.trans ha')])
  · exact .inr ⟨le_min ha hb, le_min ha' hb'⟩

/-- The update does not see neighbours that are not below it. -/
theorem arrival_congr {u : WithTop ℝ} (hs : 0 < s) (hu : arrival g T c s = u)
    (h : ∀ n ∈ g.neighbours c, T n = T' n ∨ u ≤ T n ∧ u ≤ T' n) : arrival g T' c s = u := by
  have side {d : Int × Int} (hd : d ∈ RectGrid.sides) :
      beside g T c d = beside g T' c d ∨ u ≤ beside g T c d ∧ u ≤ beside g T' c d :=
    beside_induction (fun a b => a = b ∨ u ≤ a ∧ u ≤ b) (.inl rfl) h hd
  exact Upwind.update_congr hs hu
    (min_agree (side (by decide)) (side (by decide)))
    (min_agree (side (by decide)) (side (by decide)))

lemma le_beside {z : WithTop ℝ} {d : Int × Int}
    (h : ∀ n, g.offset? c d.1 d.2 = some n → z ≤ T n) : z ≤ beside g T c d := by
  unfold beside
  cases hn : g.offset? c d.1 d.2 with
  | none => exact le_top
  | some n => exact h n hn

theorem le_arrival {z : WithTop ℝ} (hs : 0 < s) (h : ∀ n ∈ g.neighbours c, z ≤ T n) :
    z ≤ arrival g T c s := by
  have side {d : Int × Int} (hd : d ∈ RectGrid.sides) : z ≤ beside g T c d :=
    le_beside fun n hn => h n (RectGrid.mem_neighbours_of_offset? hd hn)
  refine le_trans ?_ (Upwind.min_le_update _ _ hs)
  exact le_min (le_min (side (by decide)) (side (by decide)))
    (le_min (side (by decide)) (side (by decide)))

/-- The least cost at a side of a cell. -/
noncomputable def lowest (g : RectGrid Exact) (T : Cell → WithTop ℝ) (c : Cell) : WithTop ℝ :=
  min (min (beside g T c (-1, 0)) (beside g T c (1, 0)))
    (min (beside g T c (0, -1)) (beside g T c (0, 1)))

lemma lowest_le (hn : n ∈ g.neighbours c) : lowest g T c ≤ T n := by
  obtain ⟨d, hd, hoff⟩ := RectGrid.exists_offset?_of_mem_neighbours hn
  have hbeside : T n = beside g T c d := by simp [beside, hoff]
  rw [hbeside, lowest]
  simp only [RectGrid.sides, List.mem_cons, List.not_mem_nil, or_false] at hd
  rcases hd with rfl | rfl | rfl | rfl <;> simp

lemma exists_eq_lowest (h : lowest g T c ≠ ⊤) : ∃ n ∈ g.neighbours c, T n = lowest g T c := by
  have side {d : Int × Int} (hd : d ∈ RectGrid.sides) (heq : lowest g T c = beside g T c d) :
      ∃ n ∈ g.neighbours c, T n = lowest g T c := by
    rw [heq] at h ⊢
    unfold beside at h ⊢
    cases hn : g.offset? c d.1 d.2 with
    | none => simp [hn] at h
    | some n => exact ⟨n, RectGrid.mem_neighbours_of_offset? hd hn, rfl⟩
  rcases min_choice (min (beside g T c (-1, 0)) (beside g T c (1, 0)))
    (min (beside g T c (0, -1)) (beside g T c (0, 1))) with hx | hy
  · rcases min_choice (beside g T c (-1, 0)) (beside g T c (1, 0)) with hx' | hx'
    · exact side (by decide) (hx.trans hx')
    · exact side (by decide) (hx.trans hx')
  · rcases min_choice (beside g T c (0, -1)) (beside g T c (0, 1)) with hy' | hy'
    · exact side (by decide) (hy.trans hy')
    · exact side (by decide) (hy.trans hy')

/-- A cell costs no more than to come to it straight from any neighbour. -/
theorem arrival_le_add (hs : 0 < s) (hn : n ∈ g.neighbours c) : arrival g T c s ≤ T n + s :=
  (Upwind.update_le_add _ _ hs).trans (add_le_add_left (lowest_le hn) _)

/-- A finite update lies above the lowest neighbour, by at least `s / √2`. -/
theorem exists_neighbour_between {u : ℝ} (hs : 0 < s) (hu : arrival g T c s = u) :
    ∃ n ∈ g.neighbours c, ∃ m : ℝ, T n = m ∧ m < u ∧ s ≤ √2 * (u - m) := by
  obtain ⟨m, hm, hlt, -, hle⟩ := Upwind.update_between hs hu
  have hlowest : lowest g T c = m := hm
  obtain ⟨n, hn, heq⟩ := exists_eq_lowest (hlowest.trans_ne WithTop.coe_ne_top)
  exact ⟨n, hn, m, heq.trans hlowest, hlt, hle⟩

theorem exists_neighbour_lt (hs : 0 < s) (h : arrival g T c s ≠ ⊤) :
    ∃ n ∈ g.neighbours c, T n < arrival g T c s := by
  obtain ⟨u, hu⟩ := WithTop.ne_top_iff_exists.1 h
  obtain ⟨n, hn, m, hm, hlt, -⟩ := exists_neighbour_between hs hu.symm
  refine ⟨n, hn, ?_⟩
  rw [← hu, hm]
  exact WithTop.coe_lt_coe.2 hlt

end

namespace ZoneGrid

variable {g : ZoneGrid Exact} {speed : Lattice Exact} {seeds : List Cell}

/-- A cell that can be entered has a size and a speed, which give what it costs to cross. -/
lemma Measured.exists_crossing (hm : g.Measured speed) {c : Cell} (hc : g.Enterable speed c) :
    ∃ h v : ℝ, 0 < h ∧ 0 < v ∧ g.grid.cellSize = real h ∧ speed.getD c 0 = real v ∧
      g.crossing speed c = h / v := by
  obtain ⟨h, hh⟩ := isFinite_iff.1 hm.cellSize_finite
  obtain ⟨v, hv, hvpos⟩ := exists_real_of_pos hc.2.2 (hm.speed_ne_infinity c hc.1)
  have hhpos : 0 < h := by simpa [hh, zero_eq] using hm.cellSize_pos
  refine ⟨h, v, hhpos, hvpos, hh, hv, ?_⟩
  rw [crossing, hh, hv, real_div_real h hvpos.ne', toReal_real]

theorem Measured.crossing_spec (hm : g.Measured speed) {c : Cell} (hc : g.Enterable speed c) :
    g.grid.cellSize / speed.getD c 0 = real (g.crossing speed c) ∧ 0 < g.crossing speed c := by
  obtain ⟨h, v, hh, hv, hsize, hspeed, hcrossing⟩ := hm.exists_crossing hc
  rw [hcrossing, hsize, hspeed]
  exact ⟨real_div_real h hv.ne', div_pos hh hv⟩

noncomputable def costs (T : Lattice Exact) (c : Cell) : WithTop ℝ :=
  toCost (T.getD c Scalar.infinity)

lemma costAt_eq {T : Lattice Exact}
    (hT : ∀ c, g.grid.contains c = true → (T.getD c Scalar.infinity).IsCost) (c : Cell)
    (di dj : Int) : g.costAt T c di dj = ofCost (beside g.grid (costs T) c (di, dj)) := by
  unfold costAt beside
  cases hn : g.grid.offset? c di dj with
  | none => rfl
  | some n => exact (hT n (RectGrid.offset?_eq_some_iff.1 hn).2.2).symm

/-- The upwind update of the values around a cell, in terms of costs. -/
lemma upwind_costAt (hm : g.Measured speed) {T : Lattice Exact}
    (hT : ∀ c, g.grid.contains c = true → (T.getD c Scalar.infinity).IsCost) {c : Cell}
    (hc : g.Enterable speed c) :
    upwind (Scalar.smaller (g.costAt T c (-1) 0) (g.costAt T c 1 0))
        (Scalar.smaller (g.costAt T c 0 (-1)) (g.costAt T c 0 1))
        (g.grid.cellSize / speed.getD c 0) =
      ofCost (arrival g.grid (costs T) c (g.crossing speed c)) := by
  obtain ⟨hs, hpos⟩ := hm.crossing_spec hc
  simp only [costAt_eq hT, smaller_ofCost, hs]
  exact Upwind.upwind_ofCost _ _ hpos

theorem IsArrival.costs_eq (hm : g.Measured speed) {T : Lattice Exact}
    (hT : g.IsArrival speed seeds T) {c : Cell} (hseed : c ∉ seeds) (hc : g.Enterable speed c) :
    costs T c = arrival g.grid (costs T) c (g.crossing speed c) := by
  rw [costs, hT.update c hseed hc, upwind_costAt hm hT.isCost hc, toCost_ofCost]

theorem IsArrival.congr_seeds {seeds' : List Cell} (h : ∀ c, c ∈ seeds' ↔ c ∈ seeds)
    {T : Lattice Exact} (hT : g.IsArrival speed seeds' T) : g.IsArrival speed seeds T where
  width_eq := hT.width_eq
  height_eq := hT.height_eq
  isCost := hT.isCost
  seed c hc := hT.seed c ((h c).2 hc)
  blocked c hc hseed := hT.blocked c hc fun h' => hseed ((h c).1 h')
  update c hseed := hT.update c fun h' => hseed ((h c).1 h')

/-- At cells where two arrival fields agree on all smaller costs they agree. -/
lemma IsArrival.costs_eq_of_agree (hm : g.Measured speed) {T T' : Lattice Exact}
    (hT : g.IsArrival speed seeds T) (hT' : g.IsArrival speed seeds T') {c : Cell}
    (hc : g.grid.contains c = true)
    (h : ∀ n ∈ g.grid.neighbours c,
      costs T n = costs T' n ∨ costs T c ≤ costs T n ∧ costs T c ≤ costs T' n) :
    costs T' c = costs T c := by
  by_cases hseed : c ∈ seeds
  · rw [costs, costs, hT.seed c hseed, hT'.seed c hseed]
  · by_cases hent : g.Enterable speed c
    · rw [hT'.costs_eq hm hseed hent]
      exact arrival_congr (hm.crossing_spec hent).2 (hT.costs_eq hm hseed hent).symm h
    · rw [costs, costs, hT.blocked c hc hseed hent, hT'.blocked c hc hseed hent]

theorem IsArrival.unique (hm : g.Measured speed) {T T' : Lattice Exact}
    (hT : g.IsArrival speed seeds T) (hT' : g.IsArrival speed seeds T') : T = T' := by
  have hagree : ∀ c, g.grid.contains c = true → costs T c = costs T' c := by
    by_contra hne
    push Not at hne
    obtain ⟨c₀, hc₀, hne₀⟩ := hne
    let differ : Finset Cell :=
      {c ∈ Finset.range g.grid.width ×ˢ Finset.range g.grid.height | costs T c ≠ costs T' c}
    have hmem {c : Cell} : c ∈ differ ↔ g.grid.contains c = true ∧ costs T c ≠ costs T' c := by
      simp [differ, RectGrid.contains_iff]
    -- The least cost at which the two fields differ comes from costs at which they do not.
    obtain ⟨c, hc, hmin⟩ := differ.exists_min_image (fun c => min (costs T c) (costs T' c))
      ⟨c₀, hmem.2 ⟨hc₀, hne₀⟩⟩
    obtain ⟨hcg, hne⟩ := hmem.1 hc
    have hbelow {u : WithTop ℝ} (hu : u ≤ min (costs T c) (costs T' c)) (n : Cell)
        (hn : n ∈ g.grid.neighbours c) :
        costs T n = costs T' n ∨ u ≤ costs T n ∧ u ≤ costs T' n := by
      by_cases heq : costs T n = costs T' n
      · exact .inl heq
      · have hle := hmin n (hmem.2 ⟨RectGrid.contains_of_mem_neighbours hn, heq⟩)
        exact .inr (le_min_iff.1 (hu.trans hle))
    rcases le_total (costs T c) (costs T' c) with hle | hle
    · exact hne (hT.costs_eq_of_agree hm hT' hcg
        (hbelow (min_eq_left hle).ge)).symm
    · refine hne (hT'.costs_eq_of_agree hm hT hcg fun n hn => ?_)
      rcases hbelow (min_eq_right hle).ge n hn with h | ⟨h, h'⟩
      · exact .inl h.symm
      · exact .inr ⟨h', h⟩
  refine Lattice.ext_getD Scalar.infinity (hT.width_eq.trans hT'.width_eq.symm)
    (hT.height_eq.trans hT'.height_eq.symm) fun c hc => ?_
  have hcg : g.grid.contains c = true :=
    RectGrid.contains_iff.2 ⟨hT.width_eq ▸ hc.1, hT.height_eq ▸ hc.2⟩
  rw [← hT.isCost c hcg, ← hT'.isCost c hcg]
  exact congrArg ofCost (hagree c hcg)

end ZoneGrid

end Egress
