import Egress.Field.Target
import Egress.Proofs.Field.Arrival

/-!
# The way down

In a downhill field every cell of finite cost has a cheaper neighbour unless its cost is zero. Such
a field has no traps: its directions are unit vectors towards cheaper cells, and steps to a cheapest
neighbour end at a cell of cost zero. Arrival fields are downhill, and remain so when free cells are
given the cost zero.
-/
namespace Egress
open Exact

/-- A slope is positive only towards a lower neighbour and negative only towards an upper one that
is cheaper, and zero only if neither of them is. -/
lemma slope_spec {h v : ℝ} (hh : 0 < h) (l u : WithTop ℝ) :
    ∃ s : ℝ, slope (real v) (ofCost l) (ofCost u) (real h) = real s ∧
      (0 < s → l < v) ∧ (s < 0 → u < v) ∧ (s = 0 → ¬l < v ∧ ¬u < v) := by
  have hv : real v = ofCost (v : WithTop ℝ) := rfl
  unfold slope
  rw [hv]
  simp only [ofCost_le_ofCost, ofCost_lt_ofCost]
  by_cases hl : l ≤ u ∧ l < v
  · rw [if_pos hl]
    obtain ⟨hlu, hlv⟩ := hl
    lift l to ℝ using hlv.ne_top
    have hpos : 0 < (v - l) / h := div_pos (sub_pos.2 (WithTop.coe_lt_coe.1 hlv)) hh
    refine ⟨(v - l) / h, ?_, fun _ => hlv, fun hneg => ?_, fun hzero => ?_⟩
    · simp [real_div_real _ hh.ne']
    · exact absurd hpos hneg.not_gt
    · exact absurd hzero hpos.ne'
  · rw [if_neg hl]
    by_cases hu : u < v
    · rw [if_pos hu]
      have huv := hu
      lift u to ℝ using hu.ne_top
      have hneg : (u - v) / h < 0 := div_neg_of_neg_of_pos (sub_neg.2 (WithTop.coe_lt_coe.1 hu)) hh
      refine ⟨(u - v) / h, ?_, fun hpos => ?_, fun _ => huv, fun hzero => ?_⟩
      · simp [real_div_real _ hh.ne']
      · exact absurd hpos hneg.not_gt
      · exact absurd hzero hneg.ne
    · rw [if_neg hu]
      refine ⟨0, zero_eq, fun hpos => absurd hpos (lt_irrefl 0),
        fun hneg => absurd hneg (lt_irrefl 0), fun _ => ⟨fun hlv => hl ⟨?_, hlv⟩, hu⟩⟩
      exact hlv.le.trans (not_lt.1 hu)

/-- A vector that is not zero, turned round and shrunk by its length, is a unit vector. -/
lemma shrink_neg_spec {a b : ℝ} (hab : a ≠ 0 ∨ b ≠ 0) :
    ∃ n : ℝ, 0 < n ∧ (Vec.mk (real a) (real b)).norm = real n ∧
      (-Vec.mk (real a) (real b)).shrink (real n) = ⟨real (-a / n), real (-b / n)⟩ ∧
      (Vec.mk (real (-a / n)) (real (-b / n))).norm = 1 := by
  have hsq : 0 < a * a + b * b := by
    rcases hab with ha | hb
    · exact add_pos_of_pos_of_nonneg (mul_self_pos.2 ha) (mul_self_nonneg b)
    · exact add_pos_of_nonneg_of_pos (mul_self_nonneg a) (mul_self_pos.2 hb)
  have hn : 0 < √(a * a + b * b) := Real.sqrt_pos.2 hsq
  have hnn : √(a * a + b * b) * √(a * a + b * b) = a * a + b * b := Real.mul_self_sqrt hsq.le
  refine ⟨√(a * a + b * b), hn, sqrt_real hsq.le, ?_, ?_⟩
  · show Vec.mk (-real a / _) (-real b / _) = _
    rw [neg_real, neg_real, real_div_real _ hn.ne', real_div_real _ hn.ne']
  · generalize √(a * a + b * b) = n at hn hnn
    have hone : -a / n * (-a / n) + -b / n * (-b / n) = 1 := by
      field_simp
      linarith
    show Scalar.sqrt (real (-a / n * (-a / n) + -b / n * (-b / n))) = 1
    rw [hone, sqrt_real zero_le_one, Real.sqrt_one, one_eq]

namespace ZoneGrid

variable {g : ZoneGrid Exact} {T : Lattice Exact} {c n : Cell}

/-- The fields in which the way from every cell of finite cost leads down to a cell of no cost. -/
structure Downhill (g : ZoneGrid Exact) (T : Lattice Exact) : Prop where
  width_eq : T.width = g.grid.width
  height_eq : T.height = g.grid.height
  isCost : ∀ c, g.grid.contains c = true → (T.getD c Scalar.infinity).IsCost
  passable : ∀ c, costs T c ≠ ⊤ → g.isPassable c = true
  lower : ∀ c, costs T c ≠ ⊤ → costs T c ≠ 0 → ∃ n ∈ g.grid.neighbours c, costs T n < costs T c

lemma contains_of_costs_ne_top (hw : T.width = g.grid.width) (hh : T.height = g.grid.height)
    (hc : costs T c ≠ ⊤) : g.grid.contains c = true := by
  by_contra hout
  apply hc
  have hhas : ¬T.Has c := by
    rwa [Lattice.Has, hw, hh, ← RectGrid.contains_iff]
  rw [costs, Lattice.getD_of_not_has T hhas]
  rfl

/-- The values of a field of costs are its costs, beyond the grid too. -/
lemma getD_eq_ofCost (hw : T.width = g.grid.width) (hh : T.height = g.grid.height)
    (hcost : ∀ c, g.grid.contains c = true → (T.getD c Scalar.infinity).IsCost) (c : Cell) :
    T.getD c Scalar.infinity = ofCost (costs T c) := by
  by_cases hc : g.grid.contains c = true
  · exact (hcost c hc).symm
  · have htop : costs T c = ⊤ := by
      by_contra h
      exact hc (contains_of_costs_ne_top hw hh h)
    have hhas : ¬T.Has c := by
      rwa [Lattice.Has, hw, hh, ← RectGrid.contains_iff]
    rw [htop, Lattice.getD_of_not_has T hhas]
    rfl

lemma Downhill.contains (hT : g.Downhill T) (hc : costs T c ≠ ⊤) : g.grid.contains c = true :=
  contains_of_costs_ne_top hT.width_eq hT.height_eq hc

lemma Downhill.ofCost_costs (hT : g.Downhill T) (c : Cell) :
    T.getD c Scalar.infinity = ofCost (costs T c) :=
  getD_eq_ofCost hT.width_eq hT.height_eq hT.isCost c

/-- No cost is negative: the least one would have a smaller one beside it. -/
theorem Downhill.nonneg (hT : g.Downhill T) (c : Cell) : 0 ≤ costs T c := by
  by_contra hneg
  have hfin {c' : Cell} (h : costs T c' < 0) : costs T c' ≠ ⊤ := h.ne_top
  let negative : Finset Cell :=
    {c ∈ Finset.range g.grid.width ×ˢ Finset.range g.grid.height | costs T c < 0}
  have hmem {c' : Cell} : c' ∈ negative ↔ costs T c' < 0 := by
    have hin : costs T c' < 0 → c'.1 < g.grid.width ∧ c'.2 < g.grid.height := fun h =>
      RectGrid.contains_iff.1 (hT.contains (hfin h))
    simpa [negative] using hin
  obtain ⟨m, hm, hmin⟩ := negative.exists_min_image (costs T) ⟨c, hmem.2 (not_le.1 hneg)⟩
  have hm0 := hmem.1 hm
  obtain ⟨n, -, hn⟩ := hT.lower m (hfin hm0) hm0.ne
  exact absurd (hmin n (hmem.2 (hn.trans hm0))) (not_le.2 hn)

section
variable {speed : Lattice Exact} {seeds : List Cell}

lemma IsArrival.ofCost_costs (hT : g.IsArrival speed seeds T) (c : Cell) :
    T.getD c Scalar.infinity = ofCost (costs T c) :=
  getD_eq_ofCost hT.width_eq hT.height_eq hT.isCost c

lemma IsArrival.costs_seed (hT : g.IsArrival speed seeds T) (hc : c ∈ seeds) : costs T c = 0 := by
  rw [costs, hT.seed c hc, zero_eq]
  rfl

/-- Beside the seeds only cells that can be entered have a finite cost. -/
lemma IsArrival.enterable (hT : g.IsArrival speed seeds T) (hc : costs T c ≠ ⊤)
    (hseed : c ∉ seeds) : g.Enterable speed c := by
  by_contra hent
  apply hc
  rw [costs, hT.blocked c (contains_of_costs_ne_top hT.width_eq hT.height_eq hc) hseed hent]
  rfl

/-- Where the front comes to a cell that is no seed, it comes from a cheaper one. -/
lemma IsArrival.exists_lower (hm : g.Measured speed) (hT : g.IsArrival speed seeds T)
    (hc : costs T c ≠ ⊤) (hseed : c ∉ seeds) :
    ∃ n ∈ g.grid.neighbours c, costs T n < costs T c := by
  have hent := hT.enterable hc hseed
  have heq := hT.costs_eq hm hseed hent
  rw [heq] at hc ⊢
  exact exists_neighbour_lt (hm.crossing_spec hent).2 hc

theorem IsArrival.downhill (hm : g.Measured speed) (hT : g.IsArrival speed seeds T)
    (hseeds : ∀ c ∈ seeds, g.isPassable c = true) : g.Downhill T := by
  refine ⟨hT.width_eq, hT.height_eq, hT.isCost, fun c hc => ?_, fun c hc hc0 => ?_⟩
  · by_cases hseed : c ∈ seeds
    · exact hseeds c hseed
    · exact (hT.enterable hc hseed).2.1
  · exact hT.exists_lower hm hc fun hseed => hc0 (hT.costs_seed hseed)

end

/-- A downhill field remains so when free cells are given the cost zero. -/
theorem Downhill.overwrite_zero (hT : g.Downhill T) {cs : List Cell}
    (hcs : ∀ c ∈ cs, g.isPassable c = true ∧ g.grid.contains c = true) :
    g.Downhill (overwrite T cs 0) := by
  have hhas (c : Cell) (hc : c ∈ cs) : T.Has c := by
    rw [Lattice.Has, hT.width_eq, hT.height_eq]
    exact RectGrid.contains_iff.1 (hcs c hc).2
  have hget (c : Cell) : (overwrite T cs 0).getD c Scalar.infinity =
      if c ∈ cs then 0 else T.getD c Scalar.infinity :=
    Lattice.getD_foldl_set hhas c 0 _
  have hcosts (c : Cell) : costs (overwrite T cs 0) c = if c ∈ cs then 0 else costs T c := by
    rw [costs, hget]
    split
    · rw [zero_eq]
      rfl
    · rfl
  have hle (c : Cell) : costs (overwrite T cs 0) c ≤ costs T c := by
    rw [hcosts]
    split
    · exact hT.nonneg c
    · exact le_rfl
  refine ⟨?_, ?_, fun c hc => ?_, fun c hc => ?_, fun c hc hc0 => ?_⟩
  · exact (Lattice.width_foldl_set cs 0 T).trans hT.width_eq
  · exact (Lattice.height_foldl_set cs 0 T).trans hT.height_eq
  · rw [hget]
    split
    · rw [zero_eq]
      exact isCost_real 0
    · exact hT.isCost c hc
  · by_cases hmem : c ∈ cs
    · exact (hcs c hmem).1
    · rw [hcosts, if_neg hmem] at hc
      exact hT.passable c hc
  · have hmem : c ∉ cs := fun hmem => hc0 (by rw [hcosts, if_pos hmem])
    rw [hcosts, if_neg hmem] at hc hc0 ⊢
    obtain ⟨n, hn, hlt⟩ := hT.lower c hc hc0
    exact ⟨n, hn, (hle n).trans_lt hlt⟩

/-- True if the cell at an offset is free and costs less. -/
def IsLower (g : ZoneGrid Exact) (T : Lattice Exact) (c : Cell) (di dj : Int) : Prop :=
  ∃ n, g.grid.offset? c di dj = some n ∧ g.isPassable n = true ∧
    T.getD n Scalar.infinity < T.getD c Scalar.infinity

/-- The unit vectors that lead down from a cell along each axis that they are not square to. -/
structure LeadsDown (g : ZoneGrid Exact) (T : Lattice Exact) (c : Cell) (d : Vec Exact) :
    Prop where
  norm_eq : d.norm = 1
  x : d.x = 0 ∨ d.x < 0 ∧ g.IsLower T c (-1) 0 ∨ 0 < d.x ∧ g.IsLower T c 1 0
  y : d.y = 0 ∨ d.y < 0 ∧ g.IsLower T c 0 (-1) ∨ 0 < d.y ∧ g.IsLower T c 0 1

lemma Downhill.isLower (hT : g.Downhill T) {di dj : Int}
    (h : beside g.grid (costs T) c (di, dj) < costs T c) : g.IsLower T c di dj := by
  unfold beside at h
  cases hn : g.grid.offset? c di dj with
  | none => simp [hn] at h
  | some n =>
    have hlt : costs T n < costs T c := by simpa [hn] using h
    refine ⟨n, hn, hT.passable n hlt.ne_top, ?_⟩
    rw [hT.ofCost_costs n, hT.ofCost_costs c]
    exact ofCost_lt_ofCost.2 hlt

/-- Outside walls a direction is only given where the cost is finite. -/
lemma getD_descent (hT : g.Downhill T) (hc : g.grid.contains c = true)
    (hfree : g.isPassable c = true) : (g.descent T).getD c .zero =
      if Scalar.isFinite (T.getD c Scalar.infinity) = true then
        if 0 < (g.gradient T c).norm then
          (-g.gradient T c).shrink (g.gradient T c).norm
        else .zero
      else .zero := by
  have hin : c.1 < T.width ∧ c.2 < T.height := by
    rw [hT.width_eq, hT.height_eq]
    exact RectGrid.contains_iff.1 hc
  rw [descent, Lattice.getD_ofFn _ hin]
  simp only [hfree, Bool.true_and]

/-- Where the cost of a downhill field is finite and not zero the direction leads down. -/
theorem Downhill.leadsDown_descent (hT : g.Downhill T) (hh : 0 < g.grid.cellSize)
    (hfin : Scalar.isFinite g.grid.cellSize = true) (hc : costs T c ≠ ⊤) (hc0 : costs T c ≠ 0) :
    g.LeadsDown T c ((g.descent T).getD c .zero) := by
  have hin := hT.contains hc
  obtain ⟨h, hsize⟩ := isFinite_iff.1 hfin
  have hpos : 0 < h := by simpa [hsize, zero_eq] using hh
  obtain ⟨v, hv⟩ := WithTop.ne_top_iff_exists.1 hc
  have hcost : T.getD c Scalar.infinity = real v := by rw [hT.ofCost_costs, ← hv, ofCost_coe]
  have haxis (d d' : Int × Int) : ∃ s : ℝ,
      slope (real v) (g.costAt T c d.1 d.2) (g.costAt T c d'.1 d'.2) (real h) = real s ∧
      (0 < s → beside g.grid (costs T) c d < costs T c) ∧
      (s < 0 → beside g.grid (costs T) c d' < costs T c) ∧
      (s = 0 → ¬beside g.grid (costs T) c d < costs T c ∧
        ¬beside g.grid (costs T) c d' < costs T c) := by
    rw [costAt_eq hT.isCost, costAt_eq hT.isCost, ← hv]
    exact slope_spec hpos _ _
  obtain ⟨a, ha, haleft, haright, hazero⟩ := haxis (-1, 0) (1, 0)
  obtain ⟨b, hb, hbdown, hbup, hbzero⟩ := haxis (0, -1) (0, 1)
  have hgradient : g.gradient T c = ⟨real a, real b⟩ := by
    rw [gradient, hcost, hsize]
    exact congrArg₂ Vec.mk ha hb
  have hab : a ≠ 0 ∨ b ≠ 0 := by
    by_contra hflat
    push Not at hflat
    obtain ⟨n, hn, hlt⟩ := hT.lower c hc hc0
    obtain ⟨d, hd, hoff⟩ := RectGrid.exists_offset?_of_mem_neighbours hn
    have hbeside : beside g.grid (costs T) c d < costs T c := by simpa [beside, hoff] using hlt
    simp only [RectGrid.sides, List.mem_cons, List.not_mem_nil, or_false] at hd
    rcases hd with rfl | rfl | rfl | rfl
    · exact (hazero hflat.1).1 hbeside
    · exact (hazero hflat.1).2 hbeside
    · exact (hbzero hflat.2).1 hbeside
    · exact (hbzero hflat.2).2 hbeside
  obtain ⟨n, hn, hnorm, hshrink, hunit⟩ := shrink_neg_spec hab
  have hdir : (g.descent T).getD c .zero = ⟨real (-a / n), real (-b / n)⟩ := by
    have hn0 : (0 : Exact) < real n := by rwa [zero_eq, real_lt_real]
    rw [getD_descent hT hin (hT.passable c hc), hgradient, hcost, if_pos (isFinite_real v), hnorm,
      if_pos hn0, hshrink]
  -- Each component points away from the sign of its slope.
  have hsign (s : ℝ) {below above : Prop} (hbelow : 0 < s → below) (habove : s < 0 → above) :
      real (-s / n) = 0 ∨ real (-s / n) < 0 ∧ below ∨ 0 < real (-s / n) ∧ above := by
    rw [zero_eq, real_inj, real_lt_real, real_lt_real]
    rcases lt_trichotomy s 0 with hs | hs | hs
    · exact .inr (.inr ⟨div_pos (neg_pos.2 hs) hn, habove hs⟩)
    · exact .inl (by rw [hs, neg_zero, zero_div])
    · exact .inr (.inl ⟨div_neg_of_neg_of_pos (neg_neg_of_pos hs) hn, hbelow hs⟩)
  rw [hdir]
  constructor
  · exact hunit
  · exact hsign a (fun hs => hT.isLower (haleft hs)) fun hs => hT.isLower (haright hs)
  · exact hsign b (fun hs => hT.isLower (hbdown hs)) fun hs => hT.isLower (hbup hs)

def IsCheapest (g : ZoneGrid Exact) (T : Lattice Exact) (c n : Cell) : Prop :=
  n ∈ g.grid.neighbours c ∧
    ∀ n' ∈ g.grid.neighbours c, T.getD n Scalar.infinity ≤ T.getD n' Scalar.infinity

lemma Downhill.isCheapest_iff (hT : g.Downhill T) : g.IsCheapest T c n ↔
    n ∈ g.grid.neighbours c ∧ ∀ n' ∈ g.grid.neighbours c, costs T n ≤ costs T n' := by
  simp only [IsCheapest, hT.ofCost_costs, ofCost_le_ofCost]

theorem Downhill.exists_isCheapest (hT : g.Downhill T) (hc : costs T c ≠ ⊤)
    (hc0 : costs T c ≠ 0) : ∃ n, g.IsCheapest T c n := by
  obtain ⟨n, hn, -⟩ := hT.lower c hc hc0
  obtain ⟨m, hm, hmin⟩ := (g.grid.neighbours c).toFinset.exists_min_image (costs T)
    ⟨n, List.mem_toFinset.2 hn⟩
  refine ⟨m, hT.isCheapest_iff.2 ⟨List.mem_toFinset.1 hm, fun n' hn' => ?_⟩⟩
  exact hmin n' (List.mem_toFinset.2 hn')

theorem Downhill.costs_lt_of_isCheapest (hT : g.Downhill T) (hc : costs T c ≠ ⊤)
    (hc0 : costs T c ≠ 0) (hn : g.IsCheapest T c n) : costs T n < costs T c := by
  obtain ⟨m, hm, hlt⟩ := hT.lower c hc hc0
  exact ((hT.isCheapest_iff.1 hn).2 m hm).trans_lt hlt

/-- The cells that cost less than `c`. -/
noncomputable def below (g : ZoneGrid Exact) (T : Lattice Exact) (c : Cell) : Finset Cell :=
  {n ∈ Finset.range g.grid.width ×ˢ Finset.range g.grid.height | costs T n < costs T c}

lemma card_below_lt (hn : g.grid.contains n = true) (h : costs T n < costs T c) :
    (below g T n).card < (below g T c).card := by
  refine Finset.card_lt_card ((Finset.ssubset_iff_of_subset fun m hm => ?_).2 ⟨n, ?_, ?_⟩)
  · rw [below, Finset.mem_filter] at hm ⊢
    exact ⟨hm.1, hm.2.trans h⟩
  · simpa [below, h] using RectGrid.contains_iff.1 hn
  · simp [below]

/-- Steps to cheapest neighbours lead down over free cells to a cell of no cost. -/
theorem Downhill.walk (hT : g.Downhill T) (walk : ℕ → Cell) (hstart : costs T (walk 0) ≠ ⊤)
    (hstep : ∀ k, costs T (walk k) ≠ 0 → g.IsCheapest T (walk k) (walk (k + 1))) :
    ∃ k, costs T (walk k) = 0 ∧ (∀ i < k, costs T (walk (i + 1)) < costs T (walk i)) ∧
      ∀ i ≤ k, g.isPassable (walk i) = true := by
  -- The cells that cost less than the one reached become fewer with each step.
  induction hcard : (below g T (walk 0)).card using Nat.strong_induction_on generalizing walk with
  | _ m ih =>
    have hfree := hT.passable (walk 0) hstart
    by_cases hend : costs T (walk 0) = 0
    · refine ⟨0, hend, fun i hi => absurd hi (Nat.not_lt_zero i), fun i hi => ?_⟩
      rwa [Nat.le_zero.1 hi]
    · have hlt := hT.costs_lt_of_isCheapest hstart hend (hstep 0 hend)
      have hfewer : (below g T (walk 1)).card < m := by
        rw [← hcard]
        exact card_below_lt (hT.contains hlt.ne_top) hlt
      obtain ⟨k, hk, hdown, hpass⟩ := ih _ hfewer (fun i => walk (i + 1)) hlt.ne_top
        (fun i hi => hstep (i + 1) hi) rfl
      refine ⟨k + 1, hk, fun i hi => ?_, fun i hi => ?_⟩
      · cases i with
        | zero => exact hlt
        | succ i => exact hdown i (Nat.lt_of_succ_lt_succ hi)
      · cases i with
        | zero => exact hfree
        | succ i => exact hpass i (Nat.le_of_succ_le_succ hi)

end ZoneGrid

end Egress
