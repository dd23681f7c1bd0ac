import Egress.Proofs.Field.Reach
import Egress.Proofs.Geometry

/-!
# Costs and straight lines

The distance from a seed in a straight line falls from a cell to its neighbours along an axis by no
more than the share that the line has of that axis, because distance is convex. The squares of the
two shares add up to that of the cell size, so that the distance is nowhere above its own update.
By induction over the front it is nowhere above the cost.
-/
namespace Egress
open Exact

/-- Distance between the centres of two cells of the size `h`. -/
noncomputable def cellDist (h : ℝ) (c c' : Cell) : ℝ :=
  √((h * (c.1 - c'.1)) ^ 2 + (h * (c.2 - c'.2)) ^ 2)

theorem cellDist_self (h : ℝ) (c : Cell) : cellDist h c c = 0 := by simp [cellDist]

theorem cellDist_pos {h : ℝ} (hh : 0 < h) {c c' : Cell} (hc : c ≠ c') : 0 < cellDist h c c' := by
  refine Real.sqrt_pos.2 ?_
  have hapart : h * ((c.1 : ℝ) - c'.1) ≠ 0 ∨ h * ((c.2 : ℝ) - c'.2) ≠ 0 := by
    by_contra hboth
    simp only [ne_eq, mul_eq_zero, hh.ne', false_or, sub_eq_zero, Nat.cast_inj, not_or,
      not_not] at hboth
    exact hc (Prod.ext hboth.1 hboth.2)
  rcases hapart with hx | hy
  · exact add_pos_of_pos_of_nonneg (sq_pos_of_ne_zero hx) (sq_nonneg _)
  · exact add_pos_of_nonneg_of_pos (sq_nonneg _) (sq_pos_of_ne_zero hy)

lemma cellDist_of_offset (h : ℝ) {c n c₀ : Cell} {di dj : Int} (hx : (n.1 : Int) = c.1 + di)
    (hy : (n.2 : Int) = c.2 + dj) : cellDist h n c₀ =
      √((h * (c.1 - c₀.1) + h * di) ^ 2 + (h * (c.2 - c₀.2) + h * dj) ^ 2) := by
  have hx' : (n.1 : ℝ) = c.1 + di := by exact_mod_cast hx
  have hy' : (n.2 : ℝ) = c.2 + dj := by exact_mod_cast hy
  rw [cellDist, hx', hy']
  congr 3 <;> ring

theorem RectGrid.dist_centre {g : RectGrid Exact} (horigin : g.origin.IsFinite) {h : ℝ}
    (hsize : g.cellSize = real h) (c c' : Cell) :
    (g.centre c).dist (g.centre c') = real (cellDist h c c') := by
  obtain ⟨x, y, hxy⟩ := horigin.exists_real
  have hcentre (c : Cell) : g.centre c = ⟨real (x + c.1 * h), real (y + c.2 * h)⟩ := by
    rw [centre, hsize, hxy]
    rfl
  rw [hcentre, hcentre, Point.dist_eq_real, Complex.dist_mk, cellDist]
  congr 3 <;> ring

/-- A step of the length `e` along an axis shortens a vector by at most the share that the vector
has of that axis. -/
lemma sub_le_sqrt {p q r : ℝ} (hr : 0 < r) (hsq : r ^ 2 = p ^ 2 + q ^ 2) (e : ℝ) :
    r - |e| * |p| / r ≤ √((p + e) ^ 2 + q ^ 2) := by
  -- the Cauchy–Schwarz inequality for the vector and what becomes of it
  have hdot : p * (p + e) + q * q ≤ r * √((p + e) ^ 2 + q ^ 2) := by
    rw [← Real.sqrt_sq hr.le, hsq, ← Real.sqrt_mul (by positivity)]
    refine Real.le_sqrt_of_sq_le ?_
    linarith [sq_nonneg (q * e)]
  have habs : -(|e| * |p|) ≤ p * e := by
    rw [mul_comm p e, ← abs_mul]
    exact neg_abs_le _
  rw [sub_le_iff_le_add, ← sub_le_iff_le_add', le_div_iff₀ hr]
  linarith

section
variable {g : RectGrid Exact} {F : Cell → WithTop ℝ} {c c₀ : Cell} {h : ℝ}

/-- Costs that are nowhere below the distance from `c₀` have an update that is not below it. -/
theorem cellDist_le_arrival (hh : 0 < h) (hc : c ≠ c₀)
    (hF : ∀ n ∈ g.neighbours c, (cellDist h n c₀ : WithTop ℝ) ≤ F n) :
    (cellDist h c c₀ : WithTop ℝ) ≤ arrival g F c h := by
  have hpos := cellDist_pos hh hc
  have hsq : cellDist h c c₀ ^ 2 = (h * (c.1 - c₀.1)) ^ 2 + (h * (c.2 - c₀.2)) ^ 2 :=
    Real.sq_sqrt (by positivity)
  set r := cellDist h c c₀
  set p := h * ((c.1 : ℝ) - c₀.1)
  set q := h * ((c.2 : ℝ) - c₀.2)
  have side {di dj : Int} {a : ℝ} (hd : (di, dj) ∈ RectGrid.sides)
      (hstep : r - a ≤ √((p + h * di) ^ 2 + (q + h * dj) ^ 2)) :
      ((r - a : ℝ) : WithTop ℝ) ≤ beside g F c (di, dj) := by
    refine le_beside fun n hn => ?_
    obtain ⟨hx, hy, -⟩ := RectGrid.offset?_eq_some_iff.1 hn
    refine le_trans ?_ (hF n (RectGrid.mem_neighbours_of_offset? hd hn))
    rw [WithTop.coe_le_coe, cellDist_of_offset h hx hy]
    exact hstep
  have hx : Upwind.rise r (min (beside g F c (-1, 0)) (beside g F c (1, 0))) ≤ h * |p| / r := by
    refine Upwind.rise_le (by positivity) (le_min (side (by decide) ?_) (side (by decide) ?_))
    · simpa [abs_of_pos hh] using sub_le_sqrt hpos hsq (-h)
    · simpa [abs_of_pos hh] using sub_le_sqrt hpos hsq h
  have hy : Upwind.rise r (min (beside g F c (0, -1)) (beside g F c (0, 1))) ≤ h * |q| / r := by
    refine Upwind.rise_le (by positivity) (le_min (side (by decide) ?_) (side (by decide) ?_))
    · simpa [abs_of_pos hh, add_comm] using sub_le_sqrt hpos (hsq.trans (add_comm _ _)) (-h)
    · simpa [abs_of_pos hh, add_comm] using sub_le_sqrt hpos (hsq.trans (add_comm _ _)) h
  refine Upwind.le_update hh ?_
  calc Upwind.steepness _ _ r
      ≤ (h * |p| / r) ^ 2 + (h * |q| / r) ^ 2 :=
        add_le_add (pow_le_pow_left₀ (Upwind.rise_nonneg _ _) hx 2)
          (pow_le_pow_left₀ (Upwind.rise_nonneg _ _) hy 2)
    _ = h ^ 2 * (p ^ 2 + q ^ 2) / r ^ 2 := by
        rw [div_pow, div_pow, mul_pow, mul_pow, sq_abs, sq_abs]
        ring
    _ = h ^ 2 := by rw [← hsq, mul_div_cancel_right₀ _ (pow_pos hpos 2).ne']

end

namespace ZoneGrid

variable {g : ZoneGrid Exact} {seed : Cell} {T : Lattice Exact} {h : ℝ} {c : Cell}

/-- At speed one no cell costs less than its distance from the one seed. -/
theorem IsArrival.cellDist_le (hm : g.Measured g.evenSpeed) (hT : g.IsArrival g.evenSpeed [seed] T)
    (hh : 0 < h) (hsize : g.grid.cellSize = real h) (c : Cell) :
    (cellDist h c seed : WithTop ℝ) ≤ costs T c := by
  by_cases hc : costs T c = ⊤
  · rw [hc]
    exact le_top
  · refine hT.induction (P := fun c => (cellDist h c seed : WithTop ℝ) ≤ costs T c) ?_ ?_ hc
    · intro c hc
      rw [hT.costs_seed hc, List.mem_singleton.1 hc, cellDist_self]
      exact le_rfl
    · intro c hseed hent _ ih
      rw [← hT.arrival_costsBelow hm hseed hent, crossing_evenSpeed hsize hent.1]
      refine cellDist_le_arrival hh (fun heq => hseed (List.mem_singleton.2 heq)) fun n hn => ?_
      exact le_costsBelow (ih n hn)

/-- From a single seed at speed one no cell costs less than its distance from the seed in a straight
line, whatever walls there are. -/
theorem dist_le_solve (hpos : 0 < g.grid.cellSize)
    (hfin : Scalar.isFinite g.grid.cellSize = true) (horigin : g.grid.origin.IsFinite)
    (hseed : g.grid.contains seed = true) (c : Cell) :
    (g.grid.centre c).dist (g.grid.centre seed) ≤
      (g.solve g.evenSpeed [seed]).getD c Scalar.infinity := by
  have hm := measured_evenSpeed hpos hfin
  have hgrid : ∀ c ∈ [seed], g.grid.contains c = true := by simpa using hseed
  have hT := isArrival_solve hm hgrid
  obtain ⟨h, hsize⟩ := isFinite_iff.1 hfin
  have hh : 0 < h := by simpa [hsize, zero_eq] using hpos
  rw [RectGrid.dist_centre horigin hsize, hT.ofCost_costs, ← ofCost_coe, ofCost_le_ofCost]
  exact hT.cellDist_le hm hh hsize c

/-- Free cells around a wall, three by three in all. -/
noncomputable def pillar : ZoneGrid Exact where
  zone := .room 0
  grid := ⟨⟨0, 0⟩, 1, 3, 3⟩
  cells := .ofFn 3 3 fun c => if c = (1, 1) then .wall else .inside
  targets := .empty

/-- From one corner the front comes round the pillar to the opposite corner, at no less than the
distance straight through it. -/
theorem dist_le_solve_pillar : 0 < pillar.grid.cellSize ∧
    Scalar.isFinite pillar.grid.cellSize = true ∧ pillar.grid.origin.IsFinite ∧
    pillar.grid.contains (0, 0) = true ∧ pillar.isPassable (1, 1) = false ∧
    Scalar.isFinite ((pillar.solve pillar.evenSpeed [(0, 0)]).getD (2, 2) Scalar.infinity) =
      true ∧
    real √8 ≤ (pillar.solve pillar.evenSpeed [(0, 0)]).getD (2, 2) Scalar.infinity := by
  have hpos : 0 < pillar.grid.cellSize := Exact.zero_lt_one
  have hfin : Scalar.isFinite pillar.grid.cellSize = true := isFinite_iff.2 ⟨1, one_eq⟩
  have horigin : pillar.grid.origin.IsFinite :=
    ⟨isFinite_iff.2 ⟨0, zero_eq⟩, isFinite_iff.2 ⟨0, zero_eq⟩⟩
  have hseed : pillar.grid.contains (0, 0) = true := by decide
  have hm := measured_evenSpeed hpos hfin
  have hgrid : ∀ c ∈ [((0, 0) : Cell)], pillar.grid.contains c = true := by decide
  have hpath : pillar.IsPath pillar.evenSpeed [(0, 0)] (2, 2) [(2, 2), (2, 1), (2, 0), (1, 0)] :=
    ((((IsPath.seed (List.mem_singleton_self _)).stepFree (by decide) (by decide)).stepFree
      (by decide) (by decide)).stepFree (by decide) (by decide)).stepFree (by decide) (by decide)
  have hbound := dist_le_solve hpos hfin horigin hseed (2, 2)
  rw [RectGrid.dist_centre horigin (h := 1) one_eq] at hbound
  have hdist : cellDist 1 (2, 2) (0, 0) = √8 := by
    rw [cellDist]
    norm_num
  refine ⟨hpos, hfin, horigin, hseed, by decide, ?_, hdist ▸ hbound⟩
  exact ((isArrival_solve hm hgrid).isFinite_iff_exists_isPath hm hgrid).2 ⟨_, hpath⟩

end ZoneGrid

end Egress
