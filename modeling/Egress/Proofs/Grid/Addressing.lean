import Egress.Proofs.Grid.Covering
import Egress.Proofs.Grid.Query

/-!
# Addresses of cells

A cell of a grid is known by its place along both axes, by its number and by its centre. Along each
axis a position lies a number of cells from the first centre. Rounding that number moves it by no
more than half a cell, and rounding it and holding it among the cells of the grid moves it no
further than to any other cell. The distance in the plane grows with both, so the cell of a position
is one with the nearest centre.
-/
namespace Egress
open Exact

namespace RectGrid

/-- Holding a place among the cells of an axis is cutting its rounding off at the last one. -/
lemma nearestBelow_eq_min (v : ℝ) (n : ℕ) :
    nearestBelow (real v) n = min ⌊v + 1 / 2⌋₊ (n - 1) := by
  obtain ⟨r, hr⟩ : ∃ r : ℝ, Scalar.round (real v) = real r := ⟨_, rfl⟩
  have hcount : ⌊r⌋₊ = ⌊v + 1 / 2⌋₊ := by
    rw [← toCount_round, hr]
    rfl
  have hnumber : ¬Scalar.isNaN (real v) = true := Bool.false_ne_true
  rw [nearestBelow, if_neg hnumber, hr, zero_eq, larger_real, natCast_eq, smaller_real]
  calc ⌊min (max r 0) ((n - 1 : ℕ) : ℝ)⌋₊
      = min ⌊max r 0⌋₊ ⌊((n - 1 : ℕ) : ℝ)⌋₊ := Nat.floor_mono.map_min
    _ = min ⌊v + 1 / 2⌋₊ (n - 1) := by
        rw [Nat.floor_natCast, Nat.floor_mono.map_max, Nat.floor_zero, Nat.max_zero, hcount]

/-- No cell of an axis is nearer to a place than the one that the place is held at. -/
theorem nearestBelow_near {n k : ℕ} (hk : k < n) (v : ℝ) :
    |v - nearestBelow (real v) n| ≤ |v - k| := by
  rw [nearestBelow_eq_min]
  have hlast : (k : ℝ) ≤ (n - 1 : ℕ) := Nat.cast_le.2 (by omega)
  rcases le_or_gt v (-(1 / 2)) with hlow | hlow
  · -- before the first cell
    have hzero : ⌊v + 1 / 2⌋₊ = 0 := Nat.floor_of_nonpos (by linarith)
    have hfirst : (0 : ℝ) ≤ k := Nat.cast_nonneg k
    rw [hzero, Nat.zero_min, Nat.cast_zero, abs_of_nonpos (by linarith),
      abs_of_nonpos (by linarith)]
    linarith
  · have hfloor := Nat.floor_le (show 0 ≤ v + 1 / 2 by linarith)
    have hnext := Nat.lt_floor_add_one (v + 1 / 2)
    rcases le_or_gt ⌊v + 1 / 2⌋₊ (n - 1) with hin | hout
    · -- among the cells a place is within half a cell of one, and no nearer to any other
      rw [min_eq_left hin]
      have hhalf : |v - ⌊v + 1 / 2⌋₊| ≤ 1 / 2 := abs_le.2 ⟨by linarith, by linarith⟩
      rcases lt_trichotomy k ⌊v + 1 / 2⌋₊ with hlt | rfl | hgt
      · have hstep : (k : ℝ) + 1 ≤ ⌊v + 1 / 2⌋₊ := by exact_mod_cast hlt
        exact hhalf.trans (le_abs.2 (.inl (by linarith)))
      · exact le_rfl
      · have hstep : (⌊v + 1 / 2⌋₊ : ℝ) + 1 ≤ k := by exact_mod_cast hgt
        exact hhalf.trans (le_abs.2 (.inr (by linarith)))
    · -- beyond the last cell
      have hbeyond : ((n - 1 : ℕ) : ℝ) + 1 ≤ ⌊v + 1 / 2⌋₊ := by exact_mod_cast hout
      rw [min_eq_right hout.le, abs_of_nonneg (by linarith), abs_of_nonneg (by linarith)]
      linarith

/-- A place that is rounded to a cell of an axis is held at that cell. Infinite places count as the
last word, which no axis of fewer cells has. -/
lemma nearestBelow_of_lt {a : Exact} {n : ℕ} (ha : (∃ v, a = real v) ∨ n ≤ wordCount 64)
    (hnonneg : 0 ≤ Scalar.round a) (hlt : Scalar.toCount (Scalar.round a) < n) :
    nearestBelow a n = Scalar.toCount (Scalar.round a) := by
  cases a with
  | real v =>
    rw [toCount_round] at hlt ⊢
    rw [nearestBelow_eq_min, min_eq_left (by omega)]
  | posInf =>
    have hword : n ≤ wordCount 64 := ha.resolve_left (by simp)
    have hcount : Scalar.toCount (Scalar.round posInf) = wordCount 64 - 1 := rfl
    rw [hcount] at hlt ⊢
    obtain rfl : n = wordCount 64 := by omega
    have hnumber : ¬Scalar.isNaN posInf = true := Bool.false_ne_true
    have hround : Scalar.round posInf = posInf := rfl
    have hlarger : Scalar.larger posInf 0 = posInf := by
      rw [zero_eq]
      exact if_neg (not_posInf_lt _)
    have hsmaller (x : ℝ) : Scalar.smaller posInf (real x) = real x := if_pos trivial
    rw [nearestBelow, if_neg hnumber, hround, hlarger, natCast_eq, hsmaller, toCount_natCast]
  | negInf =>
    rw [zero_eq] at hnonneg
    exact absurd hnonneg id
  | nan =>
    rw [zero_eq] at hnonneg
    exact absurd hnonneg id

/-- A place that is held at a cell off the border is rounded to that cell. -/
lemma toCount_of_inner {v : ℝ} {n : ℕ} (hlow : 0 < nearestBelow (real v) n)
    (hhigh : nearestBelow (real v) n + 1 < n) : 0 ≤ Scalar.round (real v) ∧
      Scalar.toCount (Scalar.round (real v)) = nearestBelow (real v) n := by
  rw [nearestBelow_eq_min] at hlow hhigh ⊢
  have hfloor : 0 < ⌊v + 1 / 2⌋₊ := hlow.trans_le (min_le_left _ _)
  have hv : 0 ≤ v := by linarith [Nat.floor_pos.1 hfloor]
  rw [toCount_round, round_of_nonneg hv, zero_eq, real_le_real]
  exact ⟨Nat.cast_nonneg _, by omega⟩

/-- Every number below the size of a grid is that of one of its cells, and of one only. -/
theorem bijOn_key {α : Type} (g : RectGrid α) :
    Set.BijOn g.key {c | g.contains c = true} (Set.Iio g.size) := by
  have hcell {c : Cell} (hc : g.contains c = true) :
      (g.key c % g.width, g.key c / g.width) = c := by
    obtain ⟨hi, -⟩ := contains_iff.1 hc
    have hwidth : 0 < g.width := by omega
    rw [key, add_comm, Nat.add_mul_mod_self_right, Nat.mod_eq_of_lt hi,
      Nat.add_mul_div_right _ _ hwidth, Nat.div_eq_of_lt hi, zero_add]
  refine ⟨?_, ?_, ?_⟩
  · intro c hc
    obtain ⟨hi, hj⟩ := contains_iff.1 hc
    have hlt := Lattice.index_lt (c := (c.2, c.1)) ⟨hj, hi⟩
    rwa [mul_comm g.height] at hlt
  · intro c hc c' hc' hkey
    rw [← hcell hc, ← hcell hc', hkey]
  · intro k hk
    replace hk : k < g.width * g.height := hk
    have hwidth : 0 < g.width := Nat.pos_of_mul_pos_right (Nat.zero_lt_of_lt hk)
    refine ⟨(k % g.width, k / g.width), ?_, ?_⟩
    · exact contains_iff.2 ⟨Nat.mod_lt _ hwidth, Nat.div_lt_of_lt_mul hk⟩
    · exact Nat.div_add_mod' k g.width

variable {g : RectGrid Exact} {p : Point Exact} {c : Cell}

lemma place_real {s : ℝ} (hs : 0 < s) (o q : ℝ) :
    (real q - real o) / real s = real ((q - o) / s) := by
  rw [real_sub_real, real_div_real _ hs.ne']

/-- A position that has a cell is nearest to that cell. -/
theorem nearestCell_of_cellAt? (hg : g.IsReal)
    (hp : p.IsFinite ∨ g.width ≤ wordCount 64 ∧ g.height ≤ wordCount 64)
    (hc : g.cellAt? p = some c) : g.nearestCell p = c := by
  simp only [cellAt?, Option.ite_none_right_eq_some] at hc
  obtain ⟨⟨hi, hj, hwidth, hheight⟩, hcell⟩ := hc
  rw [← Option.some.inj hcell, nearestCell]
  have hplace : p.IsFinite → (∃ v, (p.x - g.origin.x) / g.cellSize = real v) ∧
      ∃ v, (p.y - g.origin.y) / g.cellSize = real v := by
    intro hfin
    obtain ⟨x, y, s, width, height, hs, rfl⟩ := hg.exists_real
    obtain ⟨px, py, rfl⟩ := hfin.exists_real
    exact ⟨⟨_, place_real hs x px⟩, _, place_real hs y py⟩
  rw [nearestBelow_of_lt (hp.imp (fun hfin => (hplace hfin).1) And.left) hi hwidth,
    nearestBelow_of_lt (hp.imp (fun hfin => (hplace hfin).2) And.right) hj hheight]

theorem dist_nearestCell_le (hg : g.IsReal) (hp : p.IsFinite) (hc : g.contains c = true) :
    p.dist (g.centre (g.nearestCell p)) ≤ p.dist (g.centre c) := by
  obtain ⟨x, y, s, width, height, hs, rfl⟩ := hg.exists_real
  obtain ⟨px, py, rfl⟩ := hp.exists_real
  obtain ⟨hi, hj⟩ := contains_iff.1 hc
  have hcentre (c : Cell) : (⟨real px, real py⟩ : Point Exact).dist
      ((⟨⟨real x, real y⟩, real s, width, height⟩ : RectGrid Exact).centre c) =
        real √((px - (x + c.1 * s)) ^ 2 + (py - (y + c.2 * s)) ^ 2) :=
    (Point.dist_eq_real px py _ _).trans (congrArg real (Complex.dist_mk _ _ _ _))
  have axis {q o : ℝ} {n k : ℕ} (hk : k < n) :
      (q - (o + nearestBelow (real ((q - o) / s)) n * s)) ^ 2 ≤ (q - (o + k * s)) ^ 2 := by
    have hscale (m : ℕ) : q - (o + m * s) = s * ((q - o) / s - m) := by
      field_simp
      ring
    rw [hscale, hscale, mul_pow, mul_pow]
    exact mul_le_mul_of_nonneg_left (sq_le_sq.2 (nearestBelow_near hk _)) (sq_nonneg s)
  rw [hcentre, hcentre, real_le_real, nearestCell, place_real hs, place_real hs]
  exact Real.sqrt_le_sqrt (add_le_add (axis hi) (axis hj))

/-- A position for which the nearest cell is off the border has that cell. -/
lemma cellAt?_of_inner (hg : g.IsReal) (hp : p.IsFinite) (hc : g.Inner (g.nearestCell p)) :
    g.cellAt? p = some (g.nearestCell p) := by
  obtain ⟨x, y, s, width, height, hs, rfl⟩ := hg.exists_real
  obtain ⟨px, py, rfl⟩ := hp.exists_real
  obtain ⟨⟨hlow, hhigh⟩, hlow', hhigh'⟩ := hc
  rw [nearestCell, cellAt?] at *
  simp only [place_real hs] at *
  obtain ⟨hi, hcolumn⟩ := toCount_of_inner hlow hhigh
  obtain ⟨hj, hrow⟩ := toCount_of_inner hlow' hhigh'
  rw [hcolumn, hrow]
  exact if_pos ⟨hi, hj, Nat.lt_of_succ_lt hhigh, Nat.lt_of_succ_lt hhigh'⟩

lemma covering_overBox {x₀ y₀ x₁ y₁ s : ℝ} (hx : x₀ ≤ x₁) (hy : y₀ ≤ y₁) (hs : 0 < s)
    (zone : Zone) : covering zone ⟨real x₀, real y₀⟩ ⟨real x₁, real y₁⟩ (real s) =
      .ok (overBox x₀ y₀ x₁ y₁ s) := by
  have hpos : 0 < real s := by rwa [zero_eq, real_lt_real]
  have hextent {u v : ℝ} (h : u ≤ v) : ¬real v - real u < 0 := by
    rw [real_sub_real, zero_eq, real_lt_real]
    linarith
  refine covering_eq_ok_iff.2 ⟨⟨hpos, rfl⟩, ⟨⟨?_, ?_⟩, hextent hx, hextent hy⟩, ?_⟩
  · exact real_sub_real x₁ x₀ ▸ rfl
  · exact real_sub_real y₁ y₀ ▸ rfl
  · simp only [overBox, real_sub_real, real_div_real _ hs.ne', toCount_ceil]

/-- Every box with real corners is covered by a grid that gives each position of the box a cell off
the border, with its centre no further than half a cell in each coordinate. Each cell is the cell of
its centre. A position that has a cell is held at it, and any position is held at a cell of the
grid, than which no other has a nearer centre. Numbers of cells are those below the size. -/
theorem covering_addresses {x₀ y₀ x₁ y₁ s : ℝ} (hx : x₀ ≤ x₁) (hy : y₀ ≤ y₁) (hs : 0 < s)
    (zone : Zone) : ∃ g : RectGrid Exact,
    covering zone ⟨real x₀, real y₀⟩ ⟨real x₁, real y₁⟩ (real s) = .ok g ∧
    (∀ p : Point Exact, p.InBox ⟨real x₀, real y₀⟩ ⟨real x₁, real y₁⟩ →
      ∃ c, g.cellAt? p = some c ∧ (1 ≤ c.1 ∧ c.1 ≤ g.width - 2) ∧
        (1 ≤ c.2 ∧ c.2 ≤ g.height - 2) ∧ (g.centre c).Within (real (s / 2)) p) ∧
    (∀ c, g.contains c = true → g.cellAt? (g.centre c) = some c) ∧
    (∀ p c, p.IsFinite ∨ g.width ≤ wordCount 64 ∧ g.height ≤ wordCount 64 →
      g.cellAt? p = some c → g.nearestCell p = c) ∧
    (∀ p : Point Exact, g.contains (g.nearestCell p) = true ∧
      ∀ c, g.contains c = true →
        ¬p.dist (g.centre c) < p.dist (g.centre (g.nearestCell p)) ∧
        (p.IsFinite → p.dist (g.centre (g.nearestCell p)) ≤ p.dist (g.centre c))) ∧
    Set.BijOn g.key {c | g.contains c = true} (Set.Iio g.size) := by
  have hgrid := covering_overBox hx hy hs zone
  have hreal : (overBox x₀ y₀ x₁ y₁ s).IsReal :=
    ⟨by rwa [overBox, zero_eq, real_lt_real], rfl, rfl, rfl⟩
  refine ⟨_, hgrid, ?_, fun c => cellAt?_centre hreal,
    fun p c hp => nearestCell_of_cellAt? hreal hp,
    fun p => ⟨?_, fun c hc => ⟨?_, fun hp => dist_nearestCell_le hreal hp hc⟩⟩, bijOn_key _⟩
  · intro p hp
    obtain ⟨px, py, rfl⟩ := (hp.isFinite ⟨rfl, rfl⟩ ⟨rfl, rfl⟩).exists_real
    obtain ⟨c, hc, hinner, hi, hj⟩ := nearestCell_overBox hs hp.1 hp.2
    refine ⟨c, hc ▸ cellAt?_of_inner hreal ⟨rfl, rfl⟩ (hc ▸ hinner), ?_, ?_, ?_⟩
    · obtain ⟨⟨hlow, hhigh⟩, -⟩ := hinner
      exact ⟨hlow, by omega⟩
    · obtain ⟨-, hlow, hhigh⟩ := hinner
      exact ⟨hlow, by omega⟩
    · have hhalf : s / 2 = 1 / 2 * s := by ring
      rw [centre_overBox, Point.Within, hhalf]
      simp only [real_sub_real, real_add_real]
      exact ⟨within_of_place hs hi, within_of_place hs hj⟩
  · obtain ⟨-, -, hwidth, hheight⟩ := covering_spec hgrid
    exact contains_nearestCell (countsBelow _) (countsBelow _) hwidth hheight p
  · by_cases hp : p.IsFinite
    · have hle := dist_nearestCell_le hreal hp hc
      intro hlt
      exact laws.lt_irrefl _ (Exact.lt_of_lt_of_le hlt hle)
    · exact Point.not_dist_lt (mt And.left hp) _

/-- On half-meter cells the corner of a hall of ten by five meters has a cell off the border, and
what is far off the hall is held at a cell with no nearer one. -/
theorem covering_addresses_hall : (0 : ℝ) ≤ 10 ∧ (0 : ℝ) ≤ 5 ∧ (0 : ℝ) < 1 / 2 ∧
    ∃ g : RectGrid Exact,
      covering (.room 0) ⟨real 0, real 0⟩ ⟨real 10, real 5⟩ (real (1 / 2)) = .ok g ∧
      (∃ c, g.cellAt? ⟨real 10, real 5⟩ = some c ∧ g.nearestCell ⟨real 10, real 5⟩ = c ∧
        (1 ≤ c.1 ∧ c.1 ≤ g.width - 2) ∧ 1 ≤ c.2 ∧ c.2 ≤ g.height - 2) ∧
      g.contains (g.nearestCell ⟨real 50, real (-9)⟩) = true ∧
      Set.BijOn g.key {c | g.contains c = true} (Set.Iio g.size) := by
  have hx : (0 : ℝ) ≤ 10 := by norm_num
  have hy : (0 : ℝ) ≤ 5 := by norm_num
  have hs : (0 : ℝ) < 1 / 2 := by norm_num
  obtain ⟨g, hg, hbox, -, hagree, hheld, hkey⟩ := covering_addresses hx hy hs (.room 0)
  obtain ⟨c, hc, hi, hj, -⟩ := hbox ⟨real 10, real 5⟩ ⟨⟨hx, le_refl (10 : ℝ)⟩, hy, le_refl (5 : ℝ)⟩
  exact ⟨hx, hy, hs, g, hg, ⟨c, hc, hagree _ c (.inl ⟨rfl, rfl⟩) hc, hi, hj⟩, (hheld _).1, hkey⟩

end RectGrid

end Egress
