import Egress.Proofs.Geometry
import Egress.Proofs.Grid.FloorPlan

/-!
# Lines on a grid that covers a box

A grid over a box has a spare cell on every side, so a position in the box is nearest to a cell off
the border, at most half a cell away. The cells of a line stay within half a cell of the ideal line
between the cells nearest to its ends. Both errors together are at most one cell, so the cells that
a segment in the box covers are near the segment and off the border.
-/
namespace Egress
open Exact

namespace RectGrid

/-- The grid of cells of side `s` over the box with the corners `(x₀, y₀)` and `(x₁, y₁)`. -/
noncomputable def overBox (x₀ y₀ x₁ y₁ s : ℝ) : RectGrid Exact :=
  ⟨⟨real (x₀ - s), real (y₀ - s)⟩, real s, ⌈(x₁ - x₀) / s⌉₊ + 3, ⌈(y₁ - y₀) / s⌉₊ + 3⟩

variable {x₀ y₀ x₁ y₁ s : ℝ}

@[simp] theorem centre_overBox (c : Cell) :
    (overBox x₀ y₀ x₁ y₁ s).centre c = ⟨real (x₀ - s + c.1 * s), real (y₀ - s + c.2 * s)⟩ := rfl

theorem exists_overBox {zone : Zone} {lo hi : Point Exact} {h : Exact} {g : RectGrid Exact}
    (hg : covering zone lo hi h = .ok g) :
    ∃ x₀ y₀ x₁ y₁ s : ℝ, 0 < s ∧ lo = ⟨real x₀, real y₀⟩ ∧ hi = ⟨real x₁, real y₁⟩ ∧ h = real s ∧
      g = overBox x₀ y₀ x₁ y₁ s := by
  obtain ⟨lx, ly⟩ := lo
  obtain ⟨hx, hy⟩ := hi
  obtain ⟨⟨hpos, hfin⟩, ⟨⟨hxfin, hyfin⟩, -⟩, rfl⟩ := covering_eq_ok_iff.1 hg
  obtain ⟨s, rfl⟩ := isFinite_iff.1 hfin
  obtain ⟨dx, hdx⟩ := isFinite_iff.1 hxfin
  obtain ⟨dy, hdy⟩ := isFinite_iff.1 hyfin
  obtain ⟨⟨x₁, rfl⟩, x₀, rfl⟩ := real_of_sub hdx
  obtain ⟨⟨y₁, rfl⟩, y₀, rfl⟩ := real_of_sub hdy
  have hs : 0 < s := by rwa [zero_eq, real_lt_real] at hpos
  refine ⟨x₀, y₀, x₁, y₁, s, hs, rfl, rfl, rfl, ?_⟩
  simp only [overBox, real_sub_real, real_div_real _ hs.ne', toCount_ceil]

/-- A place at least one cell within the border is moved to a whole one off the border, by no more
than half a cell. -/
lemma nearestBelow_spec {v : ℝ} {n : ℕ} (hlow : 1 ≤ v) (hhigh : v ≤ n + 1) :
    (0 < nearestBelow (real v) (n + 3) ∧ nearestBelow (real v) (n + 3) + 1 < n + 3) ∧
      |(nearestBelow (real v) (n + 3) : ℝ) - v| ≤ 1 / 2 := by
  rw [nearestBelow_real (by linarith) (by push_cast; linarith)]
  have hfloor := Nat.floor_le (show 0 ≤ v + 1 / 2 by linarith)
  have hnext := Nat.lt_floor_add_one (v + 1 / 2)
  have hlt : ⌊v + 1 / 2⌋₊ < n + 2 := (Nat.floor_lt (by linarith)).2 (by push_cast; linarith)
  exact ⟨⟨Nat.floor_pos.2 (by linarith), by omega⟩, abs_le.2 ⟨by linarith, by linarith⟩⟩

/-- A coordinate in the box lies at least one cell within the border. -/
lemma place_in_box {x : ℝ} (hs : 0 < s) (hlow : x₀ ≤ x) (hhigh : x ≤ x₁) :
    1 ≤ (x - (x₀ - s)) / s ∧ (x - (x₀ - s)) / s ≤ ⌈(x₁ - x₀) / s⌉₊ + 1 := by
  constructor
  · rw [le_div_iff₀ hs]
    linarith
  · calc (x - (x₀ - s)) / s ≤ (x₁ - x₀) / s + 1 := by
          rw [div_add_one hs.ne', div_le_div_iff_of_pos_right hs]
          linarith
      _ ≤ ⌈(x₁ - x₀) / s⌉₊ + 1 := by linarith [Nat.le_ceil ((x₁ - x₀) / s)]

/-- A position in the box is nearest to a cell off the border, and no further than half a cell from
its centre in each coordinate. -/
lemma nearestCell_overBox (hs : 0 < s) {x y : ℝ} (hx : x₀ ≤ x ∧ x ≤ x₁) (hy : y₀ ≤ y ∧ y ≤ y₁) :
    ∃ c, (overBox x₀ y₀ x₁ y₁ s).nearestCell ⟨real x, real y⟩ = c ∧
      (overBox x₀ y₀ x₁ y₁ s).Inner c ∧ |(c.1 : ℝ) - (x - (x₀ - s)) / s| ≤ 1 / 2 ∧
      |(c.2 : ℝ) - (y - (y₀ - s)) / s| ≤ 1 / 2 := by
  have hplace (x x₀ : ℝ) : (real x - real (x₀ - s)) / real s = real ((x - (x₀ - s)) / s) := by
    rw [real_sub_real, real_div_real _ hs.ne']
  obtain ⟨hxlow, hxhigh⟩ := place_in_box hs hx.1 hx.2
  obtain ⟨hylow, hyhigh⟩ := place_in_box hs hy.1 hy.2
  obtain ⟨hi, hi'⟩ := nearestBelow_spec hxlow hxhigh
  obtain ⟨hj, hj'⟩ := nearestBelow_spec hylow hyhigh
  refine ⟨_, congrArg₂ Prod.mk ?_ ?_, ⟨hi, hj⟩, hi', hj'⟩
  · exact congrArg (nearestBelow · _) (hplace x x₀)
  · exact congrArg (nearestBelow · _) (hplace y y₀)

/-- A cell with its centre in the box is off the border. -/
lemma inner_of_inBox (hs : 0 < s) {c : Cell}
    (hc : ((overBox x₀ y₀ x₁ y₁ s).centre c).InBox ⟨real x₀, real y₀⟩ ⟨real x₁, real y₁⟩) :
    (overBox x₀ y₀ x₁ y₁ s).Inner c := by
  have axis {x₀ x₁ : ℝ} {i : ℕ} (h : x₀ ≤ x₀ - s + i * s ∧ x₀ - s + i * s ≤ x₁) :
      0 < i ∧ i + 1 < ⌈(x₁ - x₀) / s⌉₊ + 3 := by
    have hplace := place_in_box hs h.1 h.2
    rw [add_sub_cancel_left, mul_div_cancel_right₀ _ hs.ne'] at hplace
    have hlow : 1 ≤ i := by exact_mod_cast hplace.1
    have hhigh : i ≤ ⌈(x₁ - x₀) / s⌉₊ + 1 := by exact_mod_cast hplace.2
    omega
  exact ⟨axis hc.1, axis hc.2⟩

end RectGrid

namespace Trace

variable {a b c : Cell}

/-- After `k` steps a line is within half a cell of the ideal line along both axes. -/
lemma moved_near {k : Nat} (hk : k ≤ longer a b) :
    |((moved a b k).1 : ℝ) - k / longer a b * columns a b| ≤ 1 / 2 ∧
      |((moved a b k).2 : ℝ) - k / longer a b * rows a b| ≤ 1 / 2 := by
  rcases Nat.eq_zero_or_pos (longer a b) with hzero | hpos
  · obtain rfl : k = 0 := by omega
    simp
  · have hlength : (0 : ℝ) < longer a b := Nat.cast_pos.2 hpos
    -- Along its longer axis the line is where the ideal line is, across it the drift is rounded.
    have halong : |(k : ℝ) - k / longer a b * longer a b| ≤ 1 / 2 := by
      rw [div_mul_cancel₀ _ hlength.ne', sub_self, abs_zero]
      norm_num
    have hacross : |(drift a b k : ℝ) - k / longer a b * shorter a b| ≤ 1 / 2 := by
      obtain ⟨hlow, hhigh⟩ := drift_bounds hpos k
      have hlow' : (2 : ℝ) * (drift a b k * longer a b) ≤ 2 * (k * shorter a b) + longer a b := by
        exact_mod_cast hlow
      have hhigh' : (2 : ℝ) * (k * shorter a b) < 2 * (drift a b k * longer a b) + longer a b := by
        exact_mod_cast hhigh
      rw [div_mul_eq_mul_div, sub_div' hlength.ne', abs_div, abs_of_pos hlength,
        div_le_iff₀ hlength, abs_le]
      constructor <;> linarith
    unfold moved
    split
    · rename_i h
      rw [← (axes_of_wide h).1, ← (axes_of_wide h).2]
      exact ⟨halong, hacross⟩
    · rename_i h
      rw [← (axes_of_tall h).1, ← (axes_of_tall h).2]
      exact ⟨hacross, halong⟩

lemma towards_near {i j m : ℕ} {t e : ℝ} (hm : m ≤ (j - i : Int).natAbs)
    (h : |(m : ℝ) - t * (j - i : Int).natAbs| ≤ e) :
    |(towards i j m : ℝ) - (i + t * (j - i))| ≤ e := by
  unfold towards
  split
  · rename_i hij
    have hlength : (((j - i : Int).natAbs : ℕ) : ℝ) = j - i := by
      rw [Nat.cast_natAbs, abs_of_nonneg (by omega)]
      push_cast
      rfl
    rw [hlength] at h
    convert h using 2
    push_cast
    ring
  · rename_i hij
    have hlength : (((j - i : Int).natAbs : ℕ) : ℝ) = i - j := by
      rw [Nat.cast_natAbs, abs_of_nonpos (by omega)]
      push_cast
      ring
    rw [hlength, ← abs_neg] at h
    convert h using 2
    rw [Nat.cast_sub (by omega)]
    ring

/-- Moving both ends by no more than `e` moves what lies between them by no more than `e`. -/
lemma lerp_near {u v u' v' t e : ℝ} (hu : |u' - u| ≤ e) (hv : |v' - v| ≤ e)
    (ht : 0 ≤ t ∧ t ≤ 1) : |(u' + t * (v' - u')) - (u + t * (v - u))| ≤ e := by
  have hrest : 0 ≤ 1 - t := sub_nonneg.2 ht.2
  calc |(u' + t * (v' - u')) - (u + t * (v - u))|
      = |(1 - t) * (u' - u) + t * (v' - v)| := by ring_nf
    _ ≤ |(1 - t) * (u' - u)| + |t * (v' - v)| := abs_add_le _ _
    _ = (1 - t) * |u' - u| + t * |v' - v| := by
        rw [abs_mul, abs_mul, abs_of_nonneg hrest, abs_of_nonneg ht.1]
    _ ≤ (1 - t) * e + t * e :=
        add_le_add (mul_le_mul_of_nonneg_left hu hrest) (mul_le_mul_of_nonneg_left hv ht.1)
    _ = e := by ring

/-- The rounding of both ends and the rounding of each step add up to no more than one cell. -/
theorem exists_near {u v w z : ℝ} (ha : |(a.1 : ℝ) - u| ≤ 1 / 2 ∧ |(a.2 : ℝ) - v| ≤ 1 / 2)
    (hb : |(b.1 : ℝ) - w| ≤ 1 / 2 ∧ |(b.2 : ℝ) - z| ≤ 1 / 2) (hc : c ∈ lineBetween a b) :
    ∃ t : ℝ, (0 ≤ t ∧ t ≤ 1) ∧ |(c.1 : ℝ) - (u + t * (w - u))| ≤ 1 ∧
      |(c.2 : ℝ) - (v + t * (z - v))| ≤ 1 := by
  obtain ⟨k, hk, rfl⟩ := mem_lineBetween.1 hc
  have ht : 0 ≤ (k : ℝ) / longer a b ∧ (k : ℝ) / longer a b ≤ 1 :=
    ⟨by positivity, div_le_one_of_le₀ (Nat.cast_le.2 hk) (Nat.cast_nonneg _)⟩
  obtain ⟨hcolumns, hrows⟩ := moved_le hk
  obtain ⟨hx, hy⟩ := moved_near hk
  have axis {i j m : ℕ} {t u w : ℝ} (hstep : |(towards i j m : ℝ) - (i + t * (j - i))| ≤ 1 / 2)
      (hends : |(i + t * (j - i)) - (u + t * (w - u))| ≤ 1 / 2) :
      |(towards i j m : ℝ) - (u + t * (w - u))| ≤ 1 := by
    calc |(towards i j m : ℝ) - (u + t * (w - u))|
        ≤ |(towards i j m : ℝ) - (i + t * (j - i))| + |(i + t * (j - i)) - (u + t * (w - u))| :=
          abs_sub_le _ _ _
      _ ≤ 1 := by linarith
  exact ⟨_, ht, axis (towards_near hcolumns hx) (lerp_near ha.1 hb.1 ht),
    axis (towards_near hrows hy) (lerp_near ha.2 hb.2 ht)⟩

end Trace

namespace RectGrid

lemma inner_of_mem_lineBetween {g : RectGrid Exact} {a b c : Cell} (ha : g.Inner a)
    (hb : g.Inner b) (hc : c ∈ lineBetween a b) : g.Inner c := by
  obtain ⟨hx, hy⟩ := Trace.mem_uIcc_of_mem_lineBetween hc
  rw [Set.mem_uIcc] at hx hy
  unfold Inner at *
  omega

/-- What is a number of cells from a place is that number of sides from the coordinate. -/
lemma within_of_place {o s q e : ℝ} (hs : 0 < s) {i : ℕ} (h : |(i : ℝ) - (q - o) / s| ≤ e) :
    q - e * s ≤ o + i * s ∧ o + i * s ≤ q + e * s := by
  have hscale : o + i * s - q = (i - (q - o) / s) * s := by
    field_simp
    ring
  have hle : |o + i * s - q| ≤ e * s := by
    rw [hscale, abs_mul, abs_of_pos hs]
    exact mul_le_mul_of_nonneg_right h hs.le
  obtain ⟨hlow, hhigh⟩ := abs_le.1 hle
  constructor <;> linarith

/-- A place no more than one cell from a fraction of the way between two others is no further than
the side of a cell from that fraction between their coordinates. -/
lemma within_of_line {o s p q t : ℝ} (hs : 0 < s) {i : ℕ}
    (h : |(i : ℝ) - ((p - o) / s + t * ((q - o) / s - (p - o) / s))| ≤ 1) :
    p + (q - p) * t - s ≤ o + i * s ∧ o + i * s ≤ p + (q - p) * t + s := by
  have hplace : (p - o) / s + t * ((q - o) / s - (p - o) / s) = (p + (q - p) * t - o) / s := by
    field_simp
    ring
  rw [hplace] at h
  simpa only [one_mul] using within_of_place hs h

variable {zone : Zone} {lo hi : Point Exact} {h : Exact} {g : RectGrid Exact}

/-- A cell of a segment in the box is off the border and near a point of the segment. -/
lemma near_of_mem_cellsOn (hg : covering zone lo hi h = .ok g) {line : Segment Exact}
    (hstart : line.start.InBox lo hi) (hstop : line.stop.InBox lo hi) {c : Cell}
    (hc : c ∈ g.cellsOn line) :
    g.Inner c ∧ ∃ t : ℝ, (0 ≤ t ∧ t ≤ 1) ∧ (g.centre c).Within h (line.pointAt (real t)) := by
  obtain ⟨x₀, y₀, x₁, y₁, s, hs, rfl, rfl, rfl, rfl⟩ := exists_overBox hg
  obtain ⟨start, stop⟩ := line
  obtain ⟨px, py, rfl⟩ := (hstart.isFinite ⟨rfl, rfl⟩ ⟨rfl, rfl⟩).exists_real
  obtain ⟨qx, qy, rfl⟩ := (hstop.isFinite ⟨rfl, rfl⟩ ⟨rfl, rfl⟩).exists_real
  obtain ⟨a, ha, hainner, hanear⟩ := nearestCell_overBox hs hstart.1 hstart.2
  obtain ⟨b, hb, hbinner, hbnear⟩ := nearestCell_overBox hs hstop.1 hstop.2
  rw [cellsOn, ha, hb] at hc
  obtain ⟨t, ht, hx, hy⟩ := Trace.exists_near hanear hbnear hc
  refine ⟨inner_of_mem_lineBetween hainner hbinner hc, t, ht, ?_⟩
  rw [Segment.pointAt_real, centre_overBox, Point.Within]
  simp only [real_sub_real, real_add_real]
  exact ⟨within_of_line hs hx, within_of_line hs hy⟩

lemma targets_inBox {plan : FloorPlan Exact} (hbox : Point.boundingBox plan.corners = some (lo, hi))
    {line : Segment Exact} (hline : line ∈ plan.targets.values) (hstart : line.start.IsNumber)
    (hstop : line.stop.IsNumber) : line.start.InBox lo hi ∧ line.stop.InBox lo hi := by
  obtain ⟨hstart', hstop'⟩ := FloorPlan.ends_mem_corners hline
  exact ⟨Point.inBox_of_mem hbox hstart' hstart, Point.inBox_of_mem hbox hstop' hstop⟩

/-- The cells of a segment in the box are near the segment and off the border, and so places of any
lattice of the size of the grid. The lines of a plan's targets are in the box of the plan. -/
theorem cellsOn_near (hg : covering zone lo hi h = .ok g) :
    (∀ line : Segment Exact, line.start.InBox lo hi → line.stop.InBox lo hi →
      ∀ c ∈ g.cellsOn line,
        (∃ t : ℝ, (0 ≤ t ∧ t ≤ 1) ∧ (g.centre c).Within h (line.pointAt (real t))) ∧ g.Inner c ∧
          ∀ l : Lattice CellKind, l.width = g.width → l.height = g.height → l.Has c) ∧
    ∀ plan : FloorPlan Exact, Point.boundingBox plan.corners = some (lo, hi) →
      ∀ line ∈ plan.targets.values, line.start.IsNumber → line.stop.IsNumber →
        line.start.InBox lo hi ∧ line.stop.InBox lo hi := by
  refine ⟨fun line hstart hstop c hc => ?_, fun plan hbox line hline => targets_inBox hbox hline⟩
  obtain ⟨hinner, hnear⟩ := near_of_mem_cellsOn hg hstart hstop hc
  refine ⟨hnear, hinner, fun l hwidth hheight => ?_⟩
  unfold Inner at hinner
  rw [Lattice.Has, hwidth, hheight]
  omega

open FloorPlan in
/-- A line on the grid of the square room with one end halfway between two columns and the other
halfway between two rows. The cell `(3, 2)` is on it. -/
theorem cellsOn_near_sloping :
    (3, 2) ∈ squareGrid.cellsOn ⟨⟨real (1 / 2), real 0⟩, ⟨real 2, real (3 / 2)⟩⟩ ∧
    (∃ t : ℝ, (0 ≤ t ∧ t ≤ 1) ∧ (squareGrid.centre (3, 2)).Within (real 1)
      ((⟨⟨real (1 / 2), real 0⟩, ⟨real 2, real (3 / 2)⟩⟩ : Segment Exact).pointAt (real t))) ∧
    squareGrid.Inner (3, 2) ∧ ((square 2).layout squareGrid).Has (3, 2) ∧
    ∀ line ∈ (square 2).targets.values,
      line.start.InBox ⟨real 0, real 0⟩ ⟨real 2, real 2⟩ ∧
        line.stop.InBox ⟨real 0, real 0⟩ ⟨real 2, real 2⟩ := by
  have hmem : ((3, 2) : Cell) ∈
      squareGrid.cellsOn ⟨⟨real (1 / 2), real 0⟩, ⟨real 2, real (3 / 2)⟩⟩ := by
    have hstart : squareGrid.nearestCell ⟨real (1 / 2), real 0⟩ = (2, 1) :=
      nearestCell_square (by norm_num) (by norm_num)
    have hstop : squareGrid.nearestCell ⟨real 2, real (3 / 2)⟩ = (3, 3) :=
      nearestCell_square (by norm_num) (by norm_num)
    rw [cellsOn, hstart, hstop]
    decide
  have hbox {x y : ℝ} (hx : 0 ≤ x ∧ x ≤ 2) (hy : 0 ≤ y ∧ y ≤ 2) :
      (⟨real x, real y⟩ : Point Exact).InBox ⟨real 0, real 0⟩ ⟨real 2, real 2⟩ := ⟨hx, hy⟩
  obtain ⟨hcells, htargets⟩ := cellsOn_near covering_square
  obtain ⟨hnear, hinner, hplace⟩ := hcells ⟨⟨real (1 / 2), real 0⟩, ⟨real 2, real (3 / 2)⟩⟩
    (hbox (by norm_num) (by norm_num)) (hbox (by norm_num) (by norm_num)) (3, 2) hmem
  obtain ⟨hwidth, hheight⟩ := shape_layout (square 2) squareGrid
  refine ⟨hmem, hnear, hinner, hplace _ hwidth hheight, fun line hline => ?_⟩
  refine htargets (square 2) boundingBox_square line hline ?_ ?_
  · obtain rfl := List.mem_singleton.1 hline
    exact ⟨rfl, rfl⟩
  · obtain rfl := List.mem_singleton.1 hline
    exact ⟨rfl, rfl⟩

end RectGrid

end Egress
