import Egress.Proofs.Geometry
import Egress.Geometry.Polygon

/-!
# Nearest points of segments

The line through a segment is nearest to a position at the foot of the perpendicular. The distance
grows with the way from the foot, to either side, so held to the segment the foot is nearest on it.
A degenerate segment has a single point.
-/
namespace Egress
open Exact

/-- A value held to the unit interval is between the value and everything in the interval. -/
lemma mul_clamp_nonneg (c : ℝ) {t : ℝ} (h0 : 0 ≤ t) (h1 : t ≤ 1) :
    0 ≤ (t - min (max c 0) 1) * (min (max c 0) 1 - c) := by
  rcases le_total c 0 with hc | hc
  · rw [max_eq_right hc, min_eq_left zero_le_one]
    exact mul_nonneg (by linarith) (by linarith)
  · rw [max_eq_left hc]
    rcases le_total c 1 with hc1 | hc1
    · rw [min_eq_left hc1, sub_self, mul_zero]
    · rw [min_eq_right hc1]
      exact mul_nonneg_of_nonpos_of_nonpos (by linarith) (by linarith)

/-- Of two places on a line, that between the other and the foot of the perpendicular is nearer. -/
lemma sq_add_sq_le_of_foot {x y dx dy u t : ℝ} (hn : 0 < dx * dx + dy * dy)
    (h : 0 ≤ (t - u) * (u - (x * dx + y * dy) / (dx * dx + dy * dy))) :
    (x - dx * u) ^ 2 + (y - dy * u) ^ 2 ≤ (x - dx * t) ^ 2 + (y - dy * t) ^ 2 := by
  have hfoot : 0 ≤ (t - u) * (u * (dx * dx + dy * dy) - (x * dx + y * dy)) := by
    have hscaled := mul_nonneg h hn.le
    rwa [mul_assoc, sub_mul u, div_mul_cancel₀ _ hn.ne'] at hscaled
  have hgrowth : (x - dx * t) ^ 2 + (y - dy * t) ^ 2 = (x - dx * u) ^ 2 + (y - dy * u) ^ 2 +
      (dx * dx + dy * dy) * (t - u) ^ 2 +
      2 * ((t - u) * (u * (dx * dx + dy * dy) - (x * dx + y * dy))) := by ring
  linarith [mul_nonneg hn.le (sq_nonneg (t - u))]

namespace Segment

def IsFinite (s : Segment Exact) : Prop := s.start.IsFinite ∧ s.stop.IsFinite

def Has (s : Segment Exact) (q : Point Exact) : Prop :=
  ∃ t : ℝ, (0 ≤ t ∧ t ≤ 1) ∧ q = s.pointAt (real t)

variable {s : Segment Exact} {p q : Point Exact}

lemma IsFinite.exists_real (hs : s.IsFinite) :
    ∃ x y x' y', s = ⟨⟨real x, real y⟩, ⟨real x', real y'⟩⟩ := by
  obtain ⟨start, stop⟩ := s
  obtain ⟨x, y, rfl⟩ := hs.1.exists_real
  obtain ⟨x', y', rfl⟩ := hs.2.exists_real
  exact ⟨x, y, x', y', rfl⟩

lemma Has.isFinite (hs : s.IsFinite) (h : s.Has q) : q.IsFinite := by
  obtain ⟨x, y, x', y', rfl⟩ := hs.exists_real
  obtain ⟨t, -, rfl⟩ := h
  rw [pointAt_real]
  exact ⟨rfl, rfl⟩

/-- On real coordinates the nearest point is at a fraction of the way at which the square of the
distance is least. -/
lemma exists_nearestPoint_eq (x y x' y' px py : ℝ) : ∃ u : ℝ, (0 ≤ u ∧ u ≤ 1) ∧
    (⟨⟨real x, real y⟩, ⟨real x', real y'⟩⟩ : Segment Exact).nearestPoint ⟨real px, real py⟩ =
      (⟨⟨real x, real y⟩, ⟨real x', real y'⟩⟩ : Segment Exact).pointAt (real u) ∧
    ∀ t : ℝ, 0 ≤ t → t ≤ 1 →
      (px - x - (x' - x) * u) ^ 2 + (py - y - (y' - y) * u) ^ 2 ≤
        (px - x - (x' - x) * t) ^ 2 + (py - y - (y' - y) * t) ^ 2 := by
  have hextent : (⟨⟨real x, real y⟩, ⟨real x', real y'⟩⟩ : Segment Exact).extent =
      ⟨real (x' - x), real (y' - y)⟩ := Point.sub_real x' y' x y
  have hnormSq : (⟨real (x' - x), real (y' - y)⟩ : Vec Exact).normSq =
      real ((x' - x) * (x' - x) + (y' - y) * (y' - y)) := Vec.dot_real _ _ _ _
  unfold nearestPoint
  rw [hextent, hnormSq]
  by_cases hdegenerate : (x' - x) * (x' - x) + (y' - y) * (y' - y) = 0
  · obtain ⟨hx, hy⟩ : x' - x = 0 ∧ y' - y = 0 := by
      rwa [mul_self_add_mul_self_eq_zero] at hdegenerate
    refine ⟨0, ⟨le_rfl, zero_le_one⟩, ?_, fun t _ _ => ?_⟩
    · rw [if_pos (real_beq_zero.2 hdegenerate), pointAt_real]
      simp only [mul_zero, add_zero]
    · simp only [hx, hy, zero_mul, le_refl]
  · have hpos : 0 < (x' - x) * (x' - x) + (y' - y) * (y' - y) :=
      lt_of_le_of_ne (add_nonneg (mul_self_nonneg _) (mul_self_nonneg _)) (Ne.symm hdegenerate)
    refine ⟨min (max (((px - x) * (x' - x) + (py - y) * (y' - y)) /
      ((x' - x) * (x' - x) + (y' - y) * (y' - y))) 0) 1,
      ⟨le_min (le_max_right _ _) zero_le_one, min_le_right _ _⟩, ?_, fun t h0 h1 => ?_⟩
    · rw [if_neg (mt real_beq_zero.1 hdegenerate), nearestFraction, hextent, Point.sub_real,
        Vec.dot_real, hnormSq, real_div_real _ hdegenerate, zero_eq, one_eq, larger_real,
        smaller_real]
    · exact sq_add_sq_le_of_foot hpos (mul_clamp_nonneg _ h0 h1)

/-- The nearest point is a point of the segment, and none is nearer. -/
theorem nearestPoint_spec (hs : s.IsFinite) (hp : p.IsFinite) :
    s.Has (s.nearestPoint p) ∧ ∀ q, s.Has q → (s.nearestPoint p).dist p ≤ q.dist p := by
  obtain ⟨x, y, x', y', rfl⟩ := hs.exists_real
  obtain ⟨px, py, rfl⟩ := hp.exists_real
  obtain ⟨u, hu, hnearest, hleast⟩ := exists_nearestPoint_eq x y x' y' px py
  refine ⟨⟨u, hu, hnearest⟩, ?_⟩
  rintro q ⟨t, ⟨h0, h1⟩, rfl⟩
  have hsq (w : ℝ) : (x + (x' - x) * w - px) ^ 2 + (y + (y' - y) * w - py) ^ 2 =
      (px - x - (x' - x) * w) ^ 2 + (py - y - (y' - y) * w) ^ 2 := by ring
  rw [hnearest, pointAt_real, pointAt_real, Point.dist_eq_real, Point.dist_eq_real, real_le_real,
    Complex.dist_mk, Complex.dist_mk, hsq, hsq]
  exact Real.sqrt_le_sqrt (hleast t h0 h1)

end Segment

end Egress
