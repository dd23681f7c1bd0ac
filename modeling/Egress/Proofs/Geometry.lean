import Egress.Proofs.Exact
import Egress.Geometry.Segment

/-!
# Positions

On positions with real coordinates distances are those of the plane. Corners that are numbers lie in
the box around them, whatever their order.
-/
namespace Egress
open Exact

lemma Vec.norm_real (a b : ℝ) : (⟨real a, real b⟩ : Vec Exact).norm = real √(a * a + b * b) :=
  sqrt_real (add_nonneg (mul_self_nonneg a) (mul_self_nonneg b))

lemma Vec.dot_real (a b a' b' : ℝ) :
    (⟨real a, real b⟩ : Vec Exact).dot ⟨real a', real b'⟩ = real (a * a' + b * b') := rfl

namespace Point

/-- The positions whose coordinates are real numbers. -/
def IsFinite (p : Point Exact) : Prop :=
  Scalar.isFinite p.x = true ∧ Scalar.isFinite p.y = true

lemma IsFinite.exists_real {p : Point Exact} (hp : p.IsFinite) :
    ∃ x y, p = ⟨real x, real y⟩ := by
  obtain ⟨x, hx⟩ := isFinite_iff.1 hp.1
  obtain ⟨y, hy⟩ := isFinite_iff.1 hp.2
  exact ⟨x, y, by rw [← hx, ← hy]⟩

lemma sub_real (x y x' y' : ℝ) : ((⟨real x, real y⟩ : Point Exact) -
    (⟨real x', real y'⟩ : Point Exact) : Vec Exact) = ⟨real (x - x'), real (y - y')⟩ :=
  congrArg₂ Vec.mk (real_sub_real x x') (real_sub_real y y')

/-- On real coordinates the distance is that of the plane. -/
lemma dist_eq_real (x y x' y' : ℝ) :
    dist (⟨real x, real y⟩ : Point Exact) ⟨real x', real y'⟩ =
      real (Dist.dist (⟨x, y⟩ : ℂ) ⟨x', y'⟩) := by
  rw [dist, sub_real, Vec.norm_real, Complex.dist_mk, sq, sq]

/-- Only positions with real coordinates are at a real distance. -/
lemma isFinite_of_dist {p q : Point Exact} {z : ℝ} (h : p.dist q = real z) :
    p.IsFinite ∧ q.IsFinite := by
  obtain ⟨w, hw⟩ := real_of_sqrt h
  obtain ⟨⟨x, hx⟩, y, hy⟩ := real_of_add hw
  obtain ⟨hpx, hqx⟩ := real_of_sub (real_of_mul hx).1.choose_spec
  obtain ⟨hpy, hqy⟩ := real_of_sub (real_of_mul hy).1.choose_spec
  exact ⟨⟨isFinite_iff.2 hpx, isFinite_iff.2 hpy⟩, isFinite_iff.2 hqx, isFinite_iff.2 hqy⟩

/-- No distance is between a position of the plane and itself only. -/
lemma eq_of_dist_eq_zero {p q : Point Exact} (h : p.dist q = real 0) : p.IsFinite ∧ p = q := by
  obtain ⟨hp, hq⟩ := isFinite_of_dist h
  obtain ⟨x, y, rfl⟩ := hp.exists_real
  obtain ⟨x', y', rfl⟩ := hq.exists_real
  rw [dist_eq_real, real_inj, dist_eq_zero, Complex.mk.injEq] at h
  exact ⟨hp, by rw [h.1, h.2]⟩

/-- Distances to what is no position of the plane are not compared. -/
lemma not_dist_lt {p q : Point Exact} (h : ¬(p.IsFinite ∧ q.IsFinite)) (d : Exact) :
    ¬p.dist q < d := by
  have hweight : (p.dist q).IsWeight := isWeight_sqrt _
  cases hd : p.dist q with
  | real z => exact absurd (isFinite_of_dist hd) h
  | posInf => exact not_posInf_lt d
  | negInf => exact absurd hd hweight.2
  | nan => exact not_nan_lt d

/-- The positions whose coordinates are numbers, infinities among them. -/
def IsNumber (p : Point Exact) : Prop := Scalar.isNaN p.x = false ∧ Scalar.isNaN p.y = false

lemma IsFinite.isNumber {p : Point Exact} (hp : p.IsFinite) : p.IsNumber := by
  obtain ⟨x, y, rfl⟩ := hp.exists_real
  exact ⟨rfl, rfl⟩

/-- The positions in the upright rectangle with the corners `lo` and `hi`. -/
def InBox (p lo hi : Point Exact) : Prop := (lo.x ≤ p.x ∧ p.x ≤ hi.x) ∧ lo.y ≤ p.y ∧ p.y ≤ hi.y

/-- The positions that are no further than `d` from `q` in each coordinate. -/
def Within (d : Exact) (p q : Point Exact) : Prop :=
  p.InBox ⟨q.x - d, q.y - d⟩ ⟨q.x + d, q.y + d⟩

theorem boundingBox_cons (p : Point Exact) (ps : List (Point Exact)) :
    boundingBox (p :: ps) =
      some (⟨least ((p :: ps).map x), least ((p :: ps).map y)⟩,
        ⟨greatest ((p :: ps).map x), greatest ((p :: ps).map y)⟩) := by
  obtain ⟨grow, hgrow, hbox⟩ : ∃ grow : Point Exact × Point Exact → Point Exact → _,
      (∀ box q, grow box q =
        (⟨Scalar.smaller box.1.x q.x, Scalar.smaller box.1.y q.y⟩,
          ⟨Scalar.larger box.2.x q.x, Scalar.larger box.2.y q.y⟩)) ∧
      boundingBox (p :: ps) = some (ps.foldl grow (p, p)) := ⟨_, fun _ _ => rfl, rfl⟩
  have foldl_grow (lo hi : Point Exact) : ps.foldl grow (lo, hi) =
      (⟨(ps.map x).foldl Scalar.smaller lo.x, (ps.map y).foldl Scalar.smaller lo.y⟩,
        ⟨(ps.map x).foldl Scalar.larger hi.x, (ps.map y).foldl Scalar.larger hi.y⟩) := by
    clear hbox
    induction ps generalizing lo hi with
    | nil => rfl
    | cons q ps ih => simp only [List.foldl_cons, List.map_cons, hgrow, ih]
  rw [hbox, foldl_grow]
  rfl

theorem boundingBox_perm {ps qs : List (Point Exact)} (h : ps.Perm qs) :
    boundingBox ps = boundingBox qs := by
  cases ps with
  | nil => rw [List.nil_perm.1 h]
  | cons p ps =>
    cases qs with
    | nil => exact absurd h List.not_perm_cons_nil
    | cons q qs =>
      rw [boundingBox_cons, boundingBox_cons, least_perm (h.map x), least_perm (h.map y),
        greatest_perm (h.map x), greatest_perm (h.map y)]

theorem inBox_of_mem {ps : List (Point Exact)} {lo hi p : Point Exact}
    (hbox : boundingBox ps = some (lo, hi)) (hp : p ∈ ps) (hnum : p.IsNumber) : p.InBox lo hi := by
  have hx : p.x ∈ ps.map x := List.mem_map_of_mem hp
  have hy : p.y ∈ ps.map y := List.mem_map_of_mem hp
  cases ps with
  | nil => exact absurd hp List.not_mem_nil
  | cons q ps =>
    rw [boundingBox_cons] at hbox
    simp only [Option.some.injEq, Prod.mk.injEq] at hbox
    obtain ⟨rfl, rfl⟩ := hbox
    exact ⟨⟨least_le hx hnum.1, le_greatest hx hnum.1⟩, least_le hy hnum.2, le_greatest hy hnum.2⟩

theorem exists_boundingBox {ps : List (Point Exact)} (h : ps ≠ []) (hfin : ∀ p ∈ ps, p.IsFinite) :
    ∃ x₀ y₀ x₁ y₁, boundingBox ps = some (⟨real x₀, real y₀⟩, ⟨real x₁, real y₁⟩) ∧
      x₀ ≤ x₁ ∧ y₀ ≤ y₁ := by
  obtain ⟨x₀, x₁, hx₀, hx₁, hx⟩ := least_le_greatest (mt List.map_eq_nil_iff.1 h)
    (List.forall_mem_map.2 fun p hp => (hfin p hp).1)
  obtain ⟨y₀, y₁, hy₀, hy₁, hy⟩ := least_le_greatest (mt List.map_eq_nil_iff.1 h)
    (List.forall_mem_map.2 fun p hp => (hfin p hp).2)
  cases ps with
  | nil => exact absurd rfl h
  | cons p ps => exact ⟨x₀, y₀, x₁, y₁, by rw [boundingBox_cons, hx₀, hx₁, hy₀, hy₁], hx, hy⟩

theorem InBox.isFinite {lo hi p : Point Exact} (hlo : lo.IsFinite) (hhi : hi.IsFinite)
    (h : p.InBox lo hi) : p.IsFinite :=
  ⟨isFinite_of_le hlo.1 hhi.1 h.1.1 h.1.2, isFinite_of_le hlo.2 hhi.2 h.2.1 h.2.2⟩

end Point

/-- Between ends with real coordinates the points of a segment are those of the plane. -/
lemma Segment.pointAt_real (x y x' y' t : ℝ) :
    (⟨⟨real x, real y⟩, ⟨real x', real y'⟩⟩ : Segment Exact).pointAt (real t) =
      ⟨real (x + (x' - x) * t), real (y + (y' - y) * t)⟩ := by
  have hcoord (x x' : ℝ) : real x + (real x' - real x) * real t = real (x + (x' - x) * t) := by
    rw [real_sub_real, real_mul_real, real_add_real]
  exact congrArg₂ Point.mk (hcoord x x') (hcoord y y')

end Egress
