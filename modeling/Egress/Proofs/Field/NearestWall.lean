import Egress.Proofs.Geometry.Segment
import Egress.Proofs.Geometry.Polygon
import Egress.Proofs.MinHeap
import Egress.Proofs.Outcome
import Egress.Field.Steering

/-!
# Walls without floor fields

Without floor fields the walls are looked for where they are: of each wall and each edge of an
obstacle the nearest point is taken, and of these the nearest. Both questions, how far the walls are
and where, are answered by that one point.
-/
namespace Egress
open Exact

/-- A vector is its length times its unit vector, which has the length one unless the vector is
zero. -/
lemma Vec.unit_real (a b : ℝ) : ∃ v w : ℝ,
    (⟨real a, real b⟩ : Vec Exact).unit = ⟨real v, real w⟩ ∧
      v * √(a * a + b * b) = a ∧ w * √(a * a + b * b) = b ∧
      (√(a * a + b * b) ≠ 0 → √(v * v + w * w) = 1) := by
  have hnonneg : 0 ≤ a * a + b * b := add_nonneg (mul_self_nonneg a) (mul_self_nonneg b)
  unfold unit
  rw [norm_real, zero_eq]
  by_cases hpos : 0 < √(a * a + b * b)
  · refine ⟨a / √(a * a + b * b), b / √(a * a + b * b), ?_, div_mul_cancel₀ a hpos.ne',
      div_mul_cancel₀ b hpos.ne', fun _ => ?_⟩
    · rw [if_pos (real_lt_real.2 hpos), shrink, real_div_real _ hpos.ne', real_div_real _ hpos.ne']
    · rw [Real.sqrt_eq_one, div_mul_div_comm, div_mul_div_comm, Real.mul_self_sqrt hnonneg,
        ← add_div, div_self (Real.sqrt_pos.1 hpos).ne']
  · have hzero : √(a * a + b * b) = 0 := le_antisymm (not_lt.1 hpos) (Real.sqrt_nonneg _)
    obtain ⟨rfl, rfl⟩ : a = 0 ∧ b = 0 := by
      rwa [Real.sqrt_eq_zero hnonneg, mul_self_add_mul_self_eq_zero] at hzero
    exact ⟨0, 0, if_neg (mt real_lt_real.1 hpos), zero_mul _, zero_mul _, fun h => absurd hzero h⟩

/-- Going from `p` in the unit direction of `q` as far as `q` is away, one arrives at `q`. -/
lemma Point.add_unit_scale {p q : Point Exact} (hp : p.IsFinite) (hq : q.IsFinite) :
    p + (q - p : Vec Exact).unit.scale (q.dist p) = q ∧
      (q.dist p ≠ real 0 → (q - p : Vec Exact).unit.norm = real 1) := by
  obtain ⟨x, y, rfl⟩ := hp.exists_real
  obtain ⟨x', y', rfl⟩ := hq.exists_real
  obtain ⟨v, w, hunit, hv, hw, hnorm⟩ := Vec.unit_real (x' - x) (y' - y)
  rw [dist, sub_real, hunit, Vec.norm_real, Vec.norm_real, real_inj, ne_eq, real_inj]
  refine ⟨?_, hnorm⟩
  change (⟨real x + real v * _, real y + real w * _⟩ : Point Exact) = _
  rw [real_mul_real, real_mul_real, real_add_real, real_add_real, hv, hw, add_sub_cancel,
    add_sub_cancel]

/-- The walls of a subroom and the edges of its obstacles. -/
def SubRoom.IsBarrier {α : Type} (sub : SubRoom α) (s : Segment α) : Prop :=
  s ∈ sub.walls ∨ ∃ o ∈ sub.obstacles, o.IsEdge s

lemma SubRoom.mem_barriers_iff {α : Type} {sub : SubRoom α} {s : Segment α} :
    s ∈ sub.barriers ↔ sub.IsBarrier s := by
  simp only [barriers, IsBarrier, List.mem_append, List.mem_flatMap, Polygon.mem_edges_iff]

/-- A point of the walls and obstacles of a subroom to which none of their points is nearer. -/
structure SubRoom.IsNearest (sub : SubRoom Exact) (p q : Point Exact) : Prop where
  onBarrier : ∃ s, sub.IsBarrier s ∧ s.Has q
  dist_le : ∀ s r, sub.IsBarrier s → s.Has r → q.dist p ≤ r.dist p

namespace Steering

/-- One of the points is picked, and none is nearer. -/
lemma nearestPoint?_cases (p : Point Exact) (qs : List (Point Exact)) :
    qs = [] ∧ nearestPoint? p qs = none ∨
      ∃ q ∈ qs, nearestPoint? p qs = some q ∧
        ∀ r ∈ qs, (q.dist p).place ≤ (r.dist p).place := by
  cases qs with
  | nil => exact .inl ⟨rfl, rfl⟩
  | cons q qs =>
    have hfirst := (MinHeap.Ranks.of_lt (fun r : Point Exact => (r.dist p).place)
      fun _ _ => precedes_iff _ _).foldl_first q qs
    refine .inr ⟨_, MinHeap.foldl_mem _ q qs, rfl, fun r hr => ?_⟩
    rw [← not_lt, ← precedes_iff, Bool.not_eq_true]
    exact hfirst r hr

section
variable {b : Building Exact} {a : Pedestrian Exact} {sub : SubRoom Exact}
  {params : FieldParams Exact} {st : Steering Exact}

/-- The nearest of the nearest points is nearest to a person, if there is a barrier at all. -/
lemma nearestBarrierPoint_cases (hsub : b.subroom a.subroom = .ok sub)
    (hfin : ∀ s, sub.IsBarrier s → s.IsFinite) (hp : a.position.IsFinite) :
    (∀ s, ¬sub.IsBarrier s) ∧ nearestBarrierPoint b a = .ok none ∨
      ∃ q, sub.IsNearest a.position q ∧ q.IsFinite ∧ nearestBarrierPoint b a = .ok (some q) := by
  simp only [nearestBarrierPoint, hsub]
  rcases nearestPoint?_cases a.position (sub.barriers.map (·.nearestPoint a.position)) with
    ⟨hnil, hnone⟩ | ⟨q, hq, hsome, hleast⟩
  · refine .inl ⟨fun s hs => ?_, congrArg _ hnone⟩
    exact List.ne_nil_of_mem (SubRoom.mem_barriers_iff.2 hs) (List.map_eq_nil_iff.1 hnil)
  · obtain ⟨s, hs, rfl⟩ := List.mem_map.1 hq
    have hbarrier := SubRoom.mem_barriers_iff.1 hs
    have hhas := (Segment.nearestPoint_spec (hfin s hbarrier) hp).1
    refine .inr ⟨_, ⟨⟨s, hbarrier, hhas⟩, fun s' r hs' hr => ?_⟩,
      hhas.isFinite (hfin s hbarrier), congrArg _ hsome⟩
    obtain ⟨-, hleast'⟩ := Segment.nearestPoint_spec (hfin s' hs') hp
    have hplace := hleast _ (List.mem_map_of_mem (SubRoom.mem_barriers_iff.2 hs'))
    obtain ⟨hle, hnum⟩ := le_iff_place.1 (hleast' r hr)
    exact le_iff_place.2 ⟨hplace.trans hle, hnum⟩

/-- Without floor fields both questions about walls are answered by a point of the barriers that is
nearest to the person: its distance is the distance to the walls, and it lies that far in the
direction of the walls. Where there is no barrier the walls are infinitely far. Of a single segment
the nearest point is one of its points, and none is nearer. -/
theorem toWall_nearest (hst : ofBuilding b params = .ok st) (hgran : params.granularity = .none)
    (hsub : b.subroom a.subroom = .ok sub) (hfin : ∀ s, sub.IsBarrier s → s.IsFinite)
    (hp : a.position.IsFinite) :
    (∃ d v, st.distanceToWall b a = .ok d ∧ st.directionToWall b a = .ok v ∧
      ((∀ s, ¬sub.IsBarrier s) → d = Scalar.infinity ∧ v = .zero) ∧
      ((∃ s, sub.IsBarrier s) → ∃ q, sub.IsNearest a.position q ∧ q.dist a.position = d ∧
        a.position + v.scale d = q ∧ (d ≠ real 0 → v.norm = real 1))) ∧
      ∀ (s : Segment Exact) (p : Point Exact), s.IsFinite → p.IsFinite →
        s.Has (s.nearestPoint p) ∧ ∀ q, s.Has q → (s.nearestPoint p).dist p ≤ q.dist p := by
  refine ⟨?_, fun s p => Segment.nearestPoint_spec⟩
  obtain rfl : st = ⟨.none, none⟩ := by
    rw [ofBuilding, hgran] at hst
    exact (Except.ok.inj hst).symm
  rcases nearestBarrierPoint_cases hsub hfin hp with ⟨hnone, hpoint⟩ | ⟨q, hq, hqfin, hpoint⟩
  · refine ⟨Scalar.infinity, .zero, ?_, ?_, fun _ => ⟨rfl, rfl⟩, fun ⟨s, hs⟩ => absurd hs (hnone s)⟩
    · simp only [distanceToWall, hpoint, ok_bind, pure_eq_ok]
    · simp only [directionToWall, hpoint, ok_bind, pure_eq_ok]
  · obtain ⟨harrive, hnorm⟩ := Point.add_unit_scale hp hqfin
    refine ⟨q.dist a.position, (q - a.position : Vec Exact).unit, ?_, ?_, fun hno => ?_,
      fun _ => ⟨q, hq, rfl, harrive, hnorm⟩⟩
    · simp only [distanceToWall, hpoint, ok_bind, pure_eq_ok]
    · simp only [directionToWall, hpoint, ok_bind, pure_eq_ok]
    · obtain ⟨s, hs, -⟩ := hq.onBarrier
      exact absurd hs (hno s)

end

/-- The point with two whole numbers as coordinates. -/
noncomputable def spot (x y : ℤ) : Point Exact := ⟨real x, real y⟩

lemma pointAt_spot (x y x' y' : ℤ) (t : ℝ) :
    (⟨spot x y, spot x' y'⟩ : Segment Exact).pointAt (real t) =
      ⟨real (x + (x' - x) * t), real (y + (y' - y) * t)⟩ :=
  Segment.pointAt_real x y x' y' t

lemma dist_spot_le_one (x y : ℝ) (x' y' : ℤ) :
    (⟨real x, real y⟩ : Point Exact).dist (spot x' y') ≤ real 1 ↔
      (x - x') ^ 2 + (y - y') ^ 2 ≤ 1 := by
  rw [spot, Point.dist_eq_real, Complex.dist_mk, real_le_real, Real.sqrt_le_one]

/-- A room with one wall and a pillar, a triangle with one upright side. -/
noncomputable def porch : SubRoom Exact where
  uid := 0
  room := 0
  kind := .entrance
  polygon := .rectangle (spot 0 0) (spot 5 4)
  walls := [⟨spot 0 0, spot 4 0⟩]
  obstacles := [⟨[spot 3 1, spot 3 3, spot 4 2]⟩]
  elevation := real 0
  doors := []

noncomputable def lodge : Building Exact where
  caption := "lodge"
  rooms := OrderedMap.empty.insert 0 ⟨0, "", [0]⟩
  subrooms := OrderedMap.empty.insert 0 porch
  doors := .empty

lemma isBarrier_porch {s : Segment Exact} : porch.IsBarrier s ↔
    s = ⟨spot 0 0, spot 4 0⟩ ∨ s = ⟨spot 3 1, spot 3 3⟩ ∨ s = ⟨spot 3 3, spot 4 2⟩ ∨
      s = ⟨spot 4 2, spot 3 1⟩ := by
  simp [← SubRoom.mem_barriers_iff, SubRoom.barriers, porch, Polygon.edges]

/-- No point right of the upright side is as near as the middle of that side. -/
lemma eq_spot_of_dist_le {x y : ℝ} (hx : 3 ≤ x)
    (h : (⟨real x, real y⟩ : Point Exact).dist (spot 2 2) ≤ real 1) :
    (⟨real x, real y⟩ : Point Exact) = spot 3 2 := by
  rw [dist_spot_le_one] at h
  push_cast at h
  obtain rfl : x = 3 := by nlinarith
  obtain rfl : y = 2 := by nlinarith
  simp [spot]

lemma eq_spot_of_has {s : Segment Exact} {q : Point Exact} (hs : porch.IsBarrier s)
    (hq : s.Has q) (hle : q.dist (spot 2 2) ≤ real 1) : q = spot 3 2 := by
  obtain ⟨t, ⟨hlow, hhigh⟩, rfl⟩ := hq
  rcases isBarrier_porch.1 hs with rfl | rfl | rfl | rfl
  · -- the wall is two meters away
    rw [pointAt_spot, dist_spot_le_one] at hle
    push_cast at hle
    nlinarith
  all_goals
    rw [pointAt_spot] at hle ⊢
    refine eq_spot_of_dist_le ?_ hle
    push_cast
    linarith

/-- Two meters from the wall and one from the pillar a person is told of the pillar, and where on it
the nearest point is. -/
theorem toWall_nearest_porch : ∃ st v,
    ofBuilding lodge ⟨real 1, real 0, .even, .centre, .none, 0⟩ = .ok st ∧
      porch.IsBarrier ⟨spot 0 0, spot 4 0⟩ ∧ porch.IsBarrier ⟨spot 3 1, spot 3 3⟩ ∧
      st.distanceToWall lodge (.standing 7 0 0 (spot 2 2)) = .ok (real 1) ∧
      st.directionToWall lodge (.standing 7 0 0 (spot 2 2)) = .ok v ∧
      spot 2 2 + v.scale (real 1) = spot 3 2 ∧ v.norm = real 1 := by
  have hst : ofBuilding lodge ⟨real 1, real 0, .even, .centre, .none, 0⟩ = .ok _ := rfl
  have hwall : porch.IsBarrier ⟨spot 0 0, spot 4 0⟩ := by simp [isBarrier_porch]
  have hside : porch.IsBarrier ⟨spot 3 1, spot 3 3⟩ := by simp [isBarrier_porch]
  have hmiddle : (⟨spot 3 1, spot 3 3⟩ : Segment Exact).Has (spot 3 2) := by
    refine ⟨1 / 2, by norm_num, ?_⟩
    rw [pointAt_spot, spot]
    norm_num
  have hone : (spot 3 2).dist (spot 2 2) = real 1 := by
    rw [spot, spot, Point.dist_eq_real, Complex.dist_mk]
    norm_num
  have hfin : ∀ s, porch.IsBarrier s → s.IsFinite := by
    intro s hs
    rcases isBarrier_porch.1 hs with rfl | rfl | rfl | rfl
    all_goals simp [Segment.IsFinite, Point.IsFinite, spot]
  obtain ⟨⟨d, v, hdist, hdir, -, hsome⟩, -⟩ :=
    toWall_nearest (a := .standing 7 0 0 (spot 2 2)) hst rfl rfl hfin ⟨rfl, rfl⟩
  obtain ⟨q, hq, rfl, harrive, hnorm⟩ := hsome ⟨_, hwall⟩
  obtain ⟨s, hs, hon⟩ := hq.onBarrier
  have hle : q.dist (spot 2 2) ≤ (spot 3 2).dist (spot 2 2) := hq.dist_le _ _ hside hmiddle
  obtain rfl : q = spot 3 2 := eq_spot_of_has hs hon (hone ▸ hle)
  simp only [Pedestrian.standing, hone] at hdist harrive hnorm
  exact ⟨_, v, hst, hwall, hside, hdist, hdir, harrive, hnorm (by simp)⟩

end Steering

end Egress
