import Egress.Proofs.Geometry
import Egress.Proofs.Network.Route

/-!
# Weights of edges

The weight of an edge is a real number that is not negative, infinite, or no number. An edge whose
weight is no real number is never taken, as if its toll were infinite. Where doors, factors and the
position are finite, all weights are real numbers, and so are the costs of ways.
-/
namespace Egress
open Exact

theorem Edge.isWeight_weight (edge : Edge Exact) (q : Point Exact) : (edge.weight q).IsWeight :=
  (isWeight_sqrt _).mul (isWeight_larger_zero _)

/-- An edge with a positive multiplier costs nothing from the centre of its door only. -/
theorem Edge.eq_centre_of_weight {edge : Edge Exact} {p : Point Exact} {x : ℝ} (hx : 0 < x)
    (hmult : real x ≤ edge.factors.multiplier) (h : edge.weight p = 0) :
    p.IsFinite ∧ p = edge.line.centre := by
  rw [zero_eq] at h
  obtain ⟨⟨d, hd⟩, m, hm⟩ := real_of_mul h
  have hpos : 0 < m := by
    rw [hm, real_le_real] at hmult
    exact hx.trans_le hmult
  have hzero : d * m = 0 := by
    rw [← real_inj, ← real_mul_real, ← hd, ← hm]
    exact h
  rw [mul_eq_zero, or_iff_left hpos.ne'] at hzero
  rw [hzero] at hd
  exact Point.eq_of_dist_eq_zero hd

namespace Network

/-- What it costs to take an edge, infinite where its weight is no real number. -/
noncomputable def toll (g : Network Exact) (q : Point Exact) (e : EdgeId) : WithTop ℝ :=
  toCost (g.weightOf q e)

/-- Sum of the tolls of the edges of a way. -/
noncomputable def wayToll (g : Network Exact) : Point Exact → List EdgeId → WithTop ℝ
  | _, [] => 0
  | q, e :: es => g.toll q e + wayToll g (g.doorCentre e) es

theorem isWeight_weightOf (g : Network Exact) (q : Point Exact) (e : EdgeId) :
    (g.weightOf q e).IsWeight := by
  unfold weightOf
  cases g.edge? e with
  | none => exact zero_eq ▸ isWeight_real le_rfl
  | some edge => exact edge.isWeight_weight q

lemma toll_nonneg (g : Network Exact) (q : Point Exact) (e : EdgeId) : 0 ≤ g.toll q e :=
  (g.isWeight_weightOf q e).1

lemma wayToll_nonneg (g : Network Exact) (q : Point Exact) (es : List EdgeId) :
    0 ≤ g.wayToll q es := by
  induction es generalizing q with
  | nil => exact le_rfl
  | cons e es ih => exact add_nonneg (g.toll_nonneg q e) (ih _)

/-- The last edge of a way is entered from the door before it. -/
lemma wayToll_concat {g : Network Exact} {q : Point Exact} {es : List EdgeId} {p : EdgeId}
    (hp : es.getLast? = some p) (e : EdgeId) :
    g.wayToll q (es ++ [e]) = g.wayToll q es + g.toll (g.doorCentre p) e := by
  induction es generalizing q with
  | nil => cases hp
  | cons e' es ih =>
    cases es with
    | nil =>
      obtain rfl : e' = p := Option.some.inj hp
      simp [wayToll]
    | cons e'' es =>
      rw [List.getLast?_cons_cons] at hp
      show g.toll q e' + g.wayToll (g.doorCentre e') (e'' :: es ++ [e]) =
        g.toll q e' + g.wayToll (g.doorCentre e') (e'' :: es) + g.toll (g.doorCentre p) e
      rw [ih hp, add_assoc]

end Network

/-- The edges whose door line and factors are finite. -/
structure Edge.IsFinite (edge : Edge Exact) : Prop where
  start : edge.line.start.IsFinite
  stop : edge.line.stop.IsFinite
  factors : ∀ f ∈ edge.factors.values, Scalar.isFinite f.value = true

/-- The networks all of whose doors and factors are finite. -/
def Network.IsFinite (g : Network Exact) : Prop :=
  ∀ e edge, g.edge? e = some edge → edge.IsFinite

lemma Edge.IsFinite.centre {edge : Edge Exact} (h : edge.IsFinite) :
    edge.line.centre.IsFinite := by
  obtain ⟨x, y, hstart⟩ := h.start.exists_real
  obtain ⟨x', y', hstop⟩ := h.stop.exists_real
  have hcentre : edge.line.centre = ⟨real x + (real x' - real x) * 0.5,
      real y + (real y' - real y) * 0.5⟩ := by
    rw [Segment.centre, Segment.pointAt, Segment.extent, hstart, hstop]
    rfl
  rw [hcentre]
  simp [Point.IsFinite]

lemma multiplier_real {bag : FactorBag Exact}
    (h : ∀ f ∈ bag.values, Scalar.isFinite f.value = true) :
    ∃ m, 0 ≤ m ∧ bag.multiplier = real m := by
  have hvalues : bag.values.map (fun f => f.value - 1) =
      (bag.values.map fun f => toReal f.value - 1).map real := by
    rw [List.map_map]
    refine List.map_congr_left fun f hf => ?_
    obtain ⟨x, hx⟩ := isFinite_iff.1 (h f hf)
    simp [hx, one_eq]
  refine ⟨max (1 + (bag.values.map fun f => toReal f.value - 1).sum) 0, le_max_right _ 0, ?_⟩
  rw [FactorBag.multiplier, hvalues, sum_map_real, one_eq, real_add_real, zero_eq, larger_real]

theorem Edge.IsFinite.weight {edge : Edge Exact} (h : edge.IsFinite) {q : Point Exact}
    (hq : q.IsFinite) : ∃ w, 0 ≤ w ∧ edge.weight q = real w := by
  obtain ⟨x, y, rfl⟩ := hq.exists_real
  obtain ⟨x', y', hcentre⟩ := h.centre.exists_real
  obtain ⟨m, hm, hmult⟩ := multiplier_real h.factors
  refine ⟨Dist.dist (⟨x, y⟩ : ℂ) ⟨x', y'⟩ * m, mul_nonneg dist_nonneg hm, ?_⟩
  rw [Edge.weight, hcentre, Point.dist_eq_real, hmult, real_mul_real]

namespace Network

variable {g : Network Exact} {q : Point Exact}

/-- Weight of an edge as a real number. -/
noncomputable def hop (g : Network Exact) (q : Point Exact) (e : EdgeId) : ℝ :=
  toReal (g.weightOf q e)

lemma IsFinite.weightOf (hg : g.IsFinite) (hq : q.IsFinite) (e : EdgeId) :
    g.weightOf q e = real (g.hop q e) ∧ 0 ≤ g.hop q e := by
  have hreal : ∃ w, 0 ≤ w ∧ g.weightOf q e = real w := by
    unfold Network.weightOf
    cases hedge : g.edge? e with
    | none => exact ⟨0, le_rfl, zero_eq⟩
    | some edge => exact (hg e edge hedge).weight hq
  obtain ⟨w, hw, heq⟩ := hreal
  have hhop : g.hop q e = w := by rw [hop, heq, toReal_real]
  exact ⟨by rw [heq, hhop], hhop ▸ hw⟩

lemma IsFinite.doorCentre (hg : g.IsFinite) (e : EdgeId) : (g.doorCentre e).IsFinite := by
  unfold Network.doorCentre
  cases hedge : g.edge? e with
  | none => simp [Point.IsFinite, zero_eq]
  | some edge => exact (hg e edge hedge).centre

/-- Cost of a way as a real number. -/
noncomputable def wayLength (g : Network Exact) : Point Exact → List EdgeId → ℝ
  | _, [] => 0
  | q, e :: es => g.hop q e + wayLength g (g.doorCentre e) es

lemma IsFinite.wayCost (hg : g.IsFinite) (hq : q.IsFinite) (es : List EdgeId) :
    g.wayCost q es = real (g.wayLength q es) ∧ 0 ≤ g.wayLength q es := by
  induction es generalizing q with
  | nil => exact ⟨zero_eq, le_rfl⟩
  | cons e es ih =>
    obtain ⟨hweight, hhop⟩ := hg.weightOf hq e
    obtain ⟨hcost, hlength⟩ := ih (hg.doorCentre e)
    refine ⟨?_, add_nonneg hhop hlength⟩
    rw [Network.wayCost, hweight, hcost, real_add_real, wayLength]

lemma IsFinite.wayToll (hg : g.IsFinite) (hq : q.IsFinite) (es : List EdgeId) :
    g.wayToll q es = (g.wayLength q es : ℝ) := by
  induction es generalizing q with
  | nil => rfl
  | cons e es ih =>
    rw [Network.wayToll, ih (hg.doorCentre e), toll, (hg.weightOf hq e).1, toCost_real, wayLength,
      WithTop.coe_add]

end Network

end Egress
