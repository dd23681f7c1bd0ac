import Egress.Proofs.Network.Cheapest

/-!
# Ways that lead straight back

The search never looks at ways on which an edge leads back to where the edge before it comes from.
Where all edges have the same multiplier nothing is lost by that: weights then obey the triangle
inequality, so an edge and the one that leads straight back can be left out together, and what is
left is no dearer. Leaving out a pair may bring together two edges that form a pair again, so pairs
are left out from the end of the way on.
-/
namespace Egress
open Exact

namespace Exact

theorem IsWeight.add {a b : Exact} (ha : a.IsWeight) (hb : b.IsWeight) :
    (a + b).IsWeight ∧ toCost (a + b) = toCost a + toCost b := by
  cases a with
  | real x =>
    obtain ⟨hsum, hne⟩ := toCost_real_add x hb.2
    exact ⟨⟨hsum ▸ add_nonneg ha.1 hb.1, hne⟩, hsum⟩
  | posInf =>
    cases b with
    | negInf => exact absurd rfl hb.2
    | nan => exact ⟨isWeight_nan, rfl⟩
    | _ => exact ⟨isWeight_posInf, rfl⟩
  | negInf => exact absurd rfl ha.2
  | nan => exact ⟨isWeight_nan, rfl⟩

lemma IsWeight.real_le {a : Exact} (ha : a.IsWeight) (hnumber : Scalar.isNaN a = false) {x : ℝ}
    (hx : x ≤ toCost a) : real x ≤ a := by
  cases a with
  | real y => exact real_le_real.2 (WithTop.coe_le_coe.1 hx)
  | posInf => trivial
  | negInf => exact absurd rfl ha.2
  | nan => cases hnumber

lemma exists_real_of_toCost {a : Exact} (h : toCost a ≠ ⊤) : ∃ x, a = real x := by
  cases a with
  | real x => exact ⟨x, rfl⟩
  | _ => exact absurd rfl h

end Exact

namespace Point

lemma exists_real_of_dist {p q : Point Exact} {d : ℝ} (h : p.dist q = real d) :
    ∃ x y x' y', p = ⟨real x, real y⟩ ∧ q = ⟨real x', real y'⟩ := by
  obtain ⟨z, hz⟩ := real_of_sqrt h
  obtain ⟨⟨dx, hx⟩, dy, hy⟩ := real_of_add hz
  obtain ⟨⟨dx, hx⟩, -⟩ := real_of_mul hx
  obtain ⟨⟨dy, hy⟩, -⟩ := real_of_mul hy
  obtain ⟨⟨x, hpx⟩, x', hqx⟩ := real_of_sub hx
  obtain ⟨⟨y, hpy⟩, y', hqy⟩ := real_of_sub hy
  exact ⟨x, y, x', y', by rw [← hpx, ← hpy], by rw [← hqx, ← hqy]⟩

/-- The triangle inequality, for distances multiplied by what is not negative. -/
theorem toCost_dist_mul_le (p q r : Point Exact) {m : Exact} (hm : m.IsWeight) :
    toCost (p.dist r * m) ≤ toCost (p.dist q * m) + toCost (q.dist r * m) := by
  by_cases htop : toCost (p.dist q * m) = ⊤ ∨ toCost (q.dist r * m) = ⊤
  · rw [WithTop.add_eq_top.2 htop]
    exact le_top
  · rw [not_or] at htop
    obtain ⟨a, ha⟩ := exists_real_of_toCost htop.1
    obtain ⟨b, hb⟩ := exists_real_of_toCost htop.2
    obtain ⟨⟨d, hd⟩, k, rfl⟩ := real_of_mul ha
    obtain ⟨⟨d', hd'⟩, -⟩ := real_of_mul hb
    obtain ⟨x, y, x', y', rfl, rfl⟩ := exists_real_of_dist hd
    obtain ⟨-, -, u, w, -, rfl⟩ := exists_real_of_dist hd'
    have hk : 0 ≤ k := WithTop.coe_nonneg.1 hm.1
    simp only [dist_eq_real, real_mul_real, toCost_real]
    rw [← WithTop.coe_add, WithTop.coe_le_coe, ← add_mul]
    exact mul_le_mul_of_nonneg_right (dist_triangle _ _ _) hk

end Point

namespace Network

section
variable {α : Type} {g : Network α} {v w : VertexId} {e e' : EdgeId} {es : List EdgeId}

/-- The second edge leaves the vertex that the first leads to. -/
def Continues (g : Network α) (e e' : EdgeId) : Prop :=
  ∃ edge next, g.edge? e = some edge ∧ g.edge? e' = some next ∧ edge.dest = some next.source

/-- The ways out of the building from a vertex, those that lead straight back among them. -/
structure IsWay (g : Network α) (v : VertexId) (es : List EdgeId) : Prop where
  first : ∃ e, es.head? = some e ∧ g.Leaves v e
  continues : es.IsChain g.Continues
  exit : ∃ e, es.getLast? = some e ∧ g.IsExit e

lemma Follows.continues (h : g.Follows e e') : g.Continues e e' := by
  obtain ⟨edge, next, hedge, hnext, hdest, -⟩ := h
  exact ⟨edge, next, hedge, hnext, hdest⟩

/-- Routes are the ways that never lead straight back. -/
theorem IsRoute.isWay (h : g.IsRoute v es) : g.IsWay v es :=
  ⟨h.first, h.follows.imp fun _ _ => Follows.continues, h.exit⟩

lemma IsWay.leaves (h : g.IsWay v (e :: es)) : g.Leaves v e := by
  obtain ⟨e', he', hv⟩ := h.first
  obtain rfl : e = e' := Option.some.inj he'
  exact hv

lemma IsWay.isExit (h : g.IsWay v [e]) : g.IsExit e := by
  obtain ⟨e', he', hexit⟩ := h.exit
  obtain rfl : e = e' := Option.some.inj he'
  exact hexit

lemma IsWay.tail (h : g.IsWay v (e :: e' :: es)) :
    ∃ edge w, g.edge? e = some edge ∧ edge.source = v ∧ edge.dest = some w ∧
      g.IsWay w (e' :: es) := by
  obtain ⟨⟨edge, next, hedge, hnext, hdest⟩, hchain⟩ := List.isChain_cons_cons.1 h.continues
  obtain ⟨edge', hedge', hv⟩ := h.leaves
  rw [hedge, Option.some.injEq] at hedge'
  subst hedge'
  exact ⟨edge, next.source, hedge, hv, hdest, ⟨⟨e', rfl, next, hnext, rfl⟩, hchain, h.exit⟩⟩

/-- The networks all of whose edges have the same multiplier. -/
def IsEven [Scalar α] (g : Network α) : Prop :=
  ∀ e e' edge edge', g.edge? e = some edge → g.edge? e' = some edge' →
    edge.factors.multiplier = edge'.factors.multiplier

/-- A network is even as long as no factors are written. -/
lemma isEven_of_unwritten [Scalar α]
    (h : ∀ e edge, g.edge? e = some edge → edge.factors = .empty) : g.IsEven := by
  intro e e' edge edge' hedge hedge'
  rw [h e edge hedge, h e' edge' hedge']

end

variable {g : Network Exact} {v : VertexId} {q : Point Exact} {es : List EdgeId}

lemma toll_eq {e : EdgeId} {edge : Edge Exact} (hedge : g.edge? e = some edge) (q : Point Exact) :
    g.toll q e = toCost (q.dist (g.doorCentre e) * edge.factors.multiplier) := by
  simp only [toll, weightOf, doorCentre, hedge, Edge.weight]

/-- To go through another door first is no cheaper. -/
theorem IsEven.toll_le (heven : g.IsEven) {e : EdgeId} {edge : Edge Exact}
    (hedge : g.edge? e = some edge) (q : Point Exact) (e' : EdgeId) :
    g.toll q e' ≤ g.toll q e + g.toll (g.doorCentre e) e' := by
  cases hedge' : g.edge? e' with
  | none =>
    have hzero : g.toll q e' = 0 := by
      simp only [toll, weightOf, hedge']
      rw [zero_eq, toCost_real, WithTop.coe_zero]
    rw [hzero]
    exact add_nonneg (g.toll_nonneg _ _) (g.toll_nonneg _ _)
  | some edge' =>
    rw [toll_eq hedge', toll_eq hedge, toll_eq hedge', heven e e' edge edge' hedge hedge']
    exact Point.toCost_dist_mul_le _ _ _ (isWeight_larger_zero _)

/-- Leaving out an edge and the one behind it makes a way no dearer. -/
lemma IsEven.wayToll_drop_le (heven : g.IsEven) {e f f' : EdgeId} {edge back : Edge Exact}
    (hedge : g.edge? e = some edge) (hback : g.edge? f = some back) (q : Point Exact)
    (rest : List EdgeId) :
    g.wayToll q (f' :: rest) ≤ g.toll q e + g.wayToll (g.doorCentre e) (f :: f' :: rest) := by
  have hdirect : g.toll q f' ≤
      g.toll q e + (g.toll (g.doorCentre e) f + g.toll (g.doorCentre f) f') :=
    (heven.toll_le hedge q f').trans (add_le_add_right (heven.toll_le hback _ f') _)
  calc g.wayToll q (f' :: rest)
      = g.toll q f' + g.wayToll (g.doorCentre f') rest := rfl
    _ ≤ g.toll q e + (g.toll (g.doorCentre e) f + g.toll (g.doorCentre f) f') +
          g.wayToll (g.doorCentre f') rest := add_le_add_left hdirect _
    _ = g.toll q e + g.wayToll (g.doorCentre e) (f :: f' :: rest) := by
        simp only [wayToll, add_assoc]

/-- For every way there is a route that is no dearer. -/
theorem IsWay.exists_isRoute (heven : g.IsEven) (h : g.IsWay v es) (q : Point Exact) :
    ∃ es', g.IsRoute v es' ∧ g.wayToll q es' ≤ g.wayToll q es := by
  induction es generalizing v q with
  | nil =>
    obtain ⟨e, he, -⟩ := h.first
    cases he
  | cons e es ih =>
    cases es with
    | nil => exact ⟨[e], isRoute_singleton h.leaves h.isExit, le_rfl⟩
    | cons e' es =>
      obtain ⟨edge, w, hedge, rfl, hdest, htail⟩ := h.tail
      obtain ⟨es', hroute, hle⟩ := ih htail (g.doorCentre e)
      have hcons : g.toll q e + g.wayToll (g.doorCentre e) es' ≤ g.wayToll q (e :: e' :: es) :=
        add_le_add_right hle _
      rcases hroute.cons_or_back hedge hdest with
        hlonger | ⟨f, f', rest, rfl, ⟨back, hback⟩, hshort⟩
      · exact ⟨e :: es', hlonger, hcons⟩
      · exact ⟨f' :: rest, hshort, (heven.wayToll_drop_le hedge hback q rest).trans hcons⟩

/-- Costs of ways are their tolls. -/
lemma wayCost_toll (g : Network Exact) (q : Point Exact) (es : List EdgeId) :
    (g.wayCost q es).IsWeight ∧ toCost (g.wayCost q es) = g.wayToll q es := by
  induction es generalizing q with
  | nil =>
    rw [wayCost, wayToll, zero_eq]
    exact ⟨isWeight_real le_rfl, rfl⟩
  | cons e es ih =>
    obtain ⟨hrest, htoll⟩ := ih (g.doorCentre e)
    obtain ⟨hsum, hcost⟩ := (g.isWeight_weightOf q e).add hrest
    exact ⟨hsum, by rw [wayCost, hcost, htoll, wayToll, toll]⟩

lemma wayCost_eq_real {x : ℝ} (h : g.wayToll q es = x) : g.wayCost q es = real x := by
  have hcost : toCost (g.wayCost q es) = x := (wayCost_toll g q es).2.trans h
  obtain ⟨z, hz⟩ := exists_real_of_toCost (hcost.trans_ne WithTop.coe_ne_top)
  rw [hz, toCost_real, WithTop.coe_inj] at hcost
  rw [hz, hcost]

/-- In an even network the cheapest destination costs no more than any way out, those that lead
straight back included. Only sums that are no numbers are left out of the comparison; where doors,
factors and the position are finite there are none. -/
theorem cheapestDestination_le_way (hg : g.Grown) (heven : g.IsEven) {s : SubRoomId}
    {d : Destination Exact} (h : g.cheapestDestination s q = .ok d) :
    ∃ v, g.vertexOf.find? s = some v ∧ g.IsWay v d.path ∧ d.cost = g.wayCost q d.path ∧
      Scalar.isFinite d.cost = true ∧
      ∀ es, g.IsWay v es → Scalar.isNaN (g.wayCost q es) = false → d.cost ≤ g.wayCost q es := by
  cases hv : g.vertexOf.find? s with
  | none => simp [cheapestDestination, hv] at h
  | some v =>
    simp only [cheapestDestination, hv] at h
    rcases run_start_toll hg.wellFormed v q with
      ⟨-, hrun⟩ | ⟨s', e, x, hrun, hroute, htoll, hmin⟩
    · simp [hrun] at h
    · simp only [hrun, Except.ok.injEq] at h
      subst h
      refine ⟨v, rfl, hroute.isWay, ?_, rfl, fun es hes hnumber => ?_⟩
      · exact (wayCost_eq_real htoll).symm
      · obtain ⟨es', hroute', hle⟩ := hes.exists_isRoute heven q
        obtain ⟨hweight, hcost⟩ := wayCost_toll g q es
        exact hweight.real_le hnumber (hcost ▸ (hmin es' hroute').trans hle)

/-- A building of one subroom with a door that leads out and one that leads back into it. -/
noncomputable def rotunda : Building Exact where
  caption := ""
  rooms := .empty
  subrooms := .empty
  doors := (OrderedMap.empty.insert 3
    ⟨3, .transition, ⟨⟨real 0, real 0⟩, ⟨real 1, real 0⟩⟩, 0, none, true⟩).insert 4
    ⟨4, .crossing, ⟨⟨real 0, real 1⟩, ⟨real 1, real 1⟩⟩, 0, some 0, true⟩

/-- The network of the doors of the rotunda. -/
noncomputable def rotundaNetwork : Network Exact :=
  let way := approximateDistance rotunda 0 3
    ⟨3, .transition, ⟨⟨real 0, real 0⟩, ⟨real 1, real 0⟩⟩, 0, none, true⟩ none
  let loop := approximateDistance rotunda 0 4
    ⟨4, .crossing, ⟨⟨real 0, real 1⟩, ⟨real 1, real 1⟩⟩, 0, some 0, true⟩ (some 0)
  let g := ((empty.addVertex 0).1.pushEdge 0 none 3 ⟨⟨real 0, real 0⟩, ⟨real 1, real 0⟩⟩ way).1
  (g.pushEdge 0 (some 0) 4 ⟨⟨real 0, real 1⟩, ⟨real 1, real 1⟩⟩ loop).1

lemma grown_rotundaNetwork : rotundaNetwork.Grown :=
  .addEdge rotunda 0 4 1 (.addEdge rotunda 0 3 0 .empty rfl) rfl

lemma edge?_rotundaNetwork {e : EdgeId} {edge : Edge Exact}
    (h : rotundaNetwork.edge? e = some edge) : edge.factors = .empty ∧ edge.IsFinite := by
  have hfinite {edge : Edge Exact} (hstart : edge.line.start.IsFinite)
      (hstop : edge.line.stop.IsFinite) (hfactors : edge.factors = .empty) : edge.IsFinite := by
    refine ⟨hstart, hstop, fun f hf => ?_⟩
    rw [hfactors] at hf
    exact absurd hf List.not_mem_nil
  match e with
  | 0 =>
    obtain rfl := Option.some.inj h
    exact ⟨rfl, hfinite ⟨rfl, rfl⟩ ⟨rfl, rfl⟩ rfl⟩
  | 1 =>
    obtain rfl := Option.some.inj h
    exact ⟨rfl, hfinite ⟨rfl, rfl⟩ ⟨rfl, rfl⟩ rfl⟩
  | e + 2 => cases h

/-- To walk around the rotunda before leaving it is no cheaper. -/
theorem cheapestDestination_rotunda : rotundaNetwork.Grown ∧ rotundaNetwork.IsEven ∧
    rotundaNetwork.IsWay 0 [1, 0] ∧
    ∃ d, rotundaNetwork.cheapestDestination 0 ⟨real 1, real 1⟩ = .ok d ∧
      d.cost ≤ rotundaNetwork.wayCost ⟨real 1, real 1⟩ [1, 0] := by
  have heven : rotundaNetwork.IsEven :=
    isEven_of_unwritten fun e edge hedge => (edge?_rotundaNetwork hedge).1
  have hfin : rotundaNetwork.IsFinite := fun e edge hedge => (edge?_rotundaNetwork hedge).2
  have hq : Point.IsFinite ⟨real 1, real 1⟩ := ⟨rfl, rfl⟩
  have hv : rotundaNetwork.vertexOf.find? 0 = some 0 := rfl
  have hout : rotundaNetwork.IsRoute 0 [0] := isRoute_singleton ⟨_, rfl, rfl⟩ ⟨_, rfl, rfl⟩
  have hloop : rotundaNetwork.IsWay 0 [1, 0] := by
    refine ⟨⟨1, rfl, _, rfl, rfl⟩, ?_, 0, rfl, _, rfl, rfl⟩
    exact List.isChain_cons_cons.2 ⟨⟨_, _, rfl, rfl, rfl⟩, .singleton 0⟩
  rcases cheapestDestination_toll grown_rotundaNetwork.wellFormed hv ⟨real 1, real 1⟩ with
    ⟨hnone, -⟩ | ⟨d, -, hd, -⟩
  · have htop := hnone [0] hout
    rw [hfin.wayToll hq] at htop
    exact absurd htop WithTop.coe_ne_top
  · obtain ⟨v, hv', -, -, -, hmin⟩ := cheapestDestination_le_way grown_rotundaNetwork heven hd
    obtain rfl : 0 = v := Option.some.inj (hv.symm.trans hv')
    refine ⟨grown_rotundaNetwork, heven, hloop, d, hd, hmin [1, 0] hloop ?_⟩
    rw [(hfin.wayCost hq _).1]
    rfl

end Network

end Egress
