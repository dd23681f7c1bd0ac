import Egress.Proofs.Network.Coverage
import Egress.Proofs.Sensing.Commuting
import Egress.Proofs.Sensing.Congestion

/-!
# More people at doors

The people at a door weigh more when there are more of them and when they are slower. What they
weigh becomes a factor above the threshold only, and what lies below it is neutral. So a door that
gets more crowded becomes no more attractive, unless its congestion rises above a threshold that is
less than one and stays below one.
-/
namespace Egress
open Exact

namespace Exact

lemma isNaN_of_level_nonneg {a : Exact} (h : 0 ≤ level a) : Scalar.isNaN a = false := by
  cases a with
  | nan => exact absurd (le_bot_iff.1 h) EReal.zero_ne_bot
  | _ => rfl

lemma level_smaller {a b : Exact} (ha : Scalar.isNaN a = false) (hb : Scalar.isNaN b = false) :
    level (Scalar.smaller a b) = min (level a) (level b) := by
  have hcoe (x y : ℝ) : ((min x y : ℝ) : EReal) = min (x : EReal) (y : EReal) :=
    EReal.coe_strictMono.monotone.map_min
  cases a <;> cases b
  case real.real x y => rw [smaller_real]; exact hcoe x y
  all_goals simp_all [Scalar.smaller, Scalar.isNaN, level]

lemma level_nonneg {a : Exact} (h : 0 ≤ a) : 0 ≤ level a := by
  have hmono := level_mono h
  rwa [zero_eq, level, EReal.coe_zero] at hmono

lemma inverse_square_spec {s : Exact} (hs : Scalar.isNaN s = false) :
    0 ≤ level (1 / (s * s)) := by
  rw [one_eq]
  cases s with
  | real x =>
    rw [real_mul_real]
    by_cases hx : x * x = 0
    · rw [hx, real_one_div_zero]
      exact le_top
    · rw [real_div_real _ hx]
      exact EReal.coe_nonneg.2 (one_div_nonneg.2 (mul_self_nonneg x))
  | posInf => exact le_rfl
  | negInf => exact le_rfl
  | nan => cases hs

lemma inverse_square_anti {s s' : Exact} (hs' : 0 ≤ s') (h : s' ≤ s) :
    level (1 / (s * s)) ≤ level (1 / (s' * s')) := by
  rw [zero_eq] at hs'
  cases s with
  | real x =>
    cases s' with
    | real y =>
      rw [real_le_real] at hs' h
      rw [one_eq, real_mul_real, real_mul_real]
      rcases hs'.eq_or_lt with rfl | hy
      · rw [mul_zero, real_one_div_zero]
        exact le_top
      · have hyy : 0 < y * y := mul_pos hy hy
        have hle : y * y ≤ x * x := mul_self_le_mul_self hy.le h
        rw [real_div_real _ hyy.ne', real_div_real _ (hyy.trans_le hle).ne']
        exact EReal.coe_le_coe_iff.2 (one_div_le_one_div_of_le hyy hle)
    | negInf => exact False.elim hs'
    | posInf | nan => exact False.elim h
  | posInf =>
    have hnum : Scalar.isNaN s' = false := by
      cases s' with
      | nan => exact False.elim h
      | _ => rfl
    have hzero : (1 / (posInf * posInf) : Exact) = real 0 := by
      rw [one_eq]
      rfl
    rw [hzero]
    exact inverse_square_spec hnum
  | negInf => cases s' <;> first | exact False.elim hs' | exact False.elim h
  | nan => cases s' <;> exact False.elim h

/-- Weights are compared as before after they have been divided by a width. -/
lemma div_le_div_real {a b : Exact} {w : ℝ} (hw : 0 < w) (ha : 0 ≤ level a)
    (h : level a ≤ level b) : a / real w ≤ b / real w := by
  have hinf := posInf_div_real hw
  cases a with
  | real x =>
    cases b with
    | real y =>
      rw [real_div_real _ hw.ne', real_div_real _ hw.ne', real_le_real]
      exact div_le_div_of_nonneg_right (EReal.coe_le_coe_iff.1 h) hw.le
    | posInf =>
      rw [hinf, real_div_real _ hw.ne']
      trivial
    | _ => exact absurd (le_bot_iff.1 h) (EReal.coe_ne_bot x)
  | posInf =>
    cases b with
    | posInf =>
      rw [hinf]
      trivial
    | real y => exact absurd (top_le_iff.1 h) (EReal.coe_ne_top y)
    | _ => exact absurd h (not_le.2 bot_lt_top)
  | _ => exact absurd (le_bot_iff.1 ha) EReal.zero_ne_bot

end Exact

/-- The second approach is that of the same person from the same subroom, at no higher speed. -/
structure Approach.Slower (p p' : Approach Exact) : Prop where
  agent_eq : p'.agent = p.agent
  subroom_eq : p'.subroom = p.subroom
  nonneg : 0 ≤ p'.speed
  le : p'.speed ≤ p.speed

/-- The second record has every approach of the first at no higher speed, and perhaps more. -/
def Traffic.Busier (t t' : Traffic Exact) : Prop :=
  ∀ door, ∃ slowed, List.Forall₂ Approach.Slower (t.approaching door) slowed ∧
    slowed.Subperm (t'.approaching door)

namespace Congestion

variable {c : Congestion Exact} {t t' : Traffic Exact} {g : Network Exact} {edge : Edge Exact}
  {width : Exact}

lemma level_agentWeight_nonneg (hw : 0 < c.stationaryWeight) (speed : Exact) :
    0 ≤ level (c.agentWeight speed) := by
  have hweight := level_nonneg (Exact.le_of_lt hw)
  rw [agentWeight_eq]
  cases hspeed : Scalar.isNaN speed with
  | true =>
    cases speed with
    | nan => exact hweight
    | _ => cases hspeed
  | false =>
    have hinverse := inverse_square_spec hspeed
    rw [level_smaller (isNaN_of_level_nonneg hinverse) (isNaN_of_level_nonneg hweight)]
    exact le_min hinverse hweight

/-- Slower people weigh more. -/
lemma agentWeight_anti (hw : 0 < c.stationaryWeight) {s s' : Exact} (hs' : 0 ≤ s') (h : s' ≤ s) :
    level (c.agentWeight s) ≤ level (c.agentWeight s') := by
  have hweight := isNaN_of_level_nonneg (level_nonneg (Exact.le_of_lt hw))
  have hnum := isNaN_of_level_nonneg (level_nonneg hs')
  have hnum' := isNaN_of_level_nonneg (level_nonneg (Exact.le_trans hs' h))
  rw [agentWeight_eq, agentWeight_eq,
    level_smaller (isNaN_of_level_nonneg (inverse_square_spec hnum)) hweight,
    level_smaller (isNaN_of_level_nonneg (inverse_square_spec hnum')) hweight]
  exact min_le_min_right _ (inverse_square_anti hs' h)

/-- What people weigh together, as a level. -/
noncomputable def heft (c : Congestion Exact) (people : List (Approach Exact)) : EReal :=
  (people.map fun p => level (c.agentWeight p.speed)).sum

lemma level_sum_agentWeight (c : Congestion Exact) (people : List (Approach Exact)) :
    level (Scalar.sum (people.map fun p => c.agentWeight p.speed)) = c.heft people := by
  rw [level_sum, List.map_map]
  rfl

lemma heft_nonneg (hw : 0 < c.stationaryWeight) (people : List (Approach Exact)) :
    0 ≤ c.heft people := by
  apply List.sum_nonneg
  intro x hx
  obtain ⟨p, -, rfl⟩ := List.mem_map.1 hx
  exact level_agentWeight_nonneg hw p.speed

/-- People who have slowed down weigh more together, and so do more people. -/
lemma heft_mono (hw : 0 < c.stationaryWeight) {people slowed people' : List (Approach Exact)}
    (hslower : List.Forall₂ Approach.Slower people slowed) (hmore : slowed.Subperm people') :
    c.heft people ≤ c.heft people' := by
  obtain ⟨reordered, hperm, hsub⟩ := hmore
  calc c.heft people
      ≤ c.heft slowed := by
        apply List.Forall₂.sum_le_sum
        rw [List.forall₂_map_left_iff, List.forall₂_map_right_iff]
        exact hslower.imp fun p p' hp => agentWeight_anti hw hp.nonneg hp.le
    _ = c.heft reordered := (hperm.map _).sum_eq.symm
    _ ≤ c.heft people' := by
        apply (hsub.map _).sum_le_sum
        intro x hx
        obtain ⟨p, -, rfl⟩ := List.mem_map.1 hx
        exact level_agentWeight_nonneg hw p.speed

/-- With more people the congestion at a door of a finite width is no lower. -/
lemma atEdge_mono (hweight : 0 < c.stationaryWeight) (ht : t.Busier t') {w : ℝ} (hw : 0 < w) :
    c.atEdge g t edge (real w) ≤ c.atEdge g t' edge (real w) := by
  obtain ⟨slowed, hslower, hmore⟩ := ht edge.door
  let near (p : Approach Exact) : Bool :=
    some p.subroom == g.subroomAt? edge.source || some p.subroom == g.destSubRoom? edge.id
  have hnear : List.Forall₂ Approach.Slower ((t.approaching edge.door).filter near)
      (slowed.filter near) :=
    List.rel_filter (fun p p' hp => by simp only [near, hp.subroom_eq]) hslower
  refine div_le_div_real hw ?_ ?_
  · rw [level_sum_agentWeight]
    exact heft_nonneg hweight _
  · rw [level_sum_agentWeight, level_sum_agentWeight]
    exact heft_mono hweight hnear (hmore.filter near)

/-- No crowd is too much for a door of infinite width. -/
lemma factor_of_infinite_width (hthreshold : 0 ≤ c.threshold) (t : Traffic Exact) :
    c.factor g t edge posInf = 1 := by
  refine if_neg fun hlt => ?_
  have hdiv (a : Exact) : ¬c.threshold < a / posInf := by
    cases a with
    | real x =>
      rw [zero_eq] at hthreshold
      exact Exact.not_lt_of_le hthreshold
    | _ => exact not_lt_nan _
  exact hdiv _ hlt

/-- With more people the factor is no lower, or it has gone from one to a congestion below one. -/
theorem factor_busier (hthreshold : 0 ≤ c.threshold) (hweight : 0 < c.stationaryWeight)
    (ht : t.Busier t') (hwidth : 0 < width) :
    c.factor g t edge width ≤ c.factor g t' edge width ∨
      c.factor g t edge width = 1 ∧ c.threshold < c.factor g t' edge width ∧
        c.factor g t' edge width < 1 := by
  have hone : (1 : Exact) ≤ 1 := by rw [one_eq]; exact real_le_real.2 le_rfl
  cases width with
  | posInf =>
    rw [factor_of_infinite_width hthreshold, factor_of_infinite_width hthreshold]
    exact .inl hone
  | negInf => exact absurd hwidth (not_lt_negInf _)
  | nan => exact absurd hwidth (not_lt_nan _)
  | real w =>
    have hmore : c.atEdge g t edge (real w) ≤ c.atEdge g t' edge (real w) :=
      atEdge_mono hweight ht (real_lt_real.1 (zero_eq ▸ hwidth))
    unfold factor
    by_cases hjam : c.threshold < c.atEdge g t edge (real w)
    · rw [if_pos hjam, if_pos (Exact.lt_of_lt_of_le hjam hmore)]
      exact .inl hmore
    · rw [if_neg hjam]
      by_cases hjam' : c.threshold < c.atEdge g t' edge (real w)
      · rw [if_pos hjam']
        have hnum := (le_iff_place.1 hmore).2
        rw [one_eq]
        rcases real_le_or_lt 1 hnum with hle | hlt
        · exact .inl hle
        · exact .inr ⟨rfl, hjam', hlt⟩
      · rw [if_neg hjam']
        exact .inl hone

/-- The second factor is no lower, or the first is one and the second a congestion below one. -/
def Grows (c : Congestion Exact) (v v' : Exact) : Prop :=
  v ≤ v' ∨ v = 1 ∧ c.threshold < v' ∧ v' < 1

end Congestion

variable {c : Congestion Exact} {a : Pedestrian Exact} {m : CognitiveMap Exact}
  {env : Surroundings Exact} {traffic : Traffic Exact} {g g' : Network Exact} {e : EdgeId}
  {edge edge' : Edge Exact}

namespace Congestion

/-- With more people factors are found for the same edges, and they have grown. -/
lemma edgeFactor_busier (hthreshold : 0 ≤ c.threshold) (hweight : 0 < c.stationaryWeight)
    (ht : env.traffic.Busier traffic) (g : Network Exact) (edge : Edge Exact) :
    (∃ error, c.edgeFactor g env edge = .error error ∧
        c.edgeFactor g { env with traffic } edge = .error error) ∨
      ∃ y y', c.edgeFactor g env edge = .ok y ∧ c.edgeFactor g { env with traffic } edge = .ok y' ∧
        Option.Rel (fun y y' => y.1 = y'.1 ∧ c.Grows y.2 y'.2) y y' := by
  cases hdoor : env.door edge.door with
  | error error =>
    have hdoor' : ({ env with traffic } : Surroundings Exact).door edge.door = .error error := hdoor
    refine .inl ⟨error, ?_, ?_⟩
    · rw [edgeFactor, hdoor, error_bind]
    · rw [edgeFactor, hdoor', error_bind]
  | ok d =>
    have hd := Surroundings.door_eq_ok_iff.1 hdoor
    refine .inr ⟨_, _, edgeFactor_of_door c g hd,
      edgeFactor_of_door c g (show ({ env with traffic } : Surroundings Exact).building.door?
        edge.door = some d from hd), ?_⟩
    by_cases hwidth : 0 < d.width
    · rw [if_pos hwidth, if_pos hwidth]
      exact .some ⟨rfl, factor_busier hthreshold hweight ht hwidth⟩
    · rw [if_neg hwidth, if_neg hwidth]
      exact .none

end Congestion

/-- After sensing with more people, maps differ in factors of congestion that have grown. -/
theorem Sensor.differs_run_congestion (hthreshold : 0 ≤ c.threshold)
    (hweight : 0 < c.stationaryWeight) (ht : env.traffic.Busier traffic) (a : Pedestrian Exact)
    (m : CognitiveMap Exact) :
    ((congestion c).run a m { env with traffic }).2 = ((congestion c).run a m env).2 ∧
      ((congestion c).run a m env).1.network.Differs
        ((congestion c).run a m { env with traffic }).1.network Congestion.name c.Grows := by
  rcases mapM_related fun edge (_ : edge ∈ m.network.edges.toList) =>
      Congestion.edgeFactor_busier hthreshold hweight ht m.network edge with
    ⟨error, hfound, hfound'⟩ | ⟨found, found', hfound, hfound', hgrown⟩
  · have hfindings : (congestion c).findings a m.network env = .error error :=
      bind_eq_error_iff.2 (.inl hfound)
    have hfindings' : (congestion c).findings a m.network { env with traffic } = .error error :=
      bind_eq_error_iff.2 (.inl hfound')
    rw [run_of_findings_error (surveys_congestion c) hfindings,
      run_of_findings_error (surveys_congestion c) hfindings']
    exact ⟨rfl, .refl _ _ _⟩
  · have hfindings : (congestion c).findings a m.network env = .ok (found.filterMap id) :=
      bind_eq_ok_iff.2 ⟨found, hfound, rfl⟩
    have hfindings' : (congestion c).findings a m.network { env with traffic } =
        .ok (found'.filterMap id) := bind_eq_ok_iff.2 ⟨found', hfound', rfl⟩
    rw [run_of_findings (surveys_congestion c) hfindings,
      run_of_findings (surveys_congestion c) hfindings']
    refine ⟨rfl, (Network.Differs.refl m.network _ _).setFactors env.time ?_⟩
    exact List.rel_filterMap (fun _ _ h => h) hgrown

/-- The second edge has no lower factor of congestion, and weighs no less from any position. -/
def Edge.NoLighter (edge edge' : Edge Exact) : Prop :=
  ¬edge'.factors.valueOf Congestion.name < edge.factors.valueOf Congestion.name ∧
    ∀ p, ¬edge'.weight p < edge.weight p

lemma Edge.NoLighter.refl (edge : Edge Exact) : edge.NoLighter edge :=
  ⟨Exact.lt_irrefl _, fun _ => Exact.lt_irrefl _⟩

/-- An edge weighs no less if nothing but one factor has changed, and that is no lower. -/
lemma Edge.noLighter_of_le {bag : FactorBag Exact}
    (hothers : edge.factors.erase Congestion.name = bag.erase Congestion.name)
    (hle : edge.factors.valueOf Congestion.name ≤ bag.valueOf Congestion.name) :
    edge.NoLighter (edge.withFactors bag) := by
  refine ⟨Exact.not_lt_of_le hle, fun p => ?_⟩
  have hmultiplier := FactorBag.multiplier_mono hothers hle
  have hdist : (p.dist edge.line.centre).IsWeight := isWeight_sqrt _
  have hbag : bag.multiplier.IsWeight := isWeight_larger_zero _
  exact not_lt_of_toCost_le (hdist.mul hbag).2
    (Network.toCost_mul_le (isWeight_larger_zero _) hmultiplier hdist)

lemma Network.Differs.noLighter (h : g.Differs g' Congestion.name c.Grows)
    (he : g.edge? e = some edge) (he' : g'.edge? e = some edge') :
    edge.NoLighter edge' ∨ edge.factors.valueOf Congestion.name = 1 ∧
      c.threshold < edge'.factors.valueOf Congestion.name ∧
      edge'.factors.valueOf Congestion.name < 1 := by
  obtain ⟨bag, hbag⟩ := h.reweighs.extends.edge e edge he
  obtain rfl : edge.withFactors bag = edge' := Option.some.inj (hbag.symm.trans he')
  have hfactor (name : String) : g.factor? e name = edge.factors.find? name ∧
      g'.factor? e name = bag.find? name := by
    rw [factor?, factor?, he, hbag]
    exact ⟨rfl, rfl⟩
  have hothers (name : String) (hname : name ≠ Congestion.name) :
      bag.find? name = edge.factors.find? name := by
    rw [← (hfactor name).1, ← (hfactor name).2]
    exact h.others e name hname
  rcases h.factor e with hsame | ⟨v, v', time, hgrows, hv, hv'⟩
  · obtain rfl : bag = edge.factors := by
      apply OrderedMap.ext_find?
      intro name
      by_cases hname : name = Congestion.name
      · rw [hname, ← (hfactor _).1, ← (hfactor _).2]
        exact hsame
      · exact hothers name hname
    exact .inl (.refl edge)
  · rw [(hfactor _).1] at hv
    rw [(hfactor _).2] at hv'
    have hvalue : edge.factors.valueOf Congestion.name = v := by
      rw [FactorBag.valueOf, hv]
      rfl
    have hvalue' : bag.valueOf Congestion.name = v' := by
      rw [FactorBag.valueOf, hv']
      rfl
    rcases hgrows with hle | ⟨hone, hthreshold, hlt⟩
    · refine .inl (Edge.noLighter_of_le ?_ ?_)
      · apply OrderedMap.ext_find?
        intro name
        by_cases hname : name = Congestion.name
        · rw [hname, OrderedMap.find?_erase_self, OrderedMap.find?_erase_self]
        · rw [OrderedMap.find?_erase_of_ne _ hname, OrderedMap.find?_erase_of_ne _ hname,
            hothers name hname]
      · rw [hvalue, hvalue']
        exact hle
    · refine .inr ⟨hvalue.trans hone, ?_, ?_⟩
      · show c.threshold < bag.valueOf Congestion.name
        rw [hvalue']
        exact hthreshold
      · show bag.valueOf Congestion.name < 1
        rw [hvalue']
        exact hlt

/-- With more people at the doors no edge gets a lower factor, or weighs less from anywhere. -/
def Congestion.NeverAttracts (c : Congestion Exact) : Prop :=
  ∀ (a : Pedestrian Exact) (m : CognitiveMap Exact) (env : Surroundings Exact)
    (traffic : Traffic Exact), env.traffic.Busier traffic → ∀ e edge edge',
      ((Sensor.congestion c).run a m env).1.network.edge? e = some edge →
      ((Sensor.congestion c).run a m { env with traffic }).1.network.edge? e = some edge' →
      edge.NoLighter edge'

/-- With more people at the doors an edge gets a lower factor, and so may weigh less, only where it
was not congested with fewer and its congestion with more lies above the threshold and below one.
With a threshold of at least one there is no such edge. -/
theorem Sensor.run_busier (hthreshold : 0 ≤ c.threshold) (hweight : 0 < c.stationaryWeight) :
    (∀ (a : Pedestrian Exact) (m : CognitiveMap Exact) (env : Surroundings Exact)
      (traffic : Traffic Exact), env.traffic.Busier traffic →
        ((congestion c).run a m { env with traffic }).2 = ((congestion c).run a m env).2 ∧
        ((congestion c).run a m env).1.network.Reweighs
          ((congestion c).run a m { env with traffic }).1.network ∧
        ∀ e edge edge', ((congestion c).run a m env).1.network.edge? e = some edge →
          ((congestion c).run a m { env with traffic }).1.network.edge? e = some edge' →
          edge.NoLighter edge' ∨ edge.factors.valueOf Congestion.name = 1 ∧
            c.threshold < edge'.factors.valueOf Congestion.name ∧
            edge'.factors.valueOf Congestion.name < 1) ∧
    (1 ≤ c.threshold → c.NeverAttracts) := by
  have hrun (a : Pedestrian Exact) (m : CognitiveMap Exact) (env : Surroundings Exact)
      (traffic : Traffic Exact) (ht : env.traffic.Busier traffic) :=
    differs_run_congestion hthreshold hweight ht a m
  refine ⟨fun a m env traffic ht => ?_, fun hone a m env traffic ht e edge edge' he he' => ?_⟩
  · obtain ⟨hresult, hdiffers⟩ := hrun a m env traffic ht
    exact ⟨hresult, hdiffers.reweighs, fun e edge edge' he he' => hdiffers.noLighter he he'⟩
  · rcases (hrun a m env traffic ht).2.noLighter he he' with hno | ⟨-, habove, hbelow⟩
    · exact hno
    · exact absurd hbelow (Exact.not_lt_of_le (Exact.le_trans hone (Exact.le_of_lt habove)))

section
open Sensor

/-- One person in the hall heads for its door at the given speed. -/
noncomputable def oneAtDoor (speed : Exact) : Traffic Exact :=
  OrderedMap.empty.insert 3 [⟨8, 0, speed⟩]

lemma busier_oneAtDoor (speed : Exact) : quiet.traffic.Busier (oneAtDoor speed) :=
  fun _ => ⟨[], .nil, List.nil_subperm⟩

/-- The edge through the door of the hall, as long as it has no factors. -/
noncomputable def hallEdge : Edge Exact :=
  ⟨0, 0, none, 3, ⟨⟨real 0, real 0⟩, ⟨real 1, real 0⟩⟩, 0, .empty⟩

/-- The guest writes the factor of the door of the hall, which has a width of one meter. -/
lemma exists_edge_guest (c : Congestion Exact) (traffic : Traffic Exact) : ∃ edge,
    ((congestion c).run guest guestMap { quiet with traffic }).1.network.edge? 0 = some edge ∧
    edge.factors.valueOf Congestion.name =
      c.factor Network.hallNetwork traffic hallEdge (real 1) := by
  have hdoor : ({ quiet with traffic } : Surroundings Exact).building.door? hallEdge.door =
      some ⟨3, .transition, hallEdge.line, 0, none, true⟩ := rfl
  have hwidth : Door.width (⟨3, .transition, hallEdge.line, 0, none, true⟩ : Door Exact) =
      real 1 := by
    show Scalar.sqrt ((real 1 - real 0) * (real 1 - real 0) +
      (real 0 - real 0) * (real 0 - real 0)) = real 1
    simp [sqrt_real]
  have hpos : (0 : Exact) < real 1 := by rw [zero_eq]; exact real_lt_real.2 one_pos
  have hfound := Congestion.edgeFactor_of_door c Network.hallNetwork hdoor
  rw [hwidth, if_pos hpos] at hfound
  have hfindings : (congestion c).findings guest guestMap.network { quiet with traffic } =
      .ok [(0, c.factor Network.hallNetwork traffic hallEdge (real 1))] :=
    bind_eq_ok_iff.2 ⟨_, mapM_cons_eq_ok_iff.2 ⟨_, [], hfound, rfl, rfl⟩, rfl⟩
  rw [run_of_findings (surveys_congestion c) hfindings]
  exact ⟨_, rfl, FactorBag.valueOf_insert _ _ _⟩

lemma factor_nobody (hthreshold : 0 ≤ c.threshold) :
    c.factor Network.hallNetwork .empty hallEdge (real 1) = 1 := by
  have hnone : c.atEdge Network.hallNetwork .empty hallEdge (real 1) = 0 := by
    show (0 : Exact) / real 1 = 0
    rw [zero_eq, real_div_real _ one_ne_zero, zero_div]
  rw [Congestion.factor, hnone, if_neg (Exact.not_lt_of_le hthreshold)]

lemma atEdge_oneAtDoor (c : Congestion Exact) {speed : Exact} {weight : ℝ}
    (h : c.agentWeight speed = real weight) :
    c.atEdge Network.hallNetwork (oneAtDoor speed) hallEdge (real 1) = real weight := by
  show (0 + c.agentWeight speed) / real 1 = real weight
  rw [h, zero_eq, real_add_real, real_div_real _ one_ne_zero, zero_add, div_one]

/-- A threshold below one lets a door attract people: one walker at a door of one meter makes its
factor a quarter, while it is one with nobody about. -/
theorem Congestion.not_neverAttracts : ¬∀ c : Congestion Exact, 0 ≤ c.threshold →
    0 < c.stationaryWeight → c.NeverAttracts := by
  intro h
  have hthreshold : (0 : Exact) ≤ real 0 := by rw [zero_eq]; exact real_le_real.2 le_rfl
  have hweight : (0 : Exact) < real 100 := by rw [zero_eq]; exact real_lt_real.2 (by norm_num)
  obtain ⟨edge, he, hvalue⟩ := exists_edge_guest ⟨real 0, real 100⟩ .empty
  obtain ⟨edge', he', hvalue'⟩ := exists_edge_guest ⟨real 0, real 100⟩ (oneAtDoor (real 2))
  have hwalker : Congestion.agentWeight ⟨real 0, real 100⟩ (real 2) = real (1 / 4) := by
    rw [Congestion.agentWeight_eq, one_eq, real_mul_real, real_div_real _ (by norm_num),
      smaller_real]
    norm_num
  refine (h ⟨real 0, real 100⟩ hthreshold hweight guest guestMap quiet _
    (busier_oneAtDoor (real 2)) 0 edge edge' he he').1 ?_
  rw [hvalue, hvalue', factor_nobody hthreshold, Congestion.factor,
    atEdge_oneAtDoor _ hwalker, if_pos (real_lt_real.2 (by norm_num)), one_eq]
  exact real_lt_real.2 (by norm_num)

/-- With a threshold of one, somebody who stands still makes the door of the hall no more
attractive. -/
theorem Sensor.run_busier_hall : quiet.traffic.Busier (oneAtDoor 0) ∧
    Congestion.NeverAttracts ⟨real 1, real 100⟩ ∧
    ∃ edge edge' : Edge Exact,
      ((congestion ⟨real 1, real 100⟩).run guest guestMap quiet).1.network.edge? 0 = some edge ∧
      ((congestion ⟨real 1, real 100⟩).run guest guestMap
        { quiet with traffic := oneAtDoor 0 }).1.network.edge? 0 = some edge' ∧
      edge.factors.valueOf Congestion.name = 1 ∧
      edge'.factors.valueOf Congestion.name = real 100 ∧ edge.NoLighter edge' := by
  have hthreshold : (0 : Exact) ≤ real 1 := by rw [zero_eq]; exact real_le_real.2 zero_le_one
  have hweight : (0 : Exact) < real 100 := by rw [zero_eq]; exact real_lt_real.2 (by norm_num)
  have hone : (1 : Exact) ≤ real 1 := by rw [one_eq]; exact real_le_real.2 le_rfl
  obtain ⟨hbusier, hnever⟩ := run_busier (c := ⟨real 1, real 100⟩) hthreshold hweight
  obtain ⟨edge, he, hvalue⟩ := exists_edge_guest ⟨real 1, real 100⟩ .empty
  obtain ⟨edge', he', hvalue'⟩ := exists_edge_guest ⟨real 1, real 100⟩ (oneAtDoor 0)
  have hstanding : Congestion.agentWeight ⟨real 1, real 100⟩ 0 = real 100 := by
    rw [Congestion.agentWeight_eq, Congestion.smaller_standing rfl]
  rw [factor_nobody hthreshold] at hvalue
  rw [Congestion.factor, atEdge_oneAtDoor _ hstanding,
    if_pos (real_lt_real.2 (by norm_num))] at hvalue'
  exact ⟨busier_oneAtDoor 0, hnever hone, edge, edge', he, he', hvalue, hvalue',
    hnever hone guest guestMap quiet _ (busier_oneAtDoor 0) 0 edge edge' he he'⟩

end

end Egress
