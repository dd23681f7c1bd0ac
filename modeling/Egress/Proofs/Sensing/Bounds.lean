import Egress.Proofs.Network.Coverage
import Egress.Proofs.Sensing.Congestion

/-!
# How small factors can be

Sensors write nothing but the values that they have found, so what is so of all these is so of every
factor that there ever is. None of them is below one but those of circulation, and these are never
below a tenth. A sum of what such factors deviate from one leaves no door without a cost.
-/
namespace Egress

section
variable {α : Type} {P : String → α → Prop} {name : String} {time value : α}

/-- Every factor in the bag has the property, which is one of names and values. -/
def FactorBag.All (bag : FactorBag α) (P : String → α → Prop) : Prop :=
  ∀ name f, bag.find? name = some f → P name f.value

lemma FactorBag.all_empty (P : String → α → Prop) :
    FactorBag.All (.empty : OrderedMap String (Factor α)) P := by
  intro name f hf
  simp at hf

lemma FactorBag.All.insert {bag : FactorBag α} (h : bag.All P) (hv : P name value) (time : α) :
    FactorBag.All (OrderedMap.insert bag name ⟨value, time⟩) P := by
  intro other f hf
  rw [OrderedMap.find?_insert] at hf
  split at hf
  · rename_i hother
    rw [hother, ← Option.some.inj hf]
    exact hv
  · exact h other f hf

namespace Network

variable {g g' : Network α}

/-- Every factor in the network has the property. -/
def AllFactors (g : Network α) (P : String → α → Prop) : Prop :=
  ∀ e edge, g.edge? e = some edge → edge.factors.All P

lemma allFactors_iff : g.AllFactors P ↔
    ∀ e name f, g.factor? e name = some f → P name f.value := by
  constructor
  · intro h e name f hf
    obtain ⟨edge, he, hfind⟩ := Option.bind_eq_some_iff.1 hf
    exact h e edge he name f hfind
  · intro h e edge he name f hfind
    apply h e name f
    rw [factor?, he]
    exact hfind

/-- It keeps the property to change edges in a way that keeps it. -/
lemma AllFactors.map_edges {u : EdgeId → Edge α → Edge α} (h : g.AllFactors P)
    (hedge : ∀ e, g'.edge? e = (g.edge? e).map (u e))
    (hu : ∀ e edge, edge.factors.All P → (u e edge).factors.All P) : g'.AllFactors P := by
  intro e edge' he'
  rw [hedge] at he'
  obtain ⟨edge, he, rfl⟩ := Option.map_eq_some_iff.1 he'
  exact hu e edge (h e edge he)

variable [Scalar α]

lemma AllFactors.setFactor (h : g.AllFactors P) (hv : P name value) (time : α) (e : EdgeId) :
    (g.setFactor name time e value).AllFactors P := by
  intro e' edge' he'
  rw [edge?_setFactor] at he'
  split at he'
  · obtain ⟨edge, he, rfl⟩ := Option.map_eq_some_iff.1 he'
    exact (h e' edge he).insert hv time
  · exact h e' edge' he'

lemma AllFactors.setFactors {values : List (EdgeId × α)} (h : g.AllFactors P)
    (hv : ∀ y ∈ values, P name y.2) (time : α) : (g.setFactors name time values).AllFactors P := by
  induction values generalizing g with
  | nil => exact h
  | cons y values ih =>
    obtain ⟨hy, hvalues⟩ := List.forall_mem_cons.1 hv
    exact ih (h.setFactor hy time y.1) hvalues

lemma AllFactors.addSubRoomDoors (h : g.AllFactors P) (b : Building α) (s : SubRoomId) :
    (g.addSubRoomDoors b s).1.AllFactors P := by
  rw [allFactors_iff] at *
  intro e name f hf
  rw [factor?_addSubRoomDoors] at hf
  exact h e name f hf

end Network

variable [Scalar α] {s : Sensor α} {m m' : CognitiveMap α}

/-- Whatever the sensor writes, for whomever, has the property. -/
structure Sensor.Writes (s : Sensor α) (P : String → α → Prop) : Prop where
  /-- So do the factors that are found for edges. -/
  found : ∀ a g env values, s.findings a g env = .ok values → ∀ y ∈ values, P s.name y.2
  /-- So do those of doors that were or are among the recent destinations. -/
  recent : ∀ r, s = .recency r → P s.name 1 ∧ ∀ age, P s.name (r.factor age)

lemma Recency.exists_factor_of_find?_doorFactors {r : Recency α} {history : List DoorId}
    {door : DoorId} {v : α} (h : (r.doorFactors history).find? door = some v) :
    ∃ age, v = r.factor age := by
  obtain ⟨⟨d, i⟩, -, heq⟩ := List.mem_map.1 (OrderedMap.mem_of_find?_ofList h)
  exact ⟨_, (Prod.mk.inj heq).2.symm⟩

theorem Sensor.Writes.run (hs : s.Writes P) (h : m.network.AllFactors P) (a : Pedestrian α)
    (env : Surroundings α) : (s.run a m env).1.network.AllFactors P := by
  rcases s.eq_or_surveys with rfl | ⟨r, rfl⟩ | hsurveys
  · exact h.addSubRoomDoors env.building a.subroom
  · obtain ⟨hone, hfactor⟩ := hs.recent r rfl
    apply h.map_edges (r.edge?_run m env)
    intro _ edge hedge
    unfold Recency.update
    split
    · rename_i v hv
      obtain ⟨age, rfl⟩ := Recency.exists_factor_of_find?_doorFactors hv
      exact hedge.insert (hfactor age) env.time
    · split
      · exact hedge.insert hone env.time
      · exact hedge
  · cases hfound : s.findings a m.network env with
    | error e =>
      rw [run_of_findings_error hsurveys hfound]
      exact h
    | ok values =>
      rw [run_of_findings hsurveys hfound]
      exact h.setFactors (hs.found a m.network env values hfound) env.time

theorem SensorSuite.Senses.allFactors {suite : SensorSuite α} {a : Pedestrian α}
    {env : Surroundings α} (hsuite : ∀ s registered, (s, registered) ∈ suite → s.Writes P)
    (h : suite.Senses a env m m') (hm : m.network.AllFactors P) : m'.network.AllFactors P :=
  h.holds (P := fun m => m.network.AllFactors P)
    (fun s registered _ hmem hm => (hsuite s registered hmem).run hm a env) hm

end

open Exact

/-- What factors with a name are not below: a tenth for circulation, and one for all else. -/
noncomputable def Factor.least (name : String) : Exact :=
  if name = Circulation.name then 0.1 else 1

/-- The value is not too small for a factor with the name. -/
def Factor.Bounded (name : String) (v : Exact) : Prop := Factor.least name ≤ v

lemma tenth_eq : (0.1 : Exact) = real (1 / 10) := by
  rw [ofScientific_eq]
  norm_num

lemma Factor.bounded_iff {name : String} {v : Exact} (h : name ≠ Circulation.name) :
    Factor.Bounded name v ↔ 1 ≤ v := by
  rw [Bounded, least, if_neg h]

lemma tenth_le_one : (0.1 : Exact) ≤ 1 := by
  rw [tenth_eq, one_eq, real_le_real]
  norm_num

lemma Circulation.tenth_le_factor (kind : SubRoomKind) : (0.1 : Exact) ≤ factor kind := by
  have hfive : (factor .unknown : Exact) = real 5 := congrArg real (Nat.cast_ofNat)
  cases kind
  case escalatorUp | escalatorDown | dedicatedArea | unknown =>
    show (0.1 : Exact) ≤ factor .unknown
    rw [hfive, tenth_eq, real_le_real]
    norm_num
  all_goals
    simp only [factor, ofScientific_eq, real_le_real]
    norm_num

lemma Congestion.one_le_factor {c : Congestion Exact} (hc : 1 ≤ c.threshold) (g : Network Exact)
    (traffic : Traffic Exact) (edge : Edge Exact) (width : Exact) :
    1 ≤ c.factor g traffic edge width := by
  unfold factor
  split
  · rename_i habove
    exact Exact.le_trans hc (Exact.le_of_lt habove)
  · simp [one_eq]

/-- Whatever the intensity and whatever the tolerance, even if they are no numbers. -/
lemma Danger.one_le_factor (intensity riskTolerance : Exact) :
    1 ≤ factor intensity riskTolerance := by
  obtain ⟨x, hx, hintensity⟩ := exists_sanitize intensity
  obtain ⟨t, ht, htolerance⟩ :
      ∃ t ≤ 1, Scalar.clamp (Scalar.finiteOr riskTolerance 0) 0 1 = real t := by
    rw [zero_eq, one_eq]
    obtain ⟨t, ht⟩ := exists_finiteOr riskTolerance 0
    refine ⟨max (min t 1) 0, ?_, by rw [ht, clamp_real]⟩
    exact max_le (min_le_right t 1) zero_le_one
  rw [factor, hintensity, htolerance, one_eq, real_sub_real, real_mul_real, real_add_real,
    real_le_real]
  exact le_add_of_nonneg_right (mul_nonneg (sub_nonneg.2 ht) hx)

/-- Also where the penalty is infinite. -/
lemma Recency.one_le_factor {r : Recency Exact} (hr : 0 ≤ r.penalty) (age : ℕ) :
    1 ≤ r.factor age := by
  unfold factor
  split
  · simp [one_eq]
  · rename_i hage
    have hlater : (0 : ℝ) < (r.depth - age : ℕ) := Nat.cast_pos.2 (by omega)
    have hdepth : (0 : ℝ) < r.depth := Nat.cast_pos.2 (by omega)
    rw [natCast_eq, natCast_eq, one_eq]
    cases hp : r.penalty with
    | real p =>
      have hp' : 0 ≤ p := by simpa [hp, zero_eq] using hr
      rw [real_mul_real, real_div_real _ hdepth.ne', real_add_real, real_le_real]
      exact le_add_of_nonneg_right (div_nonneg (mul_nonneg hp' hlater.le) hdepth.le)
    | posInf =>
      rw [posInf_mul_real hlater, posInf_div_real hdepth]
      trivial
    | negInf | nan =>
      rw [hp] at hr
      exact False.elim hr

namespace Sensor

lemma writes_discovery : (discovery : Sensor Exact).Writes Factor.Bounded := by
  refine ⟨fun a g env values h y hy => ?_, nofun⟩
  obtain rfl := Except.ok.inj h
  simp at hy

lemma writes_circulation : (circulation : Sensor Exact).Writes Factor.Bounded := by
  refine ⟨fun a g env values h y hy => ?_, nofun⟩
  obtain ⟨edge, -, hedge⟩ := exists_of_mem_mapM h hy
  have hleast : Factor.least (circulation : Sensor Exact).name = 0.1 := if_pos rfl
  rw [Factor.Bounded, hleast]
  obtain ⟨-, hone | ⟨kind, hkind⟩⟩ := Circulation.edgeFactor_cases hedge
  · rw [hone]
    exact tenth_le_one
  · rw [hkind]
    exact Circulation.tenth_le_factor kind

/-- Congestion writes nothing below its threshold, unless that is one. -/
lemma writes_congestion {c : Congestion Exact} (hc : 1 ≤ c.threshold) :
    (congestion c).Writes Factor.Bounded := by
  refine ⟨fun a g env values h y hy => ?_, nofun⟩
  obtain ⟨found, hfound, hvalues⟩ := bind_eq_ok_iff.1 h
  obtain rfl : found.filterMap id = values := Except.ok.inj hvalues
  obtain ⟨y', hy', rfl⟩ := List.mem_filterMap.1 hy
  obtain ⟨edge, -, hedge⟩ := exists_of_mem_mapM hfound hy'
  obtain ⟨width, rfl⟩ := Congestion.eq_of_edgeFactor hedge
  apply (Factor.bounded_iff (by rw [name]; decide)).2
  exact Congestion.one_le_factor hc g env.traffic edge width

lemma writes_danger (quantity : HazardQuantity) :
    (danger quantity : Sensor Exact).Writes Factor.Bounded := by
  refine ⟨fun a g env values h y hy => ?_, nofun⟩
  obtain ⟨entry, -, hentry⟩ := exists_of_mem_mapM h hy
  obtain ⟨x, -, hx⟩ := bind_eq_ok_iff.1 hentry
  rw [← Except.ok.inj hx]
  apply (Factor.bounded_iff (by rw [name]; decide)).2
  exact Danger.one_le_factor x a.riskTolerance

lemma writes_recency {r : Recency Exact} (hr : 0 ≤ r.penalty) :
    (recency r).Writes Factor.Bounded := by
  refine ⟨fun a g env values h y hy => ?_, fun r' hr' => ?_⟩
  · obtain rfl := Except.ok.inj h
    simp at hy
  · cases hr'
    have hbounded (v : Exact) : Factor.Bounded (recency r).name v ↔ 1 ≤ v :=
      Factor.bounded_iff (by rw [name]; decide)
    simp only [hbounded]
    exact ⟨by simp [one_eq], Recency.one_le_factor hr⟩

end Sensor

/-- None of the sensors that are asked for writes a factor that is too small, as long as a door is
not congested below one and recent destinations are not rewarded. -/
theorem SensorSuite.writes_least {p : SensorParams Exact} (hthreshold : 1 ≤ p.congestionThreshold)
    (hpenalty : 0 ≤ p.recencyPenalty) {s : Sensor Exact} {registered : Events}
    (h : (s, registered) ∈ ofParams p) : s.Writes Factor.Bounded := by
  rcases mem_ofParams_cases h with rfl | rfl | rfl | rfl | rfl
  · exact Sensor.writes_discovery
  · exact Sensor.writes_circulation
  · exact Sensor.writes_congestion hthreshold
  · exact Sensor.writes_danger p.dangerQuantity
  · exact Sensor.writes_recency hpenalty

/-- With such factors the multiplier is a tenth at least, and is never held at zero. -/
theorem FactorBag.All.multiplier {bag : FactorBag Exact}
    (h : bag.All Factor.Bounded) : 0.1 ≤ bag.multiplier ∧
      bag.multiplier = 1 + Scalar.sum (bag.values.map fun f => f.value - 1) := by
  have hcirculation : 0.1 ≤ bag.valueOf Circulation.name := by
    cases hfind : bag.find? Circulation.name with
    | none => simpa [FactorBag.valueOf, hfind] using tenth_le_one
    | some f =>
      have hf := h Circulation.name f hfind
      simpa [FactorBag.valueOf, hfind, Factor.Bounded, Factor.least] using hf
  rw [tenth_eq] at hcirculation ⊢
  apply FactorBag.le_multiplier (by norm_num) hcirculation
  intro other f hother hfind
  exact (Factor.bounded_iff hother).1 (h other f hfind)

/-- No factor of the edge makes up for the way to its door. -/
structure Edge.KeepsCost (edge : Edge Exact) : Prop where
  others : ∀ name f, name ≠ Circulation.name → edge.factors.find? name = some f → 1 ≤ f.value
  circulation : ∀ f, edge.factors.find? Circulation.name = some f → 0.1 ≤ f.value
  multiplier : 0.1 ≤ edge.factors.multiplier
  /-- The multiplier is never held at zero. -/
  plain : edge.factors.multiplier =
    1 + Scalar.sum (edge.factors.values.map fun f => f.value - 1)
  /-- Nothing is for free but to stand in the middle of the door. -/
  weight : ∀ p, edge.weight p = 0 → p.IsFinite ∧ p = edge.line.centre

theorem Edge.keepsCost {edge : Edge Exact}
    (h : edge.factors.All Factor.Bounded) : edge.KeepsCost := by
  obtain ⟨hmult, hplain⟩ := h.multiplier
  refine ⟨?_, ?_, hmult, hplain, ?_⟩
  · intro name f hname hfind
    exact (Factor.bounded_iff hname).1 (h name f hfind)
  · intro f hfind
    simpa [Factor.Bounded, Factor.least] using h Circulation.name f hfind
  · intro p hp
    rw [tenth_eq] at hmult
    exact Edge.eq_centre_of_weight (by norm_num) hmult hp

end Egress
