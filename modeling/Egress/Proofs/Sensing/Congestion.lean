import Egress.Proofs.Sensing.Firing
import Egress.Proofs.Sensing.Traffic

/-!
# Maps with the congestion of the moment

Where congestion is sensed to its end, every edge through a door that has a width gets the factor of
the congestion at its door, whatever it had before. What is sensed later leaves it as it is. The
edges through a door have the same people about them, and so the same factor.
-/
namespace Egress

variable {α : Type} [Scalar α] {a : Pedestrian α} {m m' : CognitiveMap α} {env : Surroundings α}
  {g g' : Network α} {e : EdgeId} {edge : Edge α} {d : Door α} {c : Congestion α}

namespace Congestion

/-- The factor of an edge whose door has the given width. -/
def factor (c : Congestion α) (g : Network α) (traffic : Traffic α) (edge : Edge α) (width : α) :
    α :=
  if c.threshold < c.atEdge g traffic edge width then c.atEdge g traffic edge width else 1

/-- For an edge with a door a factor is found if the door has a width. -/
lemma edgeFactor_of_door (c : Congestion α) (g : Network α)
    (hd : env.building.door? edge.door = some d) :
    c.edgeFactor g env edge =
      .ok (if 0 < d.width then some (edge.id, c.factor g env.traffic edge d.width) else none) := by
  unfold edgeFactor
  simp only [Surroundings.door_eq_ok_iff.2 hd, ok_bind]
  split
  · rfl
  · rfl

/-- A factor that is found is that of the edge for which it has been found. -/
lemma eq_of_edgeFactor {y : EdgeId × α} (h : c.edgeFactor g env edge = .ok (some y)) :
    ∃ width, y = (edge.id, c.factor g env.traffic edge width) := by
  obtain ⟨d, hdoor, -⟩ := bind_eq_ok_iff.1 h
  rw [c.edgeFactor_of_door g (Surroundings.door_eq_ok_iff.1 hdoor), Except.ok.injEq] at h
  split at h
  · exact ⟨d.width, (Option.some.inj h).symm⟩
  · cases h

lemma factor_reweigh (hw : g.Reweighs g') (traffic : Traffic α) (bag : FactorBag α) (width : α) :
    c.factor g' traffic (edge.withFactors bag) width = c.factor g traffic edge width := by
  have hdest : g'.destSubRoom? edge.id = g.destSubRoom? edge.id := by
    obtain ⟨bag', hbag'⟩ := hw.edge edge.id
    rw [Network.destSubRoom?, Network.destSubRoom?, hbag', Option.bind_map]
    simp only [Function.comp_def, Edge.withFactors, funext hw.subroomAt?_eq]
  have hat : c.atEdge g' traffic (edge.withFactors bag) width = c.atEdge g traffic edge width := by
    simp only [atEdge, Edge.withFactors, hw.subroomAt?_eq, hdest]
  simp only [factor, hat]

/-- The people about an edge are those on the two sides of its door. -/
lemma atEdge_eq (c : Congestion α) {b : Building α} (hg : g.WellFormed) (hf : g.Faithful b)
    (he : g.edge? e = some edge) (hd : b.door? edge.door = some d) (traffic : Traffic α)
    (width : α) : c.atEdge g traffic edge width =
      Scalar.sum (((traffic.approaching edge.door).filter fun p => d.connects p.subroom).map
        fun p => c.agentWeight p.speed) / width := by
  obtain ⟨s, d', hdepicts⟩ := hf.edge e edge he
  obtain rfl : d = d' := Option.some.inj (hd.symm.trans hdepicts.door)
  have hdest : g.destSubRoom? edge.id = edge.dest.bind g.subroomAt? := by
    rw [Network.destSubRoom?, hg.id_eq e edge he, he, Option.bind_some]
  have hside (t : SubRoomId) : (some t == g.subroomAt? edge.source ||
      some t == g.destSubRoom? edge.id) = d.connects t := by
    rw [Bool.eq_iff_iff, Building.connects_iff_of_otherSide hdepicts.side, hdest, hdepicts.source,
      Bool.or_eq_true, beq_iff_eq, beq_iff_eq, Option.some.injEq,
      eq_comm (b := edge.dest.bind g.subroomAt?)]
  simp only [atEdge, hside]

theorem factor_eq_of_door {b : Building α} (hg : g.WellFormed) (hf : g.Faithful b) {e' : EdgeId}
    {edge' : Edge α} (he : g.edge? e = some edge) (he' : g.edge? e' = some edge')
    (hdoor : edge'.door = edge.door) (traffic : Traffic α) (width : α) :
    c.factor g traffic edge' width = c.factor g traffic edge width := by
  obtain ⟨s, d, hdepicts⟩ := hf.edge e edge he
  have hd := hdepicts.door
  have hd' : b.door? edge'.door = some d := hdoor ▸ hd
  simp only [factor, atEdge_eq c hg hf he hd, atEdge_eq c hg hf he' hd', hdoor]

/-- What the people who head for a door from one of the subrooms weigh, per meter of its width:
each one over the square of the speed, but no more than a person who stands still. -/
def crowding (stationaryWeight : α) (agents : List (Pedestrian α)) (door : DoorId)
    (sides : List (Option SubRoomId)) (width : α) : α :=
  Scalar.sum ((agents.filter fun p => p.destination = some door ∧ some p.subroom ∈ sides).map
    fun p => Scalar.smaller (1 / (p.speed * p.speed)) stationaryWeight) / width

/-- A weight that is no number is ignored anyway. -/
lemma agentWeight_eq (c : Congestion α) (speed : α) :
    c.agentWeight speed = Scalar.smaller (1 / (speed * speed)) c.stationaryWeight := by
  simp only [agentWeight]
  split
  · rename_i hnan
    rw [Scalar.smaller, if_pos hnan]
  · rfl

/-- Congestion at an edge is the crowd that heads for its door from its subrooms. -/
theorem atEdge_ofAgents (c : Congestion α) (g : Network α) (agents : List (Pedestrian α))
    (edge : Edge α) (width : α) :
    c.atEdge g (.ofAgents agents) edge width = crowding c.stationaryWeight agents edge.door
      [g.subroomAt? edge.source, g.destSubRoom? edge.id] width := by
  have hnear : ((agents.filter (·.destination = some edge.door)).map fun p =>
        (⟨p.id, p.subroom, p.speed⟩ : Approach α)).filter (fun p =>
          some p.subroom == g.subroomAt? edge.source ||
            some p.subroom == g.destSubRoom? edge.id) =
      (agents.filter fun p => p.destination = some edge.door ∧
        some p.subroom ∈ [g.subroomAt? edge.source, g.destSubRoom? edge.id]).map fun p =>
          ⟨p.id, p.subroom, p.speed⟩ := by
    rw [List.filter_map, List.filter_filter]
    congr 2
    funext p
    rw [Bool.eq_iff_iff]
    simp [and_comm]
  simp only [atEdge, crowding, Traffic.approaching_ofAgents, hnear, List.map_map,
    Function.comp_def, agentWeight_eq]

/-- A person who stands still weighs as much as anybody can. -/
lemma smaller_standing {weight : Exact} (h : Scalar.isNaN weight = false) :
    Scalar.smaller (1 / ((0 : Exact) * 0)) weight = weight := by
  rw [Exact.one_eq, Exact.zero_eq, Exact.real_mul_real, mul_zero, Exact.real_one_div_zero]
  apply Exact.place_injective
  rw [Exact.place_smaller]
  cases weight with
  | nan => cases h
  | real x => exact min_eq_right (WithTop.coe_le_coe.2 le_top)
  | posInf => exact min_self _
  | negInf => exact min_eq_right (WithTop.coe_le_coe.2 le_top)

lemma crowding_eq_zero {weight width : Exact} {agents : List (Pedestrian Exact)} {door : DoorId}
    (h : ∀ p ∈ agents, p.destination ≠ some door) (hwidth : 0 < width)
    (sides : List (Option SubRoomId)) : crowding weight agents door sides width = 0 := by
  have hnobody : (agents.filter fun p => p.destination = some door ∧ some p.subroom ∈ sides) =
      [] := by
    rw [List.filter_eq_nil_iff]
    intro p hp hheads
    exact h p hp (of_decide_eq_true hheads).1
  rw [crowding, hnobody]
  show (0 : Exact) / width = 0
  rw [Exact.zero_eq] at hwidth ⊢
  cases width with
  | real x => rw [Exact.real_div_real 0 (Exact.real_lt_real.1 hwidth).ne', zero_div]
  | posInf => rfl
  | negInf => exact absurd hwidth (Exact.not_lt_negInf _)
  | nan => exact absurd hwidth (Exact.not_lt_nan _)

end Congestion

/-- Every edge through a door that has a width has the factor of the moment. -/
def CognitiveMap.Congested (m : CognitiveMap α) (c : Congestion α) (env : Surroundings α) : Prop :=
  ∀ e edge d, m.network.edge? e = some edge → env.building.door? edge.door = some d → 0 < d.width →
    m.network.factor? e Congestion.name =
      some ⟨c.factor m.network env.traffic edge d.width, env.time⟩

lemma CognitiveMap.Congested.reweigh (h : m.Congested c env) (hw : m.Reweighs m')
    (hsame : ∀ e, m'.network.factor? e Congestion.name = m.network.factor? e Congestion.name) :
    m'.Congested c env := by
  intro e edge d he hd hwidth
  obtain ⟨old, bag, hold, rfl⟩ := hw.network.exists_edge? he
  rw [hsame, Congestion.factor_reweigh hw.network]
  exact h e old d hold hd hwidth

namespace Sensor

variable {s : Sensor α}

omit [Scalar α] in
lemma exists_congestion_of_name (h : s.name = Congestion.name) : ∃ c, s = .congestion c := by
  cases s with
  | congestion c => exact ⟨c, rfl⟩
  | discovery | circulation | danger _ | recency _ => exact absurd h (by rw [name]; decide)

/-- Congestion that is sensed to its end has been written everywhere. -/
theorem congested_run_congestion (hm : m.network.WellFormed)
    (hok : ((Sensor.congestion c).run a m env).2 = .ok ()) :
    ((Sensor.congestion c).run a m env).1.Congested c env := by
  have hw : m.Reweighs ((Sensor.congestion c).run a m env).1 := reweighs_run nofun
  intro e edge d he hd hwidth
  obtain ⟨old, bag, hold, rfl⟩ := hw.network.exists_edge? he
  rw [Congestion.factor_reweigh hw.network]
  cases hfindings : (Sensor.congestion c).findings a m.network env with
  | error error =>
    rw [run_of_findings_error (surveys_congestion c) hfindings] at hok
    cases hok
  | ok values =>
    rw [run_of_findings (surveys_congestion c) hfindings]
    obtain ⟨found, hfound, hvalues⟩ := bind_eq_ok_iff.1 hfindings
    obtain rfl : found.filterMap id = values := Except.ok.inj hvalues
    have hfactor := Congestion.edgeFactor_of_door c m.network
      (show env.building.door? old.door = some d from hd)
    rw [if_pos hwidth, hm.id_eq e old hold] at hfactor
    have hmem : old ∈ m.network.edges.toList :=
      Array.mem_toList_iff.2 (Array.mem_of_getElem? hold)
    obtain ⟨y, hy, hyold⟩ := exists_mem_of_mapM hfound hmem
    obtain rfl : some (e, c.factor m.network env.traffic old d.width) = y :=
      Except.ok.inj (hfactor.symm.trans hyold)
    have hlisted : (e, c.factor m.network env.traffic old d.width) ∈ found.filterMap id :=
      List.mem_filterMap.2 ⟨_, hy, rfl⟩
    have hall : ∀ y ∈ found.filterMap id, ∃ edge ∈ m.network.edges.toList, edge.id = y.1 ∧
        c.edgeFactor m.network env edge = .ok (some (edge.id, y.2)) := by
      intro y hy
      obtain ⟨y', hy', rfl⟩ := List.mem_filterMap.1 hy
      obtain ⟨edge, hmem, hedge⟩ := exists_of_mem_mapM hfound hy'
      obtain ⟨width, hfactor⟩ := Congestion.eq_of_edgeFactor hedge
      have hid : y.1 = edge.id := congrArg Prod.fst hfactor
      exact ⟨edge, hmem, hid.symm, hid ▸ hedge⟩
    obtain ⟨v, hv, hwritten⟩ := Network.exists_found_setFactors
      (R := fun edge v => c.edgeFactor m.network env edge = .ok (some (edge.id, v))) hm hall hold
      hlisted Congestion.name env.time
    rw [hm.id_eq e old hold, hfactor, Except.ok.injEq, Option.some.injEq, Prod.mk.injEq] at hv
    rw [hv.2]
    exact hwritten

/-- Congestion stays written whatever is sensed later. -/
theorem congested_run (hs : s ≠ .discovery) (hc : ∀ c', s = .congestion c' → c' = c)
    (hm : m.network.WellFormed) (h : m.Congested c env) :
    (s.run a m env).1.Congested c env := by
  by_cases hname : s.name = Congestion.name
  · obtain ⟨c', rfl⟩ := exists_congestion_of_name hname
    obtain rfl := hc c' rfl
    cases hrun : ((Sensor.congestion c').run a m env).2 with
    | ok _ => exact congested_run_congestion hm hrun
    | error e =>
      rw [run_eq_of_error hs hrun]
      exact h
  · refine h.reweigh (reweighs_run hs) fun e => ?_
    rcases s.run_updates a m env e Congestion.name with hsame | ⟨heq, -⟩
    · exact hsame
    · exact absurd heq.symm hname

end Sensor

/-- An event that finishes and is meant for congestion, but not for discovery, has it written
everywhere. -/
theorem SensorSuite.congested_fire {events registered : Events} {suite : SensorSuite α}
    (hm : m.network.WellFormed) (hmem : (.congestion c, registered) ∈ suite)
    (hint : registered.intersects events = true)
    (honly : ∀ c' registered', (.congestion c', registered') ∈ suite → c' = c)
    (hdiscovery : ∀ s registered', (s, registered') ∈ suite →
      registered'.intersects events = true → s ≠ .discovery) {n : ℕ}
    (hok : (fire events a env suite m).2 = .ok n) :
    (fire events a env suite m).1.Congested c env := by
  rw [← fire_filter] at hok ⊢
  obtain ⟨m₁, hbefore, hrun, hafter⟩ :=
    exists_run_of_fire hok (List.mem_filter.2 ⟨hmem, hint⟩) hint
  have hm₁ := (hbefore.learns hm).1
  have hwritten : ((Sensor.congestion c).run a m₁ env).1.network.WellFormed ∧
      ((Sensor.congestion c).run a m₁ env).1.Congested c env :=
    ⟨(Sensor.run_learns hm₁ _ a env).1, Sensor.congested_run_congestion hm₁ hrun⟩
  refine (hafter.holds (P := fun m => m.network.WellFormed ∧ m.Congested c env) ?_ hwritten).2
  intro s registered' m₂ hmem' h₂
  obtain ⟨hmem', hint'⟩ := List.mem_filter.1 hmem'
  refine ⟨(s.run_learns h₂.1 a env).1, Sensor.congested_run (hdiscovery s _ hmem' hint') ?_ h₂.1
    h₂.2⟩
  rintro c' rfl
  exact honly c' registered' hmem'

end Egress
