import Egress.Hazard.Store
import Egress.Proofs.Network.Building
import Egress.Proofs.Sensing.Findings

/-!
# What sensors do to a map

A sensor adds the doors of the subroom that the person is in, or it writes factors. Either way the
map keeps what it had, and a map that is sound stays sound, also where a sensor fails. With hazards
that are at worst unknown no sensor of a person in an existing subroom does fail.
-/
namespace Egress

variable {α : Type}

/-- The source of hazard intensities fails only where it knows nothing. -/
def HazardField.OnlyMisses (f : HazardField α) : Prop :=
  ∀ q e, f.lookup q = .error e → ∃ key, e = .notFound key

theorem HazardStore.field_onlyMisses [Scalar α] (s : HazardStore α) : s.field.OnlyMisses := by
  intro q e h
  simp only [field, lookup] at h
  split at h
  · exact ⟨_, (Except.error.inj h).symm⟩
  · split at h
    · exact ⟨_, (Except.error.inj h).symm⟩
    · cases h

namespace CognitiveMap

/-- The second map knows what the first does, and nothing else of it has changed. -/
structure Learns (m m' : CognitiveMap α) : Prop where
  network : m.network.Extends m'.network
  kept : { m with network := m'.network } = m'

theorem Learns.trans {m m' m'' : CognitiveMap α} (h : m.Learns m') (h' : m'.Learns m'') :
    m.Learns m'' :=
  ⟨h.network.trans h'.network, by rw [← h'.kept, ← h.kept]⟩

/-- The second map differs from the first in factors only. -/
structure Reweighs (m m' : CognitiveMap α) : Prop where
  network : m.network.Reweighs m'.network
  kept : { m with network := m'.network } = m'

theorem Reweighs.refl (m : CognitiveMap α) : m.Reweighs m :=
  ⟨.refl m.network, rfl⟩

theorem Reweighs.trans {m m' m'' : CognitiveMap α} (h : m.Reweighs m') (h' : m'.Reweighs m'') :
    m.Reweighs m'' :=
  ⟨h.network.trans h'.network, by rw [← h'.kept, ← h.kept]⟩

theorem Reweighs.learns {m m' : CognitiveMap α} (h : m.Reweighs m') : m.Learns m' :=
  ⟨h.network.extends, h.kept⟩

theorem reweighs_setFactors [Scalar α] (m : CognitiveMap α) (name : String) (time : α)
    (values : List (EdgeId × α)) : m.Reweighs (m.setFactors name time values) :=
  ⟨Network.reweighs_setFactors name time values m.network, rfl⟩

/-- What the map shows is so in the building, and a complete one shows all open doors. -/
structure Sound [Scalar α] (m : CognitiveMap α) (b : Building α) : Prop where
  wellFormed : m.network.WellFormed
  faithful : m.network.Faithful b
  complete : m.mode = .complete → ∀ s sub, b.subroom? s = some sub → m.network.Knows b s

/-- The latest destination is remembered, and is an edge out of the subroom in which it was
chosen. -/
structure Recalls (m : CognitiveMap α) : Prop where
  depth_pos : 0 < m.depth
  chosen : ∀ s, m.lastSubRoom = some s → ∃ e edge, m.lastDestination? = some e ∧
    m.network.edge? e = some edge ∧ m.network.subroomAt? edge.source = some s

theorem Sound.learn [Scalar α] {m m' : CognitiveMap α} {b : Building α} (h : m.Sound b)
    (hm : m.Learns m') (hwf : m'.network.WellFormed) (hf : m'.network.Faithful b) :
    m'.Sound b := by
  refine ⟨hwf, hf, fun hmode s sub hs => ?_⟩
  rw [← hm.kept] at hmode
  exact (h.complete hmode s sub hs).extend hm.network

theorem Recalls.learn {m m' : CognitiveMap α} (h : m.Recalls) (hm : m.Learns m') :
    m'.Recalls := by
  constructor
  · rw [← hm.kept]
    exact h.depth_pos
  · intro s hs
    rw [← hm.kept] at hs
    obtain ⟨e, edge, hlast, hedge, hsource⟩ := h.chosen s hs
    obtain ⟨bag, hbag⟩ := hm.network.edge e edge hedge
    refine ⟨e, _, ?_, hbag, hm.network.subroomAt _ s hsource⟩
    rw [← hm.kept]
    exact hlast

end CognitiveMap

theorem Surroundings.subroom_eq_ok_iff {env : Surroundings α} {s : SubRoomId} {sub : SubRoom α} :
    env.subroom s = .ok sub ↔ env.building.subroom? s = some sub := by
  rw [Surroundings.subroom, ← Building.subroom_eq_ok_iff]
  cases env.building.subroom s with
  | ok sub' => simp [Except.mapError]
  | error e => simp [Except.mapError]

theorem Surroundings.door_eq_ok_iff {env : Surroundings α} {uid : DoorId} {d : Door α} :
    env.door uid = .ok d ↔ env.building.door? uid = some d := by
  rw [Surroundings.door, ← Building.door_eq_ok_iff]
  cases env.building.door uid with
  | ok d' => simp [Except.mapError]
  | error e => simp [Except.mapError]

section
variable [Scalar α] {a : Pedestrian α} {m m' : CognitiveMap α} {env : Surroundings α}

lemma Recency.exists_update (factors : OrderedMap DoorId α) (time : α) (edge : Edge α) :
    ∃ bag, Recency.update factors time edge = edge.withFactors bag := by
  unfold Recency.update
  split
  · exact ⟨_, rfl⟩
  · split
    · exact ⟨_, rfl⟩
    · exact ⟨edge.factors, rfl⟩

lemma Recency.edge?_run (r : Recency α) (m : CognitiveMap α) (env : Surroundings α)
    (e : EdgeId) : (r.run m env).network.edge? e =
      (m.network.edge? e).map (Recency.update (r.doorFactors m.historyDoors) env.time) :=
  Array.getElem?_map

/-- A sensor that neither discovers doors nor looks at recent destinations writes the factors that
it has found for some edges, or fails to find them and writes none. -/
lemma Sensor.run_cases (s : Sensor α) (a : Pedestrian α) (m : CognitiveMap α)
    (env : Surroundings α) : s = .discovery ∨ (∃ r, s = .recency r) ∨
      (∃ e, s.run a m env = (m, .error e)) ∨
      ∃ values, s.run a m env = (m.setFactors s.name env.time values, .ok ()) := by
  refine s.eq_or_surveys.imp_right (Or.imp_right fun hs => ?_)
  cases hfound : s.findings a m.network env with
  | error e => exact .inl ⟨e, run_of_findings_error hs hfound⟩
  | ok values => exact .inr ⟨values, run_of_findings hs hfound⟩

/-- All sensors but discovery write factors and nothing else, or nothing at all if they fail. -/
theorem Sensor.reweighs_run {s : Sensor α} (hs : s ≠ .discovery) :
    m.Reweighs (s.run a m env).1 := by
  rcases s.run_cases a m env with
    hdisc | ⟨r, rfl⟩ | ⟨e, hrun⟩ | ⟨values, hrun⟩
  · exact absurd hdisc hs
  · exact ⟨Network.reweighs_mapEdges m.network (Recency.exists_update _ _), rfl⟩
  · rw [hrun]
    exact CognitiveMap.Reweighs.refl m
  · rw [hrun]
    exact m.reweighs_setFactors s.name env.time values

/-- In any building a sensor keeps what is known, and keeps it well formed. -/
theorem Sensor.run_learns (hm : m.network.WellFormed) (s : Sensor α) (a : Pedestrian α)
    (env : Surroundings α) :
    (s.run a m env).1.network.WellFormed ∧ m.Learns (s.run a m env).1 := by
  by_cases hs : s = .discovery
  · subst hs
    obtain ⟨hwf, hext⟩ := hm.addSubRoomDoors (b := env.building) (s := a.subroom)
    exact ⟨hwf, hext, rfl⟩
  · have hw : m.Reweighs (s.run a m env).1 := Sensor.reweighs_run hs
    exact ⟨hm.reweigh hw.network, hw.learns⟩

theorem Sensor.run_sound (hb : env.building.WellFormed) (hm : m.Sound env.building)
    (s : Sensor α) : (s.run a m env).1.Sound env.building ∧ m.Learns (s.run a m env).1 := by
  obtain ⟨hwf, hlearns⟩ := s.run_learns hm.wellFormed a env
  refine ⟨hm.learn hlearns hwf ?_, hlearns⟩
  by_cases hs : s = .discovery
  · subst hs
    exact hm.faithful.addSubRoomDoors hb hm.wellFormed
  · have hw : m.Reweighs (s.run a m env).1 := Sensor.reweighs_run hs
    exact hm.faithful.reweigh hm.wellFormed hw.network

lemma Circulation.exists_edgeFactor {g : Network α} (hg : g.Faithful env.building)
    (edge : Edge α) : ∃ y, Circulation.edgeFactor g env edge = .ok y := by
  unfold Circulation.edgeFactor
  cases hdest : g.destSubRoom? edge.id with
  | none => exact ⟨_, rfl⟩
  | some t =>
    obtain ⟨edge', -, hw⟩ := Option.bind_eq_some_iff.1 hdest
    obtain ⟨w, -, ht⟩ := Option.bind_eq_some_iff.1 hw
    obtain ⟨sub, hsub⟩ := hg.subroom w t ht
    simp only [Surroundings.subroom_eq_ok_iff.2 hsub, ok_bind]
    cases hs : g.subroomAt? edge.source with
    | none => exact ⟨_, rfl⟩
    | some s =>
      obtain ⟨sub', hsub'⟩ := hg.subroom _ s hs
      simp only [Surroundings.subroom_eq_ok_iff.2 hsub']
      exact ⟨_, rfl⟩

lemma Congestion.exists_edgeFactor (c : Congestion α) {g : Network α}
    (hg : g.Faithful env.building) {edge : Edge α} (hedge : edge ∈ g.edges.toList) :
    ∃ y, c.edgeFactor g env edge = .ok y := by
  obtain ⟨e, he⟩ := List.mem_iff_getElem?.1 hedge
  rw [Array.getElem?_toList] at he
  obtain ⟨s, d, hd⟩ := hg.edge e edge he
  unfold Congestion.edgeFactor
  simp only [Surroundings.door_eq_ok_iff.2 hd.door, ok_bind]
  split
  · exact ⟨_, rfl⟩
  · exact ⟨_, rfl⟩

lemma Danger.exists_edgeFactor (hh : ∀ f, env.hazard = some f → f.OnlyMisses)
    (quantity : HazardQuantity) (edge : EdgeId × Edge α) :
    ∃ y, Danger.edgeFactor quantity a env edge = .ok y := by
  have hintensity : ∃ v, Danger.intensityAt quantity a env edge.2 = .ok v := by
    unfold Danger.intensityAt
    cases hf : env.hazard with
    | none => exact ⟨0, rfl⟩
    | some f =>
      simp only
      split
      · exact ⟨_, rfl⟩
      · exact ⟨0, rfl⟩
      · rename_i e hnot hlookup
        obtain ⟨key, rfl⟩ := hh f hf _ _ hlookup
        exact absurd rfl (hnot key)
  obtain ⟨v, hv⟩ := hintensity
  unfold Danger.edgeFactor
  simp only [hv]
  exact ⟨_, rfl⟩

lemma Sensor.exists_findings (hm : m.Sound env.building)
    (hh : ∀ f, env.hazard = some f → f.OnlyMisses) (s : Sensor α) (a : Pedestrian α) :
    ∃ values, s.findings a m.network env = .ok values := by
  cases s with
  | discovery | recency _ => exact ⟨[], rfl⟩
  | circulation =>
    exact exists_mapM fun edge (_ : edge ∈ m.network.edges.toList) =>
      Circulation.exists_edgeFactor hm.faithful edge
  | congestion c =>
    obtain ⟨found, hfound⟩ := exists_mapM fun edge (hedge : edge ∈ m.network.edges.toList) =>
      Congestion.exists_edgeFactor c hm.faithful hedge
    exact ⟨found.filterMap id, bind_eq_ok_iff.2 ⟨found, hfound, rfl⟩⟩
  | danger quantity =>
    exact exists_mapM fun edge _ => Danger.exists_edgeFactor (a := a) hh quantity edge

/-- The sensors of a person in an existing subroom finish, and discovery knows its doors then. -/
theorem Sensor.run_ok (hb : env.building.WellFormed) (hm : m.Sound env.building)
    (hh : ∀ f, env.hazard = some f → f.OnlyMisses)
    (ha : ∃ sub, env.building.subroom? a.subroom = some sub) (s : Sensor α) :
    (s.run a m env).2 = .ok () ∧
      (s = .discovery → (s.run a m env).1.network.Knows env.building a.subroom) := by
  rcases s.eq_or_surveys with rfl | ⟨r, rfl⟩ | hs
  · obtain ⟨n, hn, hknows⟩ := hm.wellFormed.addSubRoomDoors_spec hb ha
    refine ⟨?_, fun _ => hknows⟩
    simp only [Sensor.run, hn]
  · refine ⟨rfl, fun hdiscovery => ?_⟩
    cases hdiscovery
  · obtain ⟨values, hvalues⟩ := s.exists_findings hm hh a
    rw [run_of_findings hs hvalues]
    exact ⟨rfl, fun hdiscovery => absurd hdiscovery hs.ne_discovery⟩

end

end Egress
