import Egress.Proofs.Router.Periodic
import Egress.Proofs.Sensing.Congestion

/-!
# Congestion after a periodic update

A periodic update takes note of who heads for which door before it runs any sensor, and congestion
is sensed by everybody whose sensors all finish. So their maps show the crowds of that moment, and
nothing of earlier ones.
-/
namespace Egress.Router

section
variable {α : Type} [Scalar α] {b : Building α} {params : RouterParams α} {r : Router α}
  {agents : List (Pedestrian α)} {a : Pedestrian α}

lemma periodicFor_finishes {m : CognitiveMap α} (hb : b.WellFormed) (hr : r.Serves b params)
    (hh : ∀ f, r.hazard = some f → f.OnlyMisses) (ha : ∃ sub, b.subroom? a.subroom = some sub)
    (hm : r.mapToUpdate? a.id = some m) (agents : List (Pedestrian α)) (time : α) :
    ((r.noting agents).periodicFor a time).2 = true := by
  obtain ⟨hsound, -, -⟩ := hr.maps a.id m (find?_of_mapToUpdate? hm)
  obtain rfl := hr.building_eq
  have hmap : (r.noting agents).mapToUpdate? a.id = some m := hm
  have hsuite : (r.noting agents).suite = .ofParams params.sensors := hr.suite_eq
  rw [periodicFor_of_some hmap, isOk_iff, update, hsuite]
  exact (SensorSuite.fire_ofParams_ok hb hsound hh ha params.sensors).1

/-- The map of everybody whose sensors finish in a periodic update shows the congestion of the
moment. -/
lemma exists_congested (hb : b.Made) (hr : Reachable b params r)
    (hcongestion : params.sensors.congestion = true) (hids : (agents.map (·.id)).Nodup)
    (time : α) (ha : a ∈ agents) (hok : ((r.noting agents).periodicFor a time).2 = true) :
    ∃ m, (r.periodic agents time).1.maps.find? a.id = some m ∧
      m.Congested ⟨params.sensors.congestionThreshold, params.sensors.stationaryWeight⟩
        ⟨b, time, .ofAgents agents, r.hazard⟩ ∧
      m.network.WellFormed ∧ m.network.Faithful b := by
  have hserves := hr.serves hb.wellFormed
  have hmap : (r.noting agents).mapToUpdate? a.id = r.mapToUpdate? a.id := rfl
  cases hm : r.mapToUpdate? a.id with
  | none =>
    rw [periodicFor_of_none (hmap.trans hm)] at hok
    cases hok
  | some m =>
    rw [periodicFor_of_some (hmap.trans hm)] at hok
    obtain ⟨-, -, hupdated⟩ := periodic_spec hids r time
    refine ⟨_, hupdated a ha m hm, ?_⟩
    obtain ⟨hsound, -, -⟩ := hserves.maps a.id m (find?_of_mapToUpdate? hm)
    have hdiscovery : ∀ s registered, (s, registered) ∈ r.suite →
        registered.intersects .periodic = true → s ≠ .discovery := by
      intro s registered hmem
      exact SensorSuite.ne_discovery_of_periodic (hserves.suite_eq ▸ hmem)
    have hw : m.Reweighs ((r.noting agents).update a time m).1 :=
      SensorSuite.reweighs_fire hdiscovery
    refine ⟨?_, hsound.wellFormed.reweigh hw.network,
      hsound.faithful.reweigh hsound.wellFormed hw.network⟩
    obtain ⟨n, hn⟩ := isOk_iff.1 hok
    have hmem := hserves.suite_eq ▸ SensorSuite.congestion_mem hcongestion
    have honly : ∀ c registered, (.congestion c, registered) ∈ r.suite →
        c = ⟨params.sensors.congestionThreshold, params.sensors.stationaryWeight⟩ := by
      intro c registered hmem
      exact SensorSuite.eq_of_congestion_mem (hserves.suite_eq ▸ hmem)
    have hmeant : (Sensor.congestion ⟨params.sensors.congestionThreshold,
        params.sensors.stationaryWeight⟩ : Sensor α).usualEvents.intersects .periodic = true := by
      rw [Sensor.usualEvents]
      decide
    have hcongested := SensorSuite.congested_fire hsound.wellFormed hmem hmeant honly hdiscovery hn
    obtain rfl := hserves.building_eq
    exact hcongested

end

section
variable {b : Building Exact} {params : RouterParams Exact} {r : Router Exact}
  {agents : List (Pedestrian Exact)} {a : Pedestrian Exact}

/-- A periodic update writes congestion on every edge with a door that has a width, in the map of
everybody whose sensors finish: that of the people who are updated, where it lies above the
threshold, and else one. Edges through one door get the same factor. -/
theorem periodic_congestion (hb : b.Made) (hr : Reachable b params r)
    (hcongestion : params.sensors.congestion = true) (hids : (agents.map (·.id)).Nodup)
    (time : Exact) (ha : a ∈ agents) (hok : ((r.noting agents).periodicFor a time).2 = true) :
    (Scalar.isNaN params.sensors.stationaryWeight = false →
      Scalar.smaller (1 / ((0 : Exact) * 0)) params.sensors.stationaryWeight =
        params.sensors.stationaryWeight) ∧
    ∃ m, (r.periodic agents time).1.maps.find? a.id = some m ∧
      ∀ e edge, m.network.edge? e = some edge → ∃ d, b.door? edge.door = some d ∧ (0 < d.width →
        (∃ c, c = Congestion.crowding params.sensors.stationaryWeight agents edge.door
            [m.network.subroomAt? edge.source, m.network.destSubRoom? e] d.width ∧
          m.network.factor? e Congestion.name =
            some ⟨if params.sensors.congestionThreshold < c then c else 1, time⟩) ∧
        (∀ e' edge', m.network.edge? e' = some edge' → edge'.door = edge.door →
          m.network.factor? e' Congestion.name = m.network.factor? e Congestion.name) ∧
        (0 ≤ params.sensors.congestionThreshold →
          (∀ p ∈ agents, p.destination ≠ some edge.door) →
          m.network.factor? e Congestion.name = some ⟨1, time⟩)) := by
  refine ⟨Congestion.smaller_standing, ?_⟩
  obtain ⟨m, hm, hcongested, hwf, hf⟩ := exists_congested hb hr hcongestion hids time ha hok
  refine ⟨m, hm, fun e edge he => ?_⟩
  obtain ⟨s, d, hdepicts⟩ := hf.edge e edge he
  refine ⟨d, hdepicts.door, fun hwidth => ?_⟩
  have hat := Congestion.atEdge_ofAgents
    ⟨params.sensors.congestionThreshold, params.sensors.stationaryWeight⟩ m.network agents edge
    d.width
  rw [hwf.id_eq e edge he] at hat
  have hfactor := hcongested e edge d he hdepicts.door hwidth
  simp only [Congestion.factor, hat] at hfactor
  refine ⟨⟨_, rfl, hfactor⟩, fun e' edge' he' hdoor => ?_, fun hthreshold hnobody => ?_⟩
  · have hfactor' := hcongested e' edge' d he' (hdoor ▸ hdepicts.door) hwidth
    rw [Congestion.factor_eq_of_door hwf hf he he' hdoor] at hfactor'
    exact hfactor'.trans (hcongested e edge d he hdepicts.door hwidth).symm
  · rw [hfactor, Congestion.crowding_eq_zero hnobody hwidth, if_neg]
    exact Exact.not_lt_of_le hthreshold

open Exact

/-- The visitor of the pavilion, who heads for its door without moving. -/
noncomputable def waiting : Pedestrian Exact := { visitor with destination := some 3 }

/-- Smoke is nowhere to be found. -/
noncomputable def clearAir : HazardField Exact := ⟨fun _ => .ok (real 0)⟩

/-- One person who stands at a door of one meter weighs 100. -/
lemma crowding_waiting {source : Option SubRoomId} (h : source = some 5)
    (dest : Option SubRoomId) :
    Congestion.crowding (real 100) [waiting] 3 [source, dest] (real 1) = real 100 := by
  have hspeed : waiting.speed = 0 := by
    show Scalar.sqrt (0 * 0 + 0 * 0 : Exact) = 0
    rw [zero_eq, real_mul_real, mul_zero, real_add_real, add_zero, sqrt_real le_rfl,
      Real.sqrt_zero]
  have hcrowd : ([waiting].filter fun p => p.destination = some 3 ∧
      some p.subroom ∈ [source, dest]) = [waiting] := by
    rw [h]
    rfl
  rw [Congestion.crowding, hcrowd, List.map_singleton, hspeed, Congestion.smaller_standing rfl]
  show (0 + real 100) / real 1 = real 100
  rw [zero_eq, real_add_real, real_div_real _ one_ne_zero, zero_add, div_one]

lemma width_pavilion {d : Door Exact} (hd : pavilion.door? 3 = some d) : d.width = real 1 := by
  obtain rfl := Option.some.inj hd
  show Scalar.sqrt ((real 1 - real 0) * (real 1 - real 0) + (real 0 - real 0) * (real 0 - real 0))
    = real 1
  simp [sqrt_real]

/-- While the visitor waits at the door of the pavilion, its factor is 100. -/
theorem periodic_congestion_pavilion : ∃ (r : Router Exact) (m : CognitiveMap Exact) (e : EdgeId),
    Reachable pavilion .standard r ∧ ((r.noting [waiting]).periodicFor waiting (real 1)).2 = true ∧
    (r.periodic [waiting] (real 1)).1.maps.find? 7 = some m ∧
    m.network.factor? e Congestion.name = some ⟨real 100, real 1⟩ := by
  have hwf := made_pavilion.wellFormed
  obtain ⟨r₀, r₁, a', hnew, ⟨r₂, hnew₂, hsteps⟩, hexit⟩ := exists_sent_pavilion
  obtain ⟨hroutable, m, hm, -⟩ := Reachable.exists_responds ⟨r₀, hnew, .refl⟩ hexit
  have hsteps' := hsteps.tail (.withHazard r₁ clearAir)
  have hreach : Reachable pavilion .standard (r₁.withHazard clearAir) := ⟨r₂, hnew₂, hsteps'⟩
  have hserves := hreach.serves hwf
  have hok : (((r₁.withHazard clearAir).noting [waiting]).periodicFor waiting (real 1)).2 =
      true := by
    have hclear : ∀ f, some clearAir = some f → f.OnlyMisses := by
      rintro f hf q e hmiss
      rw [← Option.some.inj hf] at hmiss
      cases hmiss
    have hmap : (r₁.withHazard clearAir).mapToUpdate? waiting.id = some m :=
      mapToUpdate?_eq hroutable hm
    exact periodicFor_finishes hwf hserves hclear ⟨_, rfl⟩ hmap [waiting] (real 1)
  have hids : ([waiting].map (·.id)).Nodup := List.nodup_singleton 7
  obtain ⟨-, m', hm', hedges⟩ := periodic_congestion made_pavilion hreach rfl hids (real 1)
    List.mem_cons_self hok
  have hafter : Reachable pavilion .standard _ :=
    ⟨r₂, hnew₂, hsteps'.tail (.periodic _ [waiting] (real 1))⟩
  obtain ⟨hsound', -, hmode⟩ := (hafter.serves hwf).maps 7 m' hm'
  obtain ⟨e, edge, hedge, hsource, hdoor⟩ := hsound'.complete hmode 5 _ rfl 3 ⟨_, rfl, rfl, rfl⟩
  obtain ⟨d, hd, hfactors⟩ := hedges e edge hedge
  have hwidth := width_pavilion (hdoor ▸ hd)
  obtain ⟨⟨c, hc, hfactor⟩, -⟩ := hfactors (by rw [hwidth, zero_eq]; exact real_lt_real.2 one_pos)
  have hhundred : (SensorParams.standard : SensorParams Exact).stationaryWeight = real 100 := by
    show ((100 : ℕ) : Exact) = real 100
    rw [natCast_eq, Nat.cast_ofNat]
  have hten : (SensorParams.standard : SensorParams Exact).congestionThreshold = real 10 := by
    show ((10 : ℕ) : Exact) = real 10
    rw [natCast_eq, Nat.cast_ofNat]
  rw [hdoor, hwidth, RouterParams.standard, hhundred, crowding_waiting hsource] at hc
  rw [hc, RouterParams.standard, hten, if_pos (real_lt_real.2 (by norm_num))] at hfactor
  exact ⟨r₁.withHazard clearAir, m', e, hreach, hok, hm', hfactor⟩

end

end Egress.Router
