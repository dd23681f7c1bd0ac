import Egress.Proofs.Router.States
import Egress.Proofs.Sensing.Firing

/-!
# Periodic updates

A periodic update runs the sensors for every person who has a map and is not refused, each on the
person's own map. The sensors of one person stop at the first that fails. What the sensors before it
have written stays: an update that fails is not undone.
-/
namespace Egress.Router

variable {α : Type} [Scalar α] {b : Building α} {params : RouterParams α} {r : Router α}
  {a : Pedestrian α} {m : CognitiveMap α} {time : α} {agents : List (Pedestrian α)}
  {p : SensorParams α}

/-- The map that is updated for a person: none for those who are refused. -/
def mapToUpdate? (r : Router α) (id : AgentId) : Option (CognitiveMap α) :=
  if r.isUnroutable id then none else r.maps.find? id

omit [Scalar α] in
lemma mapToUpdate?_eq {id : AgentId} (h : r.isUnroutable id = false)
    (hm : r.maps.find? id = some m) : r.mapToUpdate? id = some m := by
  rw [mapToUpdate?, h]
  exact hm

omit [Scalar α] in
lemma find?_of_mapToUpdate? {id : AgentId} (h : r.mapToUpdate? id = some m) :
    r.maps.find? id = some m := by
  unfold mapToUpdate? at h
  split at h
  · cases h
  · exact h

/-- What the sensors make of a person's map from time to time, and whether they finish. -/
def update (r : Router α) (a : Pedestrian α) (time : α) (m : CognitiveMap α) :
    CognitiveMap α × Except (SensorError α) ℕ :=
  SensorSuite.fire .periodic a (r.surroundings time) r.suite m

lemma periodicFor_of_none (h : r.mapToUpdate? a.id = none) (time : α) :
    r.periodicFor a time = (r, false) := by
  unfold mapToUpdate? at h
  unfold periodicFor
  split
  · rfl
  · rw [if_neg ‹_›] at h
    rw [h]

lemma periodicFor_of_some (h : r.mapToUpdate? a.id = some m) (time : α) :
    r.periodicFor a time = (r.withMap a.id (r.update a time m).1, (r.update a time m).2.isOk) := by
  unfold mapToUpdate? at h
  unfold periodicFor
  split
  · rw [if_pos ‹_›] at h
    cases h
  · rw [if_neg ‹_›] at h
    rw [h]
    simp only [run_sense, update, Router.withMap]
    split
    · rename_i hok
      rw [hok]
      rfl
    · rename_i herror
      rw [herror]
      rfl

lemma periodicFor_frame (r : Router α) (a : Pedestrian α) (time : α) :
    (∃ maps, (r.periodicFor a time).1 = { r with maps }) ∧
      ∀ id, id ≠ a.id → (r.periodicFor a time).1.maps.find? id = r.maps.find? id := by
  cases h : r.mapToUpdate? a.id with
  | none =>
    rw [periodicFor_of_none h]
    exact ⟨⟨r.maps, rfl⟩, fun _ _ => rfl⟩
  | some m =>
    rw [periodicFor_of_some h]
    exact ⟨⟨_, rfl⟩, fun id hid => OrderedMap.find?_insert_of_ne _ hid _⟩

/-- An update of one person depends on no other person's map. -/
lemma periodicFor_congr (maps : OrderedMap AgentId (CognitiveMap α))
    (h : maps.find? a.id = r.maps.find? a.id) (time : α) :
    (({ r with maps } : Router α).periodicFor a time).2 = (r.periodicFor a time).2 ∧
      (({ r with maps } : Router α).periodicFor a time).1.maps.find? a.id =
        (r.periodicFor a time).1.maps.find? a.id := by
  have hsame : ({ r with maps } : Router α).mapToUpdate? a.id = r.mapToUpdate? a.id := by
    simp only [mapToUpdate?, h]
    rfl
  cases hm : r.mapToUpdate? a.id with
  | none =>
    rw [periodicFor_of_none (hsame.trans hm), periodicFor_of_none hm]
    exact ⟨rfl, h⟩
  | some m =>
    rw [periodicFor_of_some (hsame.trans hm), periodicFor_of_some hm]
    refine ⟨rfl, ?_⟩
    simp only [Router.withMap, OrderedMap.find?_insert_self]
    rfl

/-- The update of one more person, with the count so far. -/
def tally (time : α) (rn : Router α × ℕ) (a : Pedestrian α) : Router α × ℕ :=
  ((rn.1.periodicFor a time).1, if (rn.1.periodicFor a time).2 then rn.2 + 1 else rn.2)

/-- Updating people with numbers of their own one after another is updating each of them alone. -/
lemma foldl_tally (hids : (agents.map (·.id)).Nodup) (r : Router α) (n : ℕ) (time : α) :
    (agents.foldl (tally time) (r, n)).2 =
        n + agents.countP (fun a => (r.periodicFor a time).2) ∧
      (∀ id, (∀ a ∈ agents, a.id ≠ id) →
        (agents.foldl (tally time) (r, n)).1.maps.find? id = r.maps.find? id) ∧
      ∀ a ∈ agents, (agents.foldl (tally time) (r, n)).1.maps.find? a.id =
        (r.periodicFor a time).1.maps.find? a.id := by
  induction agents generalizing r n with
  | nil => simp
  | cons a agents ih =>
    rw [List.map_cons, List.nodup_cons] at hids
    have hne : ∀ a' ∈ agents, a'.id ≠ a.id := fun a' ha' heq =>
      hids.1 (heq ▸ List.mem_map_of_mem ha')
    obtain ⟨⟨maps, hmaps⟩, hothers⟩ := periodicFor_frame r a time
    have hsame : ∀ a' ∈ agents, _ := fun a' ha' => periodicFor_congr (r := r) (a := a') maps
      (by rw [← hothers a'.id (hne a' ha'), hmaps]) time
    obtain ⟨hcount, huntouched, hupdated⟩ := ih hids.2 (r.periodicFor a time).1
      (if (r.periodicFor a time).2 then n + 1 else n)
    rw [List.foldl_cons]
    refine ⟨?_, ?_, ?_⟩
    · have hrest : agents.countP (fun a' => ((r.periodicFor a time).1.periodicFor a' time).2) =
          agents.countP fun a' => (r.periodicFor a' time).2 := by
        refine List.countP_congr fun a' ha' => ?_
        rw [hmaps, (hsame a' ha').1]
      rw [tally, hcount, hrest, List.countP_cons]
      split
      · omega
      · omega
    · intro id hid
      rw [tally, huntouched id fun a' ha' => hid a' (List.mem_cons_of_mem a ha')]
      exact hothers id (hid a List.mem_cons_self).symm
    · intro a' ha'
      rw [tally]
      rcases List.mem_cons.1 ha' with rfl | ha'
      · exact huntouched a'.id hne
      · rw [hupdated a' ha', hmaps, (hsame a' ha').2]

/-- The router while it updates people, who is heading where noted. -/
def noting (r : Router α) (agents : List (Pedestrian α)) : Router α :=
  { r with traffic := .ofAgents agents }

/-- A periodic update is for each person the update alone. -/
theorem periodic_spec (hids : (agents.map (·.id)).Nodup) (r : Router α) (time : α) :
    (r.periodic agents time).2 = agents.countP (fun a => (r.mapToUpdate? a.id).any fun m =>
        ((r.noting agents).update a time m).2.isOk) ∧
      (∀ id, (∀ a ∈ agents, a.id = id → r.mapToUpdate? id = none) →
        (r.periodic agents time).1.maps.find? id = r.maps.find? id) ∧
      ∀ a ∈ agents, ∀ m, r.mapToUpdate? a.id = some m →
        (r.periodic agents time).1.maps.find? a.id =
          some ((r.noting agents).update a time m).1 := by
  obtain ⟨hcount, huntouched, hupdated⟩ := foldl_tally hids (r.noting agents) 0 time
  have hfold : r.periodic agents time = agents.foldl (tally time) (r.noting agents, 0) := rfl
  have hmap (id : AgentId) : (r.noting agents).mapToUpdate? id = r.mapToUpdate? id := rfl
  rw [hfold]
  refine ⟨?_, ?_, ?_⟩
  · rw [hcount, zero_add]
    refine List.countP_congr fun a _ => ?_
    cases hm : r.mapToUpdate? a.id with
    | none => simp [periodicFor_of_none ((hmap a.id).trans hm)]
    | some m => simp [periodicFor_of_some ((hmap a.id).trans hm)]
  · intro id hid
    by_cases hex : ∃ a ∈ agents, a.id = id
    · obtain ⟨a, ha, rfl⟩ := hex
      rw [hupdated a ha, periodicFor_of_none ((hmap a.id).trans (hid a ha rfl))]
      rfl
    · exact huntouched id fun a ha heq => hex ⟨a, ha, heq⟩
  · intro a ha m hm
    rw [hupdated a ha, periodicFor_of_some ((hmap a.id).trans hm)]
    exact OrderedMap.find?_insert_self _ _ _

/-- A periodic update counts the people whose sensors all finish. Each person with a map who is not
refused gets the factors that the sensors make for that person alone, and every other map stays as
it is. Sensors that fail leave what those before them have written, with the time of the update, and
have written nothing themselves. -/
theorem periodic_cutShort (hr : Reachable b params r) (hids : (agents.map (·.id)).Nodup)
    (time : α) :
    (r.periodic agents time).2 = agents.countP (fun a => (r.mapToUpdate? a.id).any fun m =>
        ((r.noting agents).update a time m).2.isOk) ∧
      (∀ id, (∀ a ∈ agents, a.id = id → r.mapToUpdate? id = none) →
        (r.periodic agents time).1.maps.find? id = r.maps.find? id) ∧
      ∀ a ∈ agents, ∀ m, r.mapToUpdate? a.id = some m → ∃ m',
        (r.periodic agents time).1.maps.find? a.id = some m' ∧
        m' = ((r.noting agents).update a time m).1 ∧ m.Reweighs m' ∧
        ∀ error, ((r.noting agents).update a time m).2 = .error error →
          ∃ done s registered rest,
            SensorSuite.ofParams params.sensors = done ++ (s, registered) :: rest ∧
            registered.intersects .periodic = true ∧
            (∃ n, SensorSuite.fire .periodic a ((r.noting agents).surroundings time) done m =
              (m', .ok n)) ∧
            (s.run a m' ((r.noting agents).surroundings time)).2 = .error error ∧
            ∀ e name, m'.network.factor? e name = m.network.factor? e name ∨
              (∃ s' registered', (s', registered') ∈ done ∧
                registered'.intersects .periodic = true ∧ s'.name = name) ∧
              ∃ v, m'.network.factor? e name = some ⟨v, time⟩ := by
  have hsuite := (hr.stores (preserved_orderly b params)).founded.suite_eq
  obtain ⟨hcount, huntouched, hupdated⟩ := periodic_spec hids r time
  have hperiodic : ∀ s registered, (s, registered) ∈ r.suite →
      registered.intersects .periodic = true → s ≠ .discovery := by
    intro s registered hmem
    exact SensorSuite.ne_discovery_of_periodic (hsuite ▸ hmem)
  refine ⟨hcount, huntouched, fun a ha m hm => ⟨_, hupdated a ha m hm, rfl,
    SensorSuite.reweighs_fire hperiodic, fun error herror => ?_⟩⟩
  obtain ⟨done, s, registered, rest, hsplit, hint, ⟨n, hdone⟩, hfail, hmap⟩ :=
    SensorSuite.fire_cut herror
  have hmem : (s, registered) ∈ r.suite := by
    rw [show r.suite = _ from hsplit]
    exact List.mem_append_right done List.mem_cons_self
  -- the sensor that fails has not written anything
  have hleft : ((r.noting agents).update a time m).1 =
      (SensorSuite.fire .periodic a ((r.noting agents).surroundings time) done m).1 :=
    hmap.trans (Sensor.run_eq_of_error (hperiodic s registered hmem hint) hfail)
  refine ⟨done, s, registered, rest, hsuite ▸ hsplit, hint, ⟨n, Prod.ext hleft.symm hdone⟩,
    hleft ▸ hfail, fun e name => ?_⟩
  rw [hleft]
  rcases (SensorSuite.senses_fire_filter .periodic done m).factor?_cases e name with
    hsame | ⟨⟨s', registered', hs', hname⟩, hnew⟩
  · exact .inl hsame
  · obtain ⟨hs', hint'⟩ := List.mem_filter.1 hs'
    exact .inr ⟨⟨s', registered', hs', hint', hname⟩, hnew⟩

lemma factor?_mapOf_new (hnew : Router.new b params = .ok r) (id : AgentId) (e : EdgeId)
    (name : String) : (r.mapOf id).network.factor? e name = none := by
  obtain ⟨g, hg, rfl⟩ := new_eq_ok_iff.1 hnew
  simp only [Router.mapOf, OrderedMap.find?_empty, Option.getD_none, CognitiveMap.withDepth,
    CognitiveMap.new]
  cases params.mapMode with
  | complete =>
    show g.factor? e name = none
    cases he : g.edge? e with
    | none => rw [Network.factor?, he, Option.bind_none]
    | some edge =>
      rw [Network.factor?, he, Option.bind_some, Network.factors_ofBuilding hg he]
      rfl
  | progressive => rfl

/-- While the hazard cannot be read, no event that is meant for danger finishes for a person with a
known door. -/
lemma exists_fire_error {hazard : HazardField α} {e : EdgeId} {events : Events}
    (hsuite : r.suite = .ofParams p) (hdanger : p.danger = true) (hhazard : r.hazard = some hazard)
    (hbroken : ∀ q, hazard.lookup q = .error .unreadable) (hm : m.network.WellFormed)
    (he : e ∈ m.network.outEdges a.subroom)
    (hint : (Sensor.danger p.dangerQuantity : Sensor α).usualEvents.intersects events = true)
    (time : α) :
    ∃ error, (SensorSuite.fire events a (r.surroundings time) r.suite m).2 = .error error := by
  cases hfire : (SensorSuite.fire events a (r.surroundings time) r.suite m).2 with
  | error error => exact ⟨error, rfl⟩
  | ok n =>
    obtain ⟨m₁, hsenses, hrun, -⟩ := SensorSuite.exists_run_of_fire hfire
      (hsuite ▸ SensorSuite.danger_mem hdanger) hint
    obtain ⟨hwf, hlearns⟩ := hsenses.learns hm
    obtain ⟨edge, hedge, hsource⟩ := hm.mem_outEdges.1 he
    obtain ⟨bag, hbag⟩ := hlearns.network.edge e edge hedge
    have he₁ : e ∈ m₁.network.outEdges a.subroom :=
      hwf.mem_outEdges.2 ⟨_, hbag, hlearns.network.subroomAt _ _ hsource⟩
    refine absurd hrun (Sensor.run_danger_ne_ok he₁ hbag fun v hv => ?_)
    simp only [Danger.intensityAt, surroundings, hhazard, hbroken] at hv
    cases hv

/-- Where circulation is sensed, an update writes its factor for every edge of a map of the
building, whether it finishes or not. -/
lemma exists_factor?_update {e : EdgeId} {edge : Edge α} (hsuite : r.suite = .ofParams p)
    (hcirculation : p.circulation = true) (hm : m.network.WellFormed)
    (hf : m.network.Faithful r.building) (he : m.network.edge? e = some edge) (a : Pedestrian α)
    (time : α) :
    ∃ v, (r.update a time m).1.network.factor? e Circulation.name = some ⟨v, time⟩ := by
  replace hf : m.network.Faithful (r.surroundings time).building := hf
  obtain ⟨v, -, hv⟩ := Sensor.exists_factor?_circulation hf hm he a
  obtain ⟨_, -, hrun⟩ := Sensor.exists_run_circulation hf a
  have hok := congrArg Prod.snd hrun
  have hlater (rest : SensorSuite α) (m₁ : CognitiveMap α)
      (h : ∃ v, m₁.network.factor? e Circulation.name = some ⟨v, time⟩) :
      ∃ v, (SensorSuite.fire .periodic a (r.surroundings time) rest m₁).1.network.factor? e
        Circulation.name = some ⟨v, time⟩ := by
    rcases (SensorSuite.senses_fire .periodic rest m₁).factor?_cases e Circulation.name with
      hsame | ⟨-, hnew⟩
    · rw [hsame]
      exact h
    · exact hnew
  have hint : ((Sensor.circulation : Sensor α).usualEvents).intersects .periodic = true := by
    rw [Sensor.usualEvents]
    decide
  rw [update, hsuite]
  obtain ⟨rest, -, hrest | hrest⟩ := SensorSuite.exists_ofParams_eq hcirculation
  · rw [hrest, (SensorSuite.fire_cons_of_ok rest hint hok).1]
    exact hlater rest _ ⟨v, hv⟩
  · rw [hrest, SensorSuite.fire_cons_of_not (by decide),
      (SensorSuite.fire_cons_of_ok rest hint hok).1]
    exact hlater rest _ ⟨v, hv⟩

section
open Exact

/-- A hazard that nobody can look up. -/
def brokenHazard : HazardField Exact := ⟨fun _ => .error .unreadable⟩

/-- The visitor of the pavilion is sent to its door at time zero, and the hazard cannot be read from
then on. In an update at time one the sensors fail, but not before circulation has been written. -/
lemma exists_broken_pavilion : ∃ (r : Router Exact) (m : CognitiveMap Exact) (e : EdgeId),
    Reachable pavilion .standard r ∧ r.mapToUpdate? 7 = some m ∧
    (∀ f, m.network.factor? e Circulation.name = some f → f.updated = real 0) ∧
    (∃ error, ((r.noting [visitor]).update visitor (real 1) m).2 = .error error) ∧
    ∃ v, ((r.noting [visitor]).update visitor (real 1) m).1.network.factor? e Circulation.name =
      some ⟨v, real 1⟩ := by
  obtain ⟨r₀, r, a', hnew, hreach, hexit⟩ := exists_sent_pavilion
  have hreach₀ : Reachable pavilion .standard r₀ := ⟨r₀, hnew, .refl⟩
  obtain ⟨hroutable, m, hm, hresponds⟩ := hreach₀.exists_responds hexit
  have hserves := hreach.serves made_pavilion.wellFormed
  obtain ⟨hsound, -, hmode⟩ := hserves.maps 7 m hm
  have hknows : m.network.Knows pavilion 5 := hsound.complete hmode 5 _ rfl
  obtain ⟨e, edge, hedge, hsource, -⟩ := hknows 3 ⟨_, rfl, rfl, rfl⟩
  have hout := hsound.wellFormed.mem_outEdges.2 ⟨edge, hedge, hsource⟩
  obtain ⟨r₁, hnew₁, hsteps⟩ := hreach
  have hmeant : (Sensor.danger .smokeDensity : Sensor Exact).usualEvents.intersects .periodic =
      true := by
    rw [Sensor.usualEvents]
    decide
  have herror := exists_fire_error (r := (r.withHazard brokenHazard).noting [visitor])
    (a := visitor) hserves.suite_eq rfl rfl (fun _ => rfl) hsound.wellFormed hout hmeant (real 1)
  have hwritten := exists_factor?_update (r := (r.withHazard brokenHazard).noting [visitor])
    hserves.suite_eq rfl hsound.wellFormed (hserves.building_eq ▸ hsound.faithful) hedge visitor
    (real 1)
  refine ⟨r.withHazard brokenHazard, m, e, ⟨r₁, hnew₁, hsteps.tail (.withHazard r _)⟩, ?_, ?_,
    herror, hwritten⟩
  · exact mapToUpdate?_eq hroutable hm
  · intro f hf
    rcases hresponds.factor?_cases e Circulation.name with hsame | ⟨v, hnew'⟩
    · rw [hsame, factor?_mapOf_new hnew] at hf
      cases hf
    · rw [hnew'] at hf
      rw [← Option.some.inj hf]

/-- The update of the visitor fails and is not counted, and all the same leaves another factor. -/
theorem periodic_pavilion : ∃ (r : Router Exact) (m m' : CognitiveMap Exact) (e : EdgeId),
    Reachable pavilion .standard r ∧ r.mapToUpdate? 7 = some m ∧
    (r.periodic [visitor] (real 1)).2 = 0 ∧
    (r.periodic [visitor] (real 1)).1.maps.find? 7 = some m' ∧
    m'.network.factor? e Circulation.name ≠ m.network.factor? e Circulation.name := by
  obtain ⟨r, m, e, hreach, hm, hbefore, ⟨error, herror⟩, v, hafter⟩ := exists_broken_pavilion
  have hids : ([visitor].map (·.id)).Nodup := List.nodup_singleton 7
  obtain ⟨hcount, -, hupdated⟩ := periodic_spec hids r (real 1)
  refine ⟨r, m, _, e, hreach, hm, ?_, hupdated visitor List.mem_cons_self m hm, ?_⟩
  · rw [hcount, List.countP_eq_zero]
    intro a ha
    obtain rfl := List.mem_singleton.1 ha
    rw [show r.mapToUpdate? visitor.id = some m from hm, Option.any_some, herror]
    exact Bool.false_ne_true
  · rw [hafter]
    intro hsame
    have htime : real 1 = real 0 := hbefore ⟨v, real 1⟩ hsame.symm
    exact one_ne_zero (real_inj.1 htime)

/-- The visitor's update ends with a sensor that fails, and the map is as the sensors before it have
left it. -/
theorem periodic_cutShort_pavilion : ∃ (r : Router Exact) (m m' : CognitiveMap Exact),
    Reachable pavilion .standard r ∧ r.mapToUpdate? 7 = some m ∧
    (r.periodic [visitor] (real 1)).1.maps.find? 7 = some m' ∧ m.Reweighs m' ∧
    ∃ error done s registered rest,
      SensorSuite.ofParams SensorParams.standard = done ++ (s, registered) :: rest ∧
      (∃ n, SensorSuite.fire .periodic visitor ((r.noting [visitor]).surroundings (real 1)) done
        m = (m', .ok n)) ∧
      (s.run visitor m' ((r.noting [visitor]).surroundings (real 1))).2 = .error error := by
  obtain ⟨r, m, e, hreach, hm, -, ⟨error, herror⟩, -⟩ := exists_broken_pavilion
  have hids : ([visitor].map (·.id)).Nodup := List.nodup_singleton 7
  obtain ⟨-, -, hupdated⟩ := periodic_cutShort hreach hids (real 1)
  obtain ⟨m', hm', -, hreweighs, hcut⟩ := hupdated visitor List.mem_cons_self m hm
  obtain ⟨done, s, registered, rest, hsplit, -, hdone, hfail, -⟩ := hcut error herror
  exact ⟨r, m, m', hreach, hm, hm', hreweighs, error, done, s, registered, rest, hsplit, hdone,
    hfail⟩

end

end Egress.Router
