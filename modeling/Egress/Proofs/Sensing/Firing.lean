import Egress.Proofs.Network.Factors
import Egress.Proofs.Sensing.Suite

/-!
# How far an event gets

In whatever building and with whatever hazards, a sensor writes factors of its own name only, with
the time at which it is run, and one that fails without being discovery has written nothing. So an
event that fails leaves a map as the sensors before the failing one have made it.
-/
namespace Egress

variable {α : Type} [Scalar α] {a : Pedestrian α} {m m' : CognitiveMap α} {env : Surroundings α}

/-- A circulation factor is that of the edge for which it has been found, and is neutral or that of
some kind of subroom. -/
lemma Circulation.edgeFactor_cases {g : Network α} {edge : Edge α} {y : EdgeId × α}
    (h : Circulation.edgeFactor g env edge = .ok y) :
    y.1 = edge.id ∧ (y.2 = 1 ∨ ∃ kind, y.2 = Circulation.factor kind) := by
  have hchoice (start : Option SubRoomKind) (kind : SubRoomKind) :
      (if start = some kind then 1 else factor kind : α) = 1 ∨
        ∃ kind', (if start = some kind then 1 else factor kind : α) = factor kind' := by
    split
    · exact .inl rfl
    · exact .inr ⟨kind, rfl⟩
  unfold Circulation.edgeFactor at h
  split at h
  · rw [← Except.ok.inj h]
    exact ⟨rfl, .inl rfl⟩
  · obtain ⟨sub, -, h⟩ := bind_eq_ok_iff.1 h
    dsimp only at h
    split at h
    · rw [← Except.ok.inj h]
      exact ⟨rfl, hchoice none sub.kind⟩
    · obtain ⟨start, -, h⟩ := bind_eq_ok_iff.1 h
      rw [← Except.ok.inj h]
      exact ⟨rfl, hchoice start sub.kind⟩

namespace Sensor

variable {s : Sensor α}

/-- A sensor other than discovery that fails leaves the map as it was. -/
theorem run_eq_of_error (hs : s ≠ .discovery) {e : SensorError α}
    (h : (s.run a m env).2 = .error e) : (s.run a m env).1 = m := by
  rcases s.run_cases a m env with
    hdisc | ⟨r, rfl⟩ | ⟨e', hrun⟩ | ⟨values, hrun⟩
  · exact absurd hdisc hs
  · cases h
  · rw [hrun]
  · rw [hrun] at h
    cases h

lemma updates_recency (r : Recency α) :
    m.network.Updates (r.run m env).network Recency.name env.time := by
  refine Network.updates_of_edges Recency.name env.time
    (f := fun _ => Recency.update (r.doorFactors m.historyDoors) env.time)
    (r.edge?_run m env) ?_
  intro _ edge other
  unfold Recency.update
  split
  · exact (Network.find?_setFactor _ _ _ _ _).imp_right fun h => ⟨h.1, _, h.2⟩
  · split
    · exact (Network.find?_setFactor _ _ _ _ _).imp_right fun h => ⟨h.1, _, h.2⟩
    · exact .inl rfl

/-- A sensor writes factors of its own name only, with the time at which it is run. -/
theorem run_updates (s : Sensor α) (a : Pedestrian α) (m : CognitiveMap α)
    (env : Surroundings α) :
    m.network.Updates (s.run a m env).1.network s.name env.time := by
  rcases s.run_cases a m env with
    rfl | ⟨r, rfl⟩ | ⟨e', hrun⟩ | ⟨values, hrun⟩
  · exact fun e other => .inl (Network.factor?_addSubRoomDoors other _ _ _ e)
  · exact updates_recency r
  · rw [hrun]
    exact .refl _ _ _
  · rw [hrun]
    exact Network.updates_setFactors _ _ _ values

/-- In a map of its building, circulation finds a factor for every edge and writes them all. -/
lemma exists_run_circulation (hf : m.network.Faithful env.building) (a : Pedestrian α) :
    ∃ values, m.network.edges.toList.mapM (Circulation.edgeFactor m.network env) = .ok values ∧
      Sensor.circulation.run a m env =
        (m.setFactors Circulation.name env.time values, .ok ()) := by
  obtain ⟨values, hvalues⟩ := exists_mapM fun edge (_ : edge ∈ m.network.edges.toList) =>
    Circulation.exists_edgeFactor hf edge
  exact ⟨values, hvalues, run_of_findings surveys_circulation hvalues⟩

lemma exists_factor?_circulation (hf : m.network.Faithful env.building) (hm : m.network.WellFormed)
    {e : EdgeId} {edge : Edge α} (he : m.network.edge? e = some edge) (a : Pedestrian α) :
    ∃ v, Circulation.edgeFactor m.network env edge = .ok (e, v) ∧
      (Sensor.circulation.run a m env).1.network.factor? e Circulation.name =
        some ⟨v, env.time⟩ := by
  obtain ⟨values, hvalues, hrun⟩ := exists_run_circulation hf a
  have hmem : edge ∈ m.network.edges.toList :=
    Array.mem_toList_iff.2 (Array.mem_of_getElem? he)
  obtain ⟨⟨e', v⟩, hlisted, hfactor⟩ := exists_mem_of_mapM hvalues hmem
  obtain rfl : e' = e := (Circulation.edgeFactor_cases hfactor).1.trans (hm.id_eq e edge he)
  have hfound : ∀ y ∈ values, ∃ edge ∈ m.network.edges.toList, edge.id = y.1 ∧
      Circulation.edgeFactor m.network env edge = .ok (edge.id, y.2) := by
    intro y hy
    obtain ⟨edge', hmem', hfactor'⟩ := exists_of_mem_mapM hvalues hy
    have hid := (Circulation.edgeFactor_cases hfactor').1
    exact ⟨edge', hmem', hid.symm, hid ▸ hfactor'⟩
  obtain ⟨v', hfor, hwritten⟩ := Network.exists_found_setFactors
    (R := fun edge v => Circulation.edgeFactor m.network env edge = .ok (edge.id, v)) hm hfound he
    hlisted Circulation.name env.time
  rw [hrun]
  exact ⟨v', hm.id_eq e' edge he ▸ hfor, hwritten⟩

/-- A hazard that cannot be looked up at a door of the subroom keeps danger from being sensed. -/
lemma run_danger_ne_ok {quantity : HazardQuantity} {e : EdgeId} {edge : Edge α}
    (hmem : e ∈ m.network.outEdges a.subroom) (he : m.network.edge? e = some edge)
    (hfail : ∀ v, Danger.intensityAt quantity a env edge ≠ .ok v) :
    ((Sensor.danger quantity).run a m env).2 ≠ .ok () := by
  intro hok
  cases hvalues : (Sensor.danger quantity).findings a m.network env with
  | error error =>
    rw [run_of_findings_error (surveys_danger quantity) hvalues] at hok
    cases hok
  | ok values =>
    have hlisted : (m.network.edge? e).map (e, ·) = some (e, edge) := by rw [he]; rfl
    obtain ⟨y, -, hy⟩ := exists_mem_of_mapM hvalues (List.mem_filterMap.2 ⟨e, hmem, hlisted⟩)
    obtain ⟨v, hv, -⟩ := bind_eq_ok_iff.1 hy
    exact hfail v hv

end Sensor

namespace SensorSuite

variable {events registered : Events} {suite : SensorSuite α} {s : Sensor α}

/-- Every factor that sensing has changed bears the name of a sensor and the time. -/
theorem Senses.factor?_cases (h : suite.Senses a env m m') (e : EdgeId) (name : String) :
    m'.network.factor? e name = m.network.factor? e name ∨
      (∃ s registered, (s, registered) ∈ suite ∧ s.name = name) ∧
        ∃ v, m'.network.factor? e name = some ⟨v, env.time⟩ := by
  refine h.holds (P := fun m' => m'.network.factor? e name = m.network.factor? e name ∨
    (∃ s registered, (s, registered) ∈ suite ∧ s.name = name) ∧
      ∃ v, m'.network.factor? e name = some ⟨v, env.time⟩) ?_ (.inl rfl)
  intro s registered m₁ hmem h₁
  rcases s.run_updates a m₁ env e name with hsame | ⟨rfl, hnew⟩
  · rw [hsame]
    exact h₁
  · exact .inr ⟨⟨s, registered, hmem, rfl⟩, hnew⟩

/-- An event runs the sensors that it concerns, and no others. -/
lemma fire_filter (events : Events) (suite : SensorSuite α) (m : CognitiveMap α) :
    fire events a env (suite.filter fun entry => entry.2.intersects events) m =
      fire events a env suite m := by
  induction suite generalizing m with
  | nil => rfl
  | cons entry suite ih =>
    obtain ⟨s, registered⟩ := entry
    cases h : registered.intersects events with
    | false => rw [List.filter_cons_of_neg (by simp [h]), fire_cons_of_not h, ih]
    | true =>
      rw [List.filter_cons_of_pos (by simp [h])]
      simp only [fire, ih]

theorem senses_fire_filter (events : Events) (suite : SensorSuite α) (m : CognitiveMap α) :
    Senses (suite.filter fun entry => entry.2.intersects events) a env m
      (fire events a env suite m).1 := by
  rw [← fire_filter]
  exact senses_fire events _ m

/-- An event that does not concern discovery writes factors and nothing else. -/
theorem reweighs_fire (h : ∀ s registered, (s, registered) ∈ suite →
    registered.intersects events = true → s ≠ .discovery) :
    m.Reweighs (fire events a env suite m).1 := by
  refine (senses_fire_filter events suite m).holds (P := fun m' => m.Reweighs m') ?_ (.refl m)
  intro s registered m₁ hmem h₁
  obtain ⟨hmem, hint⟩ := List.mem_filter.1 hmem
  exact h₁.trans (Sensor.reweighs_run (h s registered hmem hint))

/-- An event that finishes has run every sensor that it concerns to its end, and sensed on from
there. -/
theorem exists_run_of_fire {n : ℕ} (h : (fire events a env suite m).2 = .ok n)
    (hmem : (s, registered) ∈ suite) (hint : registered.intersects events = true) :
    ∃ m₁, suite.Senses a env m m₁ ∧ (s.run a m₁ env).2 = .ok () ∧
      suite.Senses a env (s.run a m₁ env).1 (fire events a env suite m).1 := by
  induction suite generalizing m n with
  | nil => cases hmem
  | cons entry suite ih =>
    obtain ⟨s', registered'⟩ := entry
    have hsub := List.subset_cons_self (s', registered') suite
    cases hint' : registered'.intersects events with
    | false =>
      rw [fire_cons_of_not hint'] at h ⊢
      rcases List.mem_cons.1 hmem with heq | hmem
      · rw [(Prod.mk.inj heq).2, hint'] at hint
        cases hint
      · obtain ⟨m₁, hsenses, hrun, hafter⟩ := ih h hmem
        exact ⟨m₁, hsenses.mono hsub, hrun, hafter.mono hsub⟩
    | true =>
      cases hs : (s'.run a m env).2 with
      | error e =>
        rw [fire_cons_of_error hint' hs] at h
        cases h
      | ok _ =>
        obtain ⟨hfst, hsnd⟩ := fire_cons_of_ok suite hint' hs
        rw [hfst]
        rcases List.mem_cons.1 hmem with heq | hmem
        · obtain ⟨rfl, -⟩ := Prod.mk.inj heq
          exact ⟨m, .refl, hs, (senses_fire events suite _).mono hsub⟩
        · rw [hsnd] at h
          obtain ⟨n', hn', -⟩ := map_eq_ok_iff.1 h
          obtain ⟨m₁, hsenses, hrun, hafter⟩ := ih hn' hmem
          have hstep : Senses ((s', registered') :: suite) a env m (s'.run a m env).1 :=
            .single ⟨s', registered', List.mem_cons_self, rfl⟩
          exact ⟨m₁, hstep.trans (hsenses.mono hsub), hrun, hafter.mono hsub⟩

/-- An event that fails has run all sensors that it concerns up to one, which fails on what they
have made of the map. -/
theorem fire_cut {e : SensorError α} (h : (fire events a env suite m).2 = .error e) :
    ∃ done s registered rest, suite = done ++ (s, registered) :: rest ∧
      registered.intersects events = true ∧
      (∃ n, (fire events a env done m).2 = .ok n) ∧
      (s.run a (fire events a env done m).1 env).2 = .error e ∧
      (fire events a env suite m).1 = (s.run a (fire events a env done m).1 env).1 := by
  induction suite generalizing m with
  | nil => cases h
  | cons entry suite ih =>
    obtain ⟨s, registered⟩ := entry
    cases hint : registered.intersects events with
    | false =>
      rw [fire_cons_of_not hint] at h ⊢
      obtain ⟨done, s', registered', rest, rfl, hint', hdone, herror, hmap⟩ := ih h
      refine ⟨(s, registered) :: done, s', registered', rest, rfl, hint', ?_⟩
      rw [fire_cons_of_not hint]
      exact ⟨hdone, herror, hmap⟩
    | true =>
      cases hs : (s.run a m env).2 with
      | error e' =>
        refine ⟨[], s, registered, suite, rfl, hint, ⟨0, rfl⟩, ?_⟩
        rw [fire_cons_of_error hint hs] at h ⊢
        obtain rfl := Except.error.inj h
        exact ⟨hs, rfl⟩
      | ok _ =>
        obtain ⟨hfst, hsnd⟩ := fire_cons_of_ok suite hint hs
        rw [hsnd, map_eq_error_iff] at h
        obtain ⟨done, s', registered', rest, rfl, hint', ⟨n, hdone⟩, herror, hmap⟩ := ih h
        obtain ⟨hfst', hsnd'⟩ := fire_cons_of_ok done hint hs
        refine ⟨(s, registered) :: done, s', registered', rest, rfl, hint', ⟨n + 1, ?_⟩, ?_⟩
        · rw [hsnd', hdone]
          rfl
        · rw [hfst, hfst']
          exact ⟨herror, hmap⟩

end SensorSuite

end Egress
