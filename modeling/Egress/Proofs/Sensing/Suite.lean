import Egress.Proofs.Sensing.Learning

/-!
# What an event does to a map

The sensors that an event concerns run one after the other up to the first that fails, and the map
keeps what each of them keeps. The choice of a destination concerns no sensor that can fail.
-/
namespace Egress.SensorSuite

section
variable {α : Type} {registered : Events} {s : Sensor α} {p : SensorParams α}

lemma eq_usualEvents_of_mem (h : (s, registered) ∈ ofParams p) : registered = s.usualEvents := by
  obtain ⟨⟨wanted, s'⟩, -, h⟩ := List.mem_filterMap.1 h
  cases wanted with
  | false => simp at h
  | true =>
    simp only [if_true, Option.some.injEq, Prod.mk.injEq] at h
    rw [← h.2, h.1]

lemma discovery_mem (h : p.discovery = true) : (.discovery, .noRouteKnown) ∈ ofParams p :=
  List.mem_filterMap.2 ⟨(p.discovery, .discovery), List.mem_cons_self, by rw [h]; rfl⟩

lemma danger_mem (h : p.danger = true) :
    (.danger p.dangerQuantity, (Sensor.danger p.dangerQuantity : Sensor α).usualEvents) ∈
      ofParams p :=
  List.mem_filterMap.2 ⟨(p.danger, .danger p.dangerQuantity), by simp, by rw [h]; rfl⟩

lemma congestion_mem (h : p.congestion = true) :
    (.congestion ⟨p.congestionThreshold, p.stationaryWeight⟩,
      (Sensor.congestion ⟨p.congestionThreshold, p.stationaryWeight⟩).usualEvents) ∈
        ofParams p :=
  List.mem_filterMap.2
    ⟨(p.congestion, .congestion ⟨p.congestionThreshold, p.stationaryWeight⟩), by simp,
      by rw [h]; rfl⟩

/-- Each kind of sensor is there in one way at most. -/
lemma mem_ofParams_cases (h : (s, registered) ∈ ofParams p) : s = .discovery ∨ s = .circulation ∨
    s = .congestion ⟨p.congestionThreshold, p.stationaryWeight⟩ ∨ s = .danger p.dangerQuantity ∨
      s = .recency ⟨p.recencyDepth, p.recencyPenalty⟩ := by
  obtain ⟨⟨wanted, s'⟩, hlisted, h⟩ := List.mem_filterMap.1 h
  cases wanted with
  | false => cases h
  | true =>
    obtain ⟨rfl, -⟩ := Prod.mk.inj (Option.some.inj h)
    simp only [List.mem_cons, Prod.mk.injEq, List.not_mem_nil, or_false] at hlisted
    exact hlisted.imp And.right (.imp And.right (.imp And.right (.imp And.right And.right)))

lemma eq_of_congestion_mem {c : Congestion α} (h : (.congestion c, registered) ∈ ofParams p) :
    c = ⟨p.congestionThreshold, p.stationaryWeight⟩ := by
  simpa using mem_ofParams_cases h

lemma discovery_eq_true_of_mem (h : (.discovery, registered) ∈ ofParams p) :
    p.discovery = true := by
  obtain ⟨⟨wanted, s⟩, hlisted, h⟩ := List.mem_filterMap.1 h
  cases wanted with
  | false => cases h
  | true =>
    obtain ⟨rfl, -⟩ := Prod.mk.inj (Option.some.inj h)
    simpa using hlisted

/-- Nothing but discovery comes before circulation, and discovery does not come after it. -/
lemma exists_ofParams_eq (h : p.circulation = true) : ∃ rest,
    (∀ s registered, (s, registered) ∈ rest → s ≠ .discovery) ∧
    (ofParams p = (.circulation, (Sensor.circulation : Sensor α).usualEvents) :: rest ∨
      ofParams p = (.discovery, .noRouteKnown) ::
        (.circulation, (Sensor.circulation : Sensor α).usualEvents) :: rest) := by
  refine ⟨ofParams { p with discovery := false, circulation := false }, ?_, ?_⟩
  · rintro s registered hmem rfl
    cases discovery_eq_true_of_mem hmem
  · cases hd : p.discovery with
    | false => exact .inl (by simp only [ofParams, h, hd, List.filterMap_cons]; rfl)
    | true => exact .inr (by simp only [ofParams, h, hd, List.filterMap_cons]; rfl)

/-- Only the sensor of recent destinations minds that a destination is chosen. -/
lemma exists_recency (h : s.usualEvents.intersects .newDestination = true) :
    ∃ r, s = .recency r := by
  cases s with
  | recency r => exact ⟨r, rfl⟩
  | _ =>
    simp only [Sensor.usualEvents] at h
    exact absurd h (by decide)

/-- A choice concerns no other sensor. -/
lemma filter_newDestination (hp : p.recency = true) :
    (ofParams p).filter (fun entry => entry.2.intersects .newDestination) =
      [(.recency ⟨p.recencyDepth, p.recencyPenalty⟩, .newDestination)] := by
  have hother (wanted : Bool) {s : Sensor α} (hs : ∀ r, s ≠ .recency r) :
      (if wanted then some (s, s.usualEvents) else none).filter
        (fun entry => entry.2.intersects .newDestination) = none := by
    have hnot : ¬ s.usualEvents.intersects .newDestination = true := fun h =>
      (exists_recency h).elim hs
    cases wanted <;> simp [hnot]
  have hrecency : Events.intersects .newDestination .newDestination = true := by decide
  unfold ofParams
  rw [List.filter_filterMap]
  simp only [List.filterMap_cons, ne_eq, reduceCtorEq, not_false_eq_true, implies_true, hother]
  simp [Option.filter, hp, Sensor.usualEvents, hrecency]

lemma ne_discovery_of_periodic (hmem : (s, registered) ∈ ofParams p)
    (h : registered.intersects .periodic = true) : s ≠ .discovery := by
  rintro rfl
  rw [eq_usualEvents_of_mem hmem, Sensor.usualEvents] at h
  exact absurd h (by decide)

end

variable {α : Type} [Scalar α] {a : Pedestrian α} {m m' : CognitiveMap α} {env : Surroundings α}
  {events registered : Events} {suite : SensorSuite α} {s : Sensor α}

lemma fire_cons_of_not (h : registered.intersects events = false) :
    fire events a env ((s, registered) :: suite) m = fire events a env suite m := by
  simp only [fire, h, Bool.false_eq_true, if_false]

lemma fire_cons_of_ok (suite : SensorSuite α) (h : registered.intersects events = true)
    (hs : (s.run a m env).2 = .ok ()) :
    (fire events a env ((s, registered) :: suite) m).1 =
        (fire events a env suite (s.run a m env).1).1 ∧
      (fire events a env ((s, registered) :: suite) m).2 =
        (fire events a env suite (s.run a m env).1).2.map (· + 1) := by
  have hrun : s.run a m env = ((s.run a m env).1, .ok ()) := Prod.ext rfl hs
  simp only [fire, h, if_true]
  rw [hrun]
  exact ⟨rfl, rfl⟩

lemma fire_cons_of_error (h : registered.intersects events = true) {e : SensorError α}
    (hs : (s.run a m env).2 = .error e) :
    fire events a env ((s, registered) :: suite) m = ((s.run a m env).1, .error e) := by
  have hrun : s.run a m env = ((s.run a m env).1, .error e) := Prod.ext rfl hs
  simp only [fire, h, if_true]
  rw [hrun]

/-- The second map comes of the first by sensors that are run for the person one after another. -/
def Senses (suite : SensorSuite α) (a : Pedestrian α) (env : Surroundings α) :
    CognitiveMap α → CognitiveMap α → Prop :=
  Relation.ReflTransGen fun m m' => ∃ s registered, (s, registered) ∈ suite ∧
    m' = (s.run a m env).1

/-- What every sensor keeps, sensing keeps. -/
theorem Senses.holds {P : CognitiveMap α → Prop} (h : suite.Senses a env m m')
    (hP : ∀ s registered m, (s, registered) ∈ suite → P m → P (s.run a m env).1) (hm : P m) :
    P m' := by
  induction h with
  | refl => exact hm
  | tail _ hstep ih =>
    obtain ⟨s, registered, hmem, rfl⟩ := hstep
    exact hP s registered _ hmem ih

lemma Senses.mono {suite' : SensorSuite α} (h : suite.Senses a env m m') (hsub : suite ⊆ suite') :
    suite'.Senses a env m m' := by
  refine Relation.ReflTransGen.mono ?_ _ _ h
  intro _ _ hstep
  obtain ⟨s, registered, hmem, heq⟩ := hstep
  exact ⟨s, registered, hsub hmem, heq⟩

theorem Senses.learns (h : suite.Senses a env m m') (hm : m.network.WellFormed) :
    m'.network.WellFormed ∧ m.Learns m' := by
  refine h.holds (P := fun m' => m'.network.WellFormed ∧ m.Learns m') ?_
    ⟨hm, (CognitiveMap.Reweighs.refl m).learns⟩
  intro s _ m₁ _ h₁
  obtain ⟨hwf, hlearns⟩ := s.run_learns h₁.1 a env
  exact ⟨hwf, h₁.2.trans hlearns⟩

/-- An event runs sensors one after another, up to one that fails. -/
theorem senses_fire (events : Events) (suite : SensorSuite α) (m : CognitiveMap α) :
    suite.Senses a env m (fire events a env suite m).1 := by
  induction suite generalizing m with
  | nil => exact .refl
  | cons entry suite ih =>
    obtain ⟨s, registered⟩ := entry
    have hstep : Senses ((s, registered) :: suite) a env m (s.run a m env).1 :=
      .single ⟨s, registered, List.mem_cons_self, rfl⟩
    have hrest (m : CognitiveMap α) := (ih m).mono (List.subset_cons_self (s, registered) suite)
    cases h : registered.intersects events with
    | false =>
      rw [fire_cons_of_not h]
      exact hrest m
    | true =>
      cases hs : (s.run a m env).2 with
      | error e =>
        rw [fire_cons_of_error h hs]
        exact hstep
      | ok _ =>
        rw [(fire_cons_of_ok suite h hs).1]
        exact hstep.trans (hrest _)

theorem fire_sound (hb : env.building.WellFormed) (events : Events) (suite : SensorSuite α)
    (hm : m.Sound env.building) : (fire events a env suite m).1.Sound env.building ∧
      m.Learns (fire events a env suite m).1 := by
  refine (senses_fire events suite m).holds
    (P := fun m' => m'.Sound env.building ∧ m.Learns m') ?_
    ⟨hm, (CognitiveMap.Reweighs.refl m).learns⟩
  intro s _ m₁ _ h₁
  obtain ⟨hsound, hlearns⟩ := s.run_sound (a := a) hb h₁.1
  exact ⟨hsound, h₁.2.trans hlearns⟩

/-- An event finishes if all sensors that it concerns do, and each of them is run on the way. -/
theorem fire_ok {P : CognitiveMap α → Prop} (events : Events) (suite : SensorSuite α) (hm : P m)
    (hok : ∀ s registered, (s, registered) ∈ suite → registered.intersects events = true →
      ∀ m, P m → (s.run a m env).2 = .ok () ∧ P (s.run a m env).1) :
    (∃ n, (fire events a env suite m).2 = .ok n) ∧
      ∀ s registered, (s, registered) ∈ suite → registered.intersects events = true →
        ∃ m₁, P m₁ ∧ suite.Senses a env (s.run a m₁ env).1 (fire events a env suite m).1 := by
  induction suite generalizing m with
  | nil => exact ⟨⟨0, rfl⟩, by simp⟩
  | cons entry suite ih =>
    obtain ⟨s, registered⟩ := entry
    have htail (m : CognitiveMap α) (hm : P m) := ih hm fun s' registered' h' =>
      hok s' registered' (List.mem_cons_of_mem _ h')
    have hsub := List.subset_cons_self (s, registered) suite
    cases h : registered.intersects events with
    | false =>
      rw [fire_cons_of_not h]
      refine ⟨(htail m hm).1, fun s' registered' hmem h' => ?_⟩
      rcases List.mem_cons.1 hmem with heq | hmem
      · rw [(Prod.mk.inj heq).2, h] at h'
        cases h'
      · obtain ⟨m₁, hm₁, hsenses⟩ := (htail m hm).2 s' registered' hmem h'
        exact ⟨m₁, hm₁, hsenses.mono hsub⟩
    | true =>
      obtain ⟨hrun, hnext⟩ := hok s registered List.mem_cons_self h m hm
      obtain ⟨⟨n, hn⟩, hrest⟩ := htail _ hnext
      obtain ⟨hfst, hsnd⟩ := fire_cons_of_ok suite h hrun
      refine ⟨⟨n + 1, by rw [hsnd, hn]; rfl⟩, fun s' registered' hmem h' => ?_⟩
      rw [hfst]
      rcases List.mem_cons.1 hmem with heq | hmem
      · obtain ⟨rfl, -⟩ := Prod.mk.inj heq
        exact ⟨m, hm, (senses_fire events suite _).mono hsub⟩
      · obtain ⟨m₁, hm₁, hsenses⟩ := hrest s' registered' hmem h'
        exact ⟨m₁, hm₁, hsenses.mono hsub⟩

/-- The events of a person in an existing subroom finish if hazards are at worst unknown, and those
that concern discovery end with all open doors of the subroom known. -/
theorem fire_ofParams_ok (hb : env.building.WellFormed) (hm : m.Sound env.building)
    (hh : ∀ f, env.hazard = some f → f.OnlyMisses)
    (ha : ∃ sub, env.building.subroom? a.subroom = some sub) (p : SensorParams α) :
    (∃ n, (fire events a env (ofParams p) m).2 = .ok n) ∧
      (p.discovery = true → Events.intersects .noRouteKnown events = true →
        (fire events a env (ofParams p) m).1.network.Knows env.building a.subroom) := by
  have hrun (s : Sensor α) (m : CognitiveMap α) (hm : m.Sound env.building) :=
    s.run_ok (a := a) hb hm hh ha
  obtain ⟨hfinish, hsenses⟩ := fire_ok (P := fun m => m.Sound env.building) events
    (ofParams p) hm fun s _ _ _ m hm =>
      ⟨(hrun s m hm).1, (s.run_sound (a := a) hb hm).1⟩
  refine ⟨hfinish, fun hp hevents => ?_⟩
  obtain ⟨m₁, hm₁, hafter⟩ := hsenses .discovery .noRouteKnown (discovery_mem hp) hevents
  have hknows := (hrun .discovery m₁ hm₁).2 rfl
  exact hknows.extend (hafter.learns (Sensor.discovery.run_learns hm₁.wellFormed a env).1).2.network

/-- Choosing a destination finishes in every building and whatever is known of hazards. -/
theorem fire_newDestination_ok (a : Pedestrian α) (m : CognitiveMap α) (env : Surroundings α)
    (p : SensorParams α) : ∃ n, (fire .newDestination a env (ofParams p) m).2 = .ok n := by
  refine (fire_ok (P := fun _ => True) _ _ trivial fun s registered hmem h m _ => ?_).1
  rw [eq_usualEvents_of_mem hmem] at h
  obtain ⟨r, rfl⟩ := exists_recency h
  exact ⟨rfl, trivial⟩

end Egress.SensorSuite
