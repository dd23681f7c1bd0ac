import Egress.Proofs.Router.Choice
import Egress.Proofs.Sensing.Firing

/-!
# How an answer comes about

In whatever building and with whatever hazards, a request for a door keeps the door chosen last, or
fails after some sensing, or chooses an edge out of the person's subroom after some sensing and
senses again before the subroom is remembered.
-/
namespace Egress.Router

variable {α : Type}

lemma keptDoor?_eq_none {m : CognitiveMap α} (h : m.hasDestination = false) (s : SubRoomId) :
    keptDoor? m s = none := by
  have hhistory : m.history = [] := by simpa [CognitiveMap.hasDestination] using h
  unfold keptDoor? CognitiveMap.lastDestination?
  rw [hhistory]
  exact ite_self none

/-- A door is kept for the latest destination, in the subroom in which that was chosen. -/
lemma exists_edge_of_keptDoor? {m : CognitiveMap α} {s : SubRoomId} {door : DoorId}
    (h : keptDoor? m s = some door) : ∃ e edge, m.lastSubRoom = some s ∧
      m.lastDestination? = some e ∧ m.network.edge? e = some edge ∧ edge.door = door := by
  unfold keptDoor? at h
  split at h
  · obtain ⟨e, he, hdoor⟩ := Option.bind_eq_some_iff.1 h
    obtain ⟨edge, hedge, hdoor⟩ := Option.map_eq_some_iff.1 hdoor
    exact ⟨e, edge, ‹_›, he, hedge, hdoor⟩
  · cases h

variable [Scalar α]

/-- The second map comes of the first by what the person senses at the time. -/
def Senses (r : Router α) (a : Pedestrian α) (time : α) : CognitiveMap α → CognitiveMap α → Prop :=
  r.suite.Senses a (r.surroundings time)

/-- What a request for a door comes to with the map `m`. -/
inductive Responds (r : Router α) (a : Pedestrian α) (time : α) (m : CognitiveMap α) :
    Except (RouterError α) (DoorId × Pedestrian α) → CognitiveMap α → Prop
  /-- The door chosen last is kept. -/
  | kept {door : DoorId} : keptDoor? m a.subroom = some door →
    Responds r a time m (.ok (door, a)) m
  /-- No door is chosen. -/
  | failed {e : RouterError α} {m' : CognitiveMap α} : r.Senses a time m m' →
    Responds r a time m (.error e) m'
  /-- The door of an edge out of the subroom is chosen. -/
  | chosen {e : EdgeId} {edge : Edge α} {m₁ m₂ : CognitiveMap α} : r.Senses a time m m₁ →
    e ∈ m₁.network.outEdges a.subroom → m₁.network.edge? e = some edge →
    r.Senses a time (m₁.addDestination e) m₂ →
    Responds r a time m (.ok (edge.door, a.headFor edge.door edge.line))
      { m₂ with lastSubRoom := some a.subroom }

/-- What a request fails with: a sensor has failed, or the person has no usable door. -/
inductive FailsWith (a : Pedestrian α) : RouterError α → Prop
  | sensor (error : SensorError α) : FailsWith a (.sensor error)
  | unroutable : FailsWith a (.unroutable a.id)

variable {r : Router α} {a : Pedestrian α} {m m' : CognitiveMap α} {time : α}

/-- Every factor that a request has changed is as of its time. -/
theorem Responds.factor?_cases {result : Except (RouterError α) (DoorId × Pedestrian α)}
    (h : r.Responds a time m result m') (e : EdgeId) (name : String) :
    m'.network.factor? e name = m.network.factor? e name ∨
      ∃ v, m'.network.factor? e name = some ⟨v, time⟩ := by
  cases h with
  | kept _ => exact .inl rfl
  | failed hsenses =>
    exact (SensorSuite.Senses.factor?_cases hsenses e name).imp_right And.right
  | @chosen e' edge m₁ m₂ hsenses₁ he hedge hsenses₂ =>
    rcases SensorSuite.Senses.factor?_cases hsenses₂ e name with hsame | ⟨-, hnew⟩
    · have hfirst := SensorSuite.Senses.factor?_cases hsenses₁ e name
      exact hsame ▸ hfirst.imp_right And.right
    · exact .inr hnew

/-- Whether the sensors finish or not, what they are run for is sensed. A destination is sensed to
the end. Nothing but a sensor fails. -/
lemma ends_sense_senses (r : Router α) (events : Events) (a : Pedestrian α) (time : α)
    (m : CognitiveMap α) : Ends (r.sense events a time) m fun result m' =>
      r.Senses a time m m' ∧
      (r.suite = .ofParams r.params.sensors → events = .newDestination → result = .ok ()) ∧
      ∀ e, result = .error e → ∃ error, e = .sensor error := by
  unfold Ends
  rw [run_sense]
  refine ⟨SensorSuite.senses_fire events r.suite m, ?_, ?_⟩
  · rintro hsuite rfl
    obtain ⟨n, hn⟩ :=
      SensorSuite.fire_newDestination_ok a m (r.surroundings time) r.params.sensors
    rw [hsuite, hn]
  · intro e he
    cases hfire : (SensorSuite.fire events a (r.surroundings time) r.suite m).2 with
    | ok n =>
      rw [hfire] at he
      cases he
    | error error =>
      rw [hfire] at he
      exact ⟨error, (Except.error.inj he).symm⟩

lemma ends_choose_senses (hm : m.network.WellFormed) (a : Pedestrian α) (time : α) :
    Ends (r.choose a time) m fun result m' => r.Senses a time m m' ∧
      (∀ d, result = .ok d → d.edge ∈ m'.network.outEdges a.subroom) ∧
      ∀ e, result = .error e → FailsWith a e := by
  unfold choose
  rw [ends_get_bind]
  cases hfirst : m.network.cheapestDestination a.subroom a.position with
  | ok d =>
    refine ⟨.refl, fun d' hd' => ?_, nofun⟩
    rw [← Except.ok.inj hd']
    exact Network.mem_outEdges_of_cheapest hm hfirst
  | error cause =>
    refine (ends_sense_senses r .noRouteKnown a time m).bind ?_ ?_
    · intro _ m' hend
      obtain ⟨hsenses, -⟩ := hend
      have hm' := (SensorSuite.Senses.learns hsenses hm).1
      rw [ends_get_bind]
      cases hsecond : m'.network.cheapestDestination a.subroom a.position with
      | ok d =>
        refine ⟨hsenses, fun d' hd' => ?_, nofun⟩
        rw [← Except.ok.inj hd']
        exact Network.mem_outEdges_of_cheapest hm' hsecond
      | error cause =>
        refine ⟨hsenses, fun d hd => ?_, fun e he => ?_⟩ <;>
          rcases fallback_cases hm' a (Network.cheapestDestination_eq_error hsecond) with
            ⟨d', hd', hmem⟩ | ⟨herror, -⟩
        · rw [Except.ok.inj (hd.symm.trans hd')]
          exact hmem
        · cases herror.symm.trans hd
        · cases hd'.symm.trans he
        · rw [← Except.error.inj (herror.symm.trans he)]
          exact .unroutable
    · intro e m' hend
      obtain ⟨hsenses, -, hsensor⟩ := hend
      obtain ⟨error, rfl⟩ := hsensor e rfl
      refine ⟨hsenses, nofun, fun e' he' => ?_⟩
      rw [← Except.error.inj he']
      exact .sensor error

lemma ends_redirect_outcome {m₀ : CognitiveMap α} (hr : r.suite = .ofParams r.params.sensors)
    (hm₀ : m₀.network.WellFormed) (hm : r.Senses a time m₀ m) :
    Ends (r.redirect a time) m fun result m' => r.Responds a time m₀ result m' ∧
      ∀ e, result = .error e → FailsWith a e := by
  have hwf := (SensorSuite.Senses.learns hm hm₀).1
  unfold redirect
  refine (ends_choose_senses hwf a time).bind ?_ ?_
  · intro d m₁ hend
    obtain ⟨hsenses, hmem, -⟩ := hend
    have hm₁ : r.Senses a time m₀ m₁ := hm.trans hsenses
    have hwf₁ := (SensorSuite.Senses.learns hm₁ hm₀).1
    rw [ends_get_bind]
    obtain ⟨edge, hedge, -⟩ := hwf₁.mem_outEdges.1 (hmem d rfl)
    simp only [hedge]
    rw [ends_modify_bind]
    refine (ends_sense_senses r .newDestination a time (m₁.addDestination d.edge)).bind ?_ ?_
    · intro _ m₂ hend
      rw [ends_modify_bind]
      exact ⟨.chosen hm₁ (hmem d rfl) hedge hend.1, nofun⟩
    · intro e m₂ hend
      cases hend.2.1 hr rfl
  · intro e m₁ hend
    obtain ⟨hsenses, -, hfails⟩ := hend
    refine ⟨.failed (hm.trans hsenses), fun e' he' => ?_⟩
    rw [← Except.error.inj he']
    exact hfails e rfl

lemma route_of_kept {door : DoorId} (hkept : keptDoor? m a.subroom = some door) :
    (r.route a time).run m = (.ok (door, a), m) := by
  have hdest : m.hasDestination = true := by
    cases h : m.hasDestination with
    | true => rfl
    | false => cases (keptDoor?_eq_none h a.subroom).symm.trans hkept
  unfold route
  simp only [run_get_bind, hdest, Bool.not_true, Bool.false_eq_true, if_false, hkept]
  rfl

/-- In another subroom than before, the person looks around before choosing. -/
lemma ends_search {K : CognitiveMap α → Prop}
    {Q : Except (RouterError α) (DoorId × Pedestrian α) → CognitiveMap α → Prop}
    (hsense : ∀ m, K m → K ((r.sense .changedSubRoom a time).run m).2)
    (hredirect : ∀ m, K m → Ends (r.redirect a time) m Q)
    (hfail : ∀ error m, K m → Q (.error (.sensor error)) m) (hm : K m) :
    Ends (do
      if m.lastSubRoom ≠ some a.subroom then r.sense .changedSubRoom a time
      r.redirect a time) m Q := by
  by_cases hsame : m.lastSubRoom ≠ some a.subroom
  · rw [if_pos hsame]
    obtain ⟨-, -, hsensor⟩ := ends_sense_senses r .changedSubRoom a time m
    have hsensed : Ends (r.sense .changedSubRoom a time) m fun result m' =>
        K m' ∧ ∀ e, result = .error e → ∃ error, e = .sensor error := ⟨hsense m hm, hsensor⟩
    refine hsensed.bind (fun _ m' hend => hredirect m' hend.1) fun e m' hend => ?_
    obtain ⟨error, rfl⟩ := hend.2 e rfl
    exact hfail error m' hend.1
  · rw [if_neg hsame]
    exact hredirect m hm

/-- Without a door to keep, a request fails in some sensing or chooses a new door after it. -/
lemma ends_route_of_not_kept {Q : Except (RouterError α) (DoorId × Pedestrian α) →
      CognitiveMap α → Prop}
    (hm : m.network.WellFormed) (hkept : keptDoor? m a.subroom = none)
    (hredirect : ∀ m', r.Senses a time m m' → Ends (r.redirect a time) m' Q)
    (hfail : ∀ error m', r.Senses a time m m' → Q (.error (.sensor error)) m') :
    Ends (r.route a time) m Q := by
  have hsearch (m' : CognitiveMap α) (hm' : r.Senses a time m m') :=
    ends_search (fun m₁ hm₁ => hm₁.trans (ends_sense_senses r .changedSubRoom a time m₁).1)
      hredirect hfail hm'
  unfold route
  rw [ends_get_bind]
  cases hdest : m.hasDestination with
  | true =>
    simp only [Bool.not_true, Bool.false_eq_true, if_false]
    rw [ends_get_bind, hkept]
    exact hsearch m .refl
  | false =>
    simp only [Bool.not_false, if_true]
    refine (ends_sense_senses r .init a time m).bind ?_ ?_
    · intro _ m' hend
      obtain ⟨hsenses, -⟩ := hend
      have hkept' : keptDoor? m' a.subroom = none := by
        apply keptDoor?_eq_none
        rw [← (SensorSuite.Senses.learns hsenses hm).2.kept]
        exact hdest
      rw [ends_get_bind, hkept']
      exact hsearch m' hsenses
    · intro e m' hend
      obtain ⟨hsenses, -, hsensor⟩ := hend
      obtain ⟨error, rfl⟩ := hsensor e rfl
      exact hfail error m' hsenses

lemma ends_route_outcome (hr : r.suite = .ofParams r.params.sensors)
    (hm : m.network.WellFormed) (a : Pedestrian α) (time : α) :
    Ends (r.route a time) m fun result m' => r.Responds a time m result m' ∧
      ∀ e, result = .error e → FailsWith a e := by
  cases hkept : keptDoor? m a.subroom with
  | some door =>
    unfold Ends
    rw [route_of_kept hkept]
    exact ⟨.kept hkept, nofun⟩
  | none =>
    refine ends_route_of_not_kept hm hkept ?_ ?_
    · intro m' hm'
      exact ends_redirect_outcome hr hm hm'
    · intro error m' hm'
      refine ⟨.failed hm', fun e he => ?_⟩
      rw [← Except.error.inj he]
      exact .sensor error

/-- Every request for a door comes to one of the three. -/
theorem ends_route_responds (hr : r.suite = .ofParams r.params.sensors)
    (hm : m.network.WellFormed) (a : Pedestrian α) (time : α) :
    Ends (r.route a time) m (r.Responds a time m) :=
  (ends_route_outcome hr hm a time).1

/-- A request that fails has at most brought the map up to date. -/
lemma learns_of_route_error (hr : r.suite = .ofParams r.params.sensors)
    (hm : m.network.WellFormed) {e : RouterError α}
    (h : (r.route a time).run m = (.error e, m')) :
    m'.network.WellFormed ∧ m.Learns m' ∧ FailsWith a e := by
  have hends := ends_route_outcome hr hm a time
  unfold Ends at hends
  rw [h] at hends
  obtain ⟨hresponds, hfails⟩ := hends
  obtain ⟨-⟩ | hsenses := hresponds
  obtain ⟨hwf, hlearns⟩ := SensorSuite.Senses.learns hsenses hm
  exact ⟨hwf, hlearns, hfails e rfl⟩

end Egress.Router
