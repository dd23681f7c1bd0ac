import Egress.Proofs.Network.Search
import Egress.Proofs.Sensing.Suite
import Egress.Router

/-!
# How a door is chosen

Each stage of a choice keeps the person's map sound. A door that comes out is an open door of the
person's subroom. Where hazards are at worst unknown the only refusal is that of a person without a
usable door, and nobody is refused who knows the subroom and has an open door there.
-/
namespace Egress

variable {α : Type}

lemma CognitiveMap.lastDestination?_addDestination {m : CognitiveMap α} (h : 0 < m.depth)
    (e : EdgeId) : (m.addDestination e).lastDestination? = some e := by
  simp only [lastDestination?, addDestination, latest, List.getLast?_drop, List.length_append,
    List.length_singleton]
  rw [if_neg (by omega), List.getLast?_concat]

lemma CognitiveMap.Learns.lastDestination?_eq {m m' : CognitiveMap α} {e : EdgeId}
    (h : (m.addDestination e).Learns m') (hdepth : 0 < m.depth) :
    m'.lastDestination? = some e := by
  rw [← h.kept]
  exact lastDestination?_addDestination hdepth e

namespace Router

variable [Scalar α]

/-- The person is in an existing subroom, and hazards are at worst unknown. -/
structure CanPerceive (r : Router α) (a : Pedestrian α) : Prop where
  hazard : ∀ f, r.hazard = some f → f.OnlyMisses
  subroom : ∃ sub, r.building.subroom? a.subroom = some sub

/-- The building is well formed, and the sensors are those that the parameters ask for. -/
structure Configured (r : Router α) : Prop where
  building : r.building.WellFormed
  suite : r.suite = .ofParams r.params.sensors

/-- What may come of asking for a door with the map `m`. -/
structure Answers (r : Router α) (a : Pedestrian α) (m : CognitiveMap α)
    (result : Except (RouterError α) (DoorId × Pedestrian α)) (m' : CognitiveMap α) : Prop where
  sound : m'.Sound r.building
  recalls : m'.Recalls
  mode : m'.mode = m.mode
  opensFrom : ∀ door a', result = .ok (door, a') → r.building.OpensFrom a.subroom door
  learns : ∀ e, result = .error e → m.Learns m'
  refuses : ∀ e, result = .error e → r.CanPerceive a → e = .unroutable a.id ∧
    (m.mode = .complete ∨ r.params.sensors.discovery = true →
      ∀ door, ¬r.building.OpensFrom a.subroom door)

variable {r : Router α} {a : Pedestrian α} {m m' m'' : CognitiveMap α} {time : α}

lemma Answers.of_learns {result : Except (RouterError α) (DoorId × Pedestrian α)}
    (h : r.Answers a m' result m'') (hm : m.Learns m') : r.Answers a m result m'' := by
  have hmode : m'.mode = m.mode := by rw [← hm.kept]
  constructor
  case sound => exact h.sound
  case recalls => exact h.recalls
  case mode => exact h.mode.trans hmode
  case opensFrom => exact h.opensFrom
  case learns =>
    intro e he
    exact hm.trans (h.learns e he)
  case refuses =>
    intro e he hperceive
    rw [← hmode]
    exact h.refuses e he hperceive

/-- Sensing fires the sensors, and forgets how many ran. -/
lemma run_sense (r : Router α) (events : Events) (a : Pedestrian α) (time : α)
    (m : CognitiveMap α) : (r.sense events a time).run m =
      (match (SensorSuite.fire events a (r.surroundings time) r.suite m).2 with
        | .ok _ => .ok ()
        | .error e => .error (.sensor e),
      (SensorSuite.fire events a (r.surroundings time) r.suite m).1) := by
  simp only [sense, ExceptT.run_mk]
  split
  · rename_i h
    rw [h]
  · rename_i h
    rw [h]

/-- Sensing keeps what is known, and finishes for those who can perceive. -/
theorem ends_sense (hr : r.Configured) (hm : m.Sound r.building) (events : Events)
    (a : Pedestrian α) (time : α) : Ends (r.sense events a time) m fun result m' =>
      m'.Sound r.building ∧ m.Learns m' ∧
      (r.CanPerceive a ∨ events = .newDestination → result = .ok ()) ∧
      (r.CanPerceive a → r.params.sensors.discovery = true →
        Events.intersects .noRouteKnown events = true →
        m'.network.Knows r.building a.subroom) := by
  have hsound : (SensorSuite.fire events a (r.surroundings time) r.suite m).1.Sound r.building ∧
      m.Learns (SensorSuite.fire events a (r.surroundings time) r.suite m).1 :=
    SensorSuite.fire_sound hr.building events r.suite hm
  unfold Ends
  rw [run_sense]
  refine ⟨hsound.1, hsound.2, ?_, ?_⟩
  · intro hfinish
    have hok : ∃ n, (SensorSuite.fire events a (r.surroundings time) r.suite m).2 = .ok n := by
      rw [hr.suite]
      rcases hfinish with hperceive | rfl
      · exact (SensorSuite.fire_ofParams_ok hr.building hm hperceive.hazard hperceive.subroom
          r.params.sensors).1
      · exact SensorSuite.fire_newDestination_ok a m (r.surroundings time) r.params.sensors
    obtain ⟨n, hn⟩ := hok
    rw [hn]
  · intro hperceive hdiscovery hevents
    rw [hr.suite]
    exact (SensorSuite.fire_ofParams_ok hr.building hm hperceive.hazard hperceive.subroom
      r.params.sensors).2 hdiscovery hevents

/-- Who finds no way out is sent to an edge out of the subroom, and refused if there is none. -/
lemma fallback_cases (hm : m.network.WellFormed) (a : Pedestrian α) {cause : NetworkError}
    (hcause : cause = .noVertex a.subroom ∨ cause = .noRouteKnown a.subroom) :
    (∃ d, fallback a m cause = .ok d ∧ d.edge ∈ m.network.outEdges a.subroom) ∨
      fallback a m cause = .error (.unroutable a.id) ∧ m.network.outEdges a.subroom = [] := by
  have hsame : fallback a m cause = fallback a m (.noVertex a.subroom) := by
    rcases hcause with rfl | rfl
    · rfl
    · rfl
  rw [hsame]
  simp only [fallback]
  rcases Network.localDestination_cases hm a.subroom a.position with
    ⟨d, hd, hmem⟩ | ⟨hout, herror | herror⟩
  · exact .inl ⟨d, by rw [hd], hmem⟩
  · exact .inr ⟨by rw [herror], hout⟩
  · exact .inr ⟨by rw [herror], hout⟩

/-- Where a person who knows the subroom has found no edge out of it, there is no open door. -/
lemma not_opensFrom_of_outEdges (hm : m.Sound r.building) (hperceive : r.CanPerceive a)
    (hlearns : m.Learns m') (hwf : m'.network.WellFormed)
    (hknows : r.params.sensors.discovery = true → m'.network.Knows r.building a.subroom)
    (hout : m'.network.outEdges a.subroom = [])
    (hable : m.mode = .complete ∨ r.params.sensors.discovery = true) (door : DoorId) :
    ¬r.building.OpensFrom a.subroom door := by
  have hall : m'.network.Knows r.building a.subroom := by
    rcases hable with hmode | hdiscovery
    · obtain ⟨sub, hsub⟩ := hperceive.subroom
      exact (hm.complete hmode a.subroom sub hsub).extend hlearns.network
    · exact hknows hdiscovery
  exact hall.not_opensFrom hwf hout

/-- A choice is an edge out of the subroom. -/
theorem ends_choose (hr : r.Configured) (hm : m.Sound r.building) (a : Pedestrian α) (time : α) :
    Ends (r.choose a time) m fun result m' =>
      m'.Sound r.building ∧ m.Learns m' ∧
      (∀ d, result = .ok d → d.edge ∈ m'.network.outEdges a.subroom) ∧
      ∀ e, result = .error e → r.CanPerceive a → e = .unroutable a.id ∧
        (m.mode = .complete ∨ r.params.sensors.discovery = true →
          ∀ door, ¬r.building.OpensFrom a.subroom door) := by
  unfold choose
  rw [ends_get_bind]
  cases hfirst : m.network.cheapestDestination a.subroom a.position with
  | ok d =>
    have hmem := Network.mem_outEdges_of_cheapest hm.wellFormed hfirst
    refine ⟨hm, (CognitiveMap.Reweighs.refl m).learns, ?_, nofun⟩
    intro d' hd'
    rwa [← Except.ok.inj hd']
  | error cause =>
    refine (ends_sense hr hm .noRouteKnown a time).bind ?_ ?_
    · intro _ m' hend
      obtain ⟨hm', hlearns, -, hknows⟩ := hend
      rw [ends_get_bind]
      cases hsecond : m'.network.cheapestDestination a.subroom a.position with
      | ok d =>
        have hmem := Network.mem_outEdges_of_cheapest hm'.wellFormed hsecond
        refine ⟨hm', hlearns, ?_, nofun⟩
        intro d' hd'
        rwa [← Except.ok.inj hd']
      | error cause =>
        have hcause := Network.cheapestDestination_eq_error hsecond
        refine ⟨hm', hlearns, ?_⟩
        rcases fallback_cases hm'.wellFormed a hcause with ⟨d, hd, hmem⟩ | ⟨herror, hout⟩
        · refine ⟨?_, ?_⟩
          · intro d' hd'
            rw [← Except.ok.inj (hd.symm.trans hd')]
            exact hmem
          · intro e he
            cases hd.symm.trans he
        · refine ⟨?_, ?_⟩
          · intro d hd
            cases herror.symm.trans hd
          · intro e he hperceive
            refine ⟨(Except.error.inj (herror.symm.trans he)).symm, ?_⟩
            apply not_opensFrom_of_outEdges hm hperceive hlearns hm'.wellFormed _ hout
            intro hdiscovery
            exact hknows hperceive hdiscovery (by decide)
    · intro e m' hend
      obtain ⟨hm', hlearns, hfinish, -⟩ := hend
      refine ⟨hm', hlearns, nofun, ?_⟩
      intro e' _ hperceive
      cases hfinish (.inl hperceive)

/-- What a new destination makes of a map. -/
lemma answers_chosen (hm : m.Sound r.building) (hdepth : 0 < m.depth) {e : EdgeId}
    (he : e ∈ m.network.outEdges a.subroom)
    (hlearns : (m.addDestination e).Learns m') (hsound : m'.Sound r.building) (a' : Pedestrian α) :
    ∃ edge, m.network.edge? e = some edge ∧ r.Answers a m (.ok (edge.door, a'))
      { m' with lastSubRoom := some a.subroom } := by
  obtain ⟨edge, hedge, hs⟩ := hm.wellFormed.mem_outEdges.1 he
  obtain ⟨bag, hbag⟩ := hlearns.network.edge e edge hedge
  have hlast := hlearns.lastDestination?_eq hdepth
  refine ⟨edge, hedge, ?_⟩
  constructor
  case sound => exact ⟨hsound.wellFormed, hsound.faithful, hsound.complete⟩
  case recalls =>
    refine ⟨?_, ?_⟩
    · show 0 < m'.depth
      rw [← hlearns.kept]
      exact hdepth
    · intro s hs'
      obtain rfl := Option.some.inj hs'
      exact ⟨e, _, hlast, hbag, hlearns.network.subroomAt _ _ hs⟩
  case mode =>
    show m'.mode = m.mode
    rw [← hlearns.kept]
    rfl
  case opensFrom =>
    intro door a'' heq
    obtain ⟨rfl, -⟩ := Prod.mk.inj (Except.ok.inj heq)
    exact hm.faithful.opensFrom hedge hs
  case learns => exact nofun
  case refuses => exact nofun

theorem ends_redirect (hr : r.Configured) (hm : m.Sound r.building) (hrecalls : m.Recalls)
    (a : Pedestrian α) (time : α) : Ends (r.redirect a time) m (r.Answers a m) := by
  unfold redirect
  refine (ends_choose hr hm a time).bind ?_ ?_
  · intro d m₁ hend
    obtain ⟨hm₁, hlearns₁, hmem, -⟩ := hend
    have hd := hmem d rfl
    have hdepth := (hrecalls.learn hlearns₁).depth_pos
    rw [ends_get_bind]
    obtain ⟨edge, hedge, hs⟩ := hm₁.wellFormed.mem_outEdges.1 hd
    simp only [hedge]
    rw [ends_modify_bind]
    have hadded : (m₁.addDestination d.edge).Sound r.building :=
      ⟨hm₁.wellFormed, hm₁.faithful, hm₁.complete⟩
    refine (ends_sense hr hadded .newDestination a time).bind ?_ ?_
    · intro _ m₂ hend
      obtain ⟨hm₂, hlearns₂, -⟩ := hend
      rw [ends_modify_bind]
      obtain ⟨edge', hedge', hanswers⟩ := answers_chosen (a := a) hm₁ hdepth hd hlearns₂ hm₂
        (a.headFor edge.door edge.line)
      obtain rfl := Option.some.inj (hedge'.symm.trans hedge)
      exact hanswers.of_learns hlearns₁
    · intro e m₂ hend
      obtain ⟨-, -, hfinish, -⟩ := hend
      cases hfinish (.inr rfl)
  · intro e m₁ hend
    obtain ⟨hm₁, hlearns₁, -, hrefuses⟩ := hend
    constructor
    case sound => exact hm₁
    case recalls => exact hrecalls.learn hlearns₁
    case mode => rw [← hlearns₁.kept]
    case opensFrom => exact nofun
    case learns =>
      intro _ _
      exact hlearns₁
    case refuses =>
      intro e' he'
      obtain rfl := Except.error.inj he'
      exact hrefuses e rfl

lemma opensFrom_keptDoor? (hm : m.Sound r.building) (hrecalls : m.Recalls) {s : SubRoomId}
    {door : DoorId} (h : keptDoor? m s = some door) : r.building.OpensFrom s door := by
  unfold keptDoor? at h
  split at h
  · obtain ⟨e, edge, hlast, hedge, hs⟩ := hrecalls.chosen s ‹_›
    rw [hlast, Option.bind_some, hedge, Option.map_some, Option.some.injEq] at h
    rw [← h]
    exact hm.faithful.opensFrom hedge hs
  · cases h

/-- Sensing first, if at all, makes no difference to what an answer is like. -/
lemma ends_after_sense (hr : r.Configured) (hm : m.Sound r.building) (hrecalls : m.Recalls)
    (c : Prop) [Decidable c] (events : Events)
    {f : Unit → Routing α (DoorId × Pedestrian α)}
    (hf : ∀ m', m'.Sound r.building → m'.Recalls → Ends (f ()) m' (r.Answers a m')) :
    Ends (if c then r.sense events a time >>= f else f ()) m (r.Answers a m) := by
  by_cases hc : c
  · rw [if_pos hc]
    refine (ends_sense hr hm events a time).bind ?_ ?_
    · intro _ m' hend
      obtain ⟨hm', hlearns, -⟩ := hend
      have hanswers := hf m' hm' (hrecalls.learn hlearns)
      exact hanswers.of_learns hlearns
    · intro e m' hend
      obtain ⟨hm', hlearns, hfinish, -⟩ := hend
      constructor
      case sound => exact hm'
      case recalls => exact hrecalls.learn hlearns
      case mode => rw [← hlearns.kept]
      case opensFrom => exact nofun
      case learns =>
        intro _ _
        exact hlearns
      case refuses =>
        intro _ _ hperceive
        cases hfinish (.inl hperceive)
  · rw [if_neg hc]
    exact hf m hm hrecalls

/-- The answer to a person who is not refused from the start. -/
theorem ends_route (hr : r.Configured) (hm : m.Sound r.building) (hrecalls : m.Recalls)
    (a : Pedestrian α) (time : α) : Ends (r.route a time) m (r.Answers a m) := by
  unfold route
  rw [ends_get_bind]
  refine ends_after_sense hr hm hrecalls _ .init fun m hm hrecalls => ?_
  rw [ends_get_bind]
  cases hkept : keptDoor? m a.subroom with
  | some door =>
    have hopens := opensFrom_keptDoor? hm hrecalls hkept
    refine ⟨hm, hrecalls, rfl, ?_, nofun, nofun⟩
    intro door' a' heq
    obtain ⟨rfl, -⟩ := Prod.mk.inj (Except.ok.inj heq)
    exact hopens
  | none =>
    exact ends_after_sense hr hm hrecalls _ .changedSubRoom fun m hm hrecalls =>
      ends_redirect hr hm hrecalls a time

end Router

end Egress
