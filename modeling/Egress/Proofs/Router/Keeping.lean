import Egress.Proofs.Router.Independence

/-!
# Keeping a destination

Whoever has been sent to a door is sent there again, without any sensing, until a door has been
chosen in another subroom or the router has forgotten the person's map. Nothing else that happens
to the router touches the choice.
-/
namespace Egress.Router

variable {α : Type} {r r' : Router α} {m m' : CognitiveMap α} {id : AgentId} {s : SubRoomId}
  {door : DoorId}

lemma keptDoor?_learns (h : m.Learns m') (hkept : keptDoor? m s = some door) :
    keptDoor? m' s = some door := by
  obtain ⟨e, edge, hs, he, hedge, rfl⟩ := exists_edge_of_keptDoor? hkept
  obtain ⟨bag, hbag⟩ := h.network.edge e edge hedge
  have hs' : m'.lastSubRoom = some s := by
    rw [← h.kept]
    exact hs
  have he' : m'.lastDestination? = some e := by
    rw [← h.kept]
    exact he
  rw [keptDoor?, if_pos hs', he', Option.bind_some, hbag]
  rfl

/-- The person is not refused, and the map stored for the person has the door to keep in the
subroom. -/
structure Keeps (r : Router α) (id : AgentId) (s : SubRoomId) (door : DoorId) : Prop where
  routable : r.isUnroutable id = false
  exists_map : ∃ m, r.maps.find? id = some m ∧ m.network.WellFormed ∧
    keptDoor? m s = some door

lemma Keeps.of_agreesOn (h : r.Keeps id s door) (hr : r.AgreesOn r' id) : r'.Keeps id s door := by
  refine ⟨hr.refusal.trans h.routable, ?_⟩
  rw [hr.map]
  exact h.exists_map

lemma Keeps.withMap (h : r.isUnroutable id = false) (hwf : m.network.WellFormed)
    (hkept : keptDoor? m s = some door) : (r.withMap id m).Keeps id s door :=
  ⟨h, m, OrderedMap.find?_insert_self _ _ _, hwf, hkept⟩

variable [Scalar α] {a p : Pedestrian α} {time : α}

/-- A person with a door to keep is sent to it, and neither the person nor the router changes. -/
theorem Keeps.findExit (h : r.Keeps p.id p.subroom door) (time : α) :
    r.findExit p time = (r, p, .ok door) := by
  obtain ⟨m, hm, -, hkept⟩ := h.exists_map
  have hmapOf : r.mapOf p.id = m := by rw [mapOf, hm, Option.getD_some]
  unfold Router.findExit
  simp only [h.routable, Bool.false_eq_true, if_false, hmapOf, route_of_kept hkept,
    OrderedMap.insert_of_find? hm]

/-- The router with a look around on every event, in a building without subrooms. -/
def deafened (r : Router α) : Router α :=
  { r with building := .named "", suite := [(.discovery, ⟨255⟩)] }

/-- Whatever happens, sensing fails in a deafened router. -/
lemma sense_deafened (r : Router α) {events : Events} (h : events.isEmpty = false)
    (p : Pedestrian α) (time : α) (m : CognitiveMap α) :
    ∃ e, ((r.deafened.sense events p time).run m).1 = .error e := by
  have hint : (⟨255⟩ : Events).intersects events = true := by
    have hall : 255 &&& events.bits = events.bits := UInt8.neg_one_and
    rw [Events.intersects, hall, bne, Bool.not_eq_true']
    exact h
  have hlost : (Sensor.discovery.run p m (r.deafened.surroundings time)).2 =
      .error (.network (.building (.unknownSubRoom p.subroom))) := rfl
  rw [run_sense, show r.deafened.suite = [(.discovery, ⟨255⟩)] from rfl,
    SensorSuite.fire_cons_of_error hint hlost]
  exact ⟨_, rfl⟩

/-- What may happen while the person keeps what has been chosen in the subroom: hazards, periodic
updates, that other people are forgotten, and requests, except that the person does not choose a
door in another subroom and is not refused there. -/
inductive Undisturbed (id : AgentId) (s : SubRoomId) : Router α → Router α → Prop
  | withHazard (r : Router α) (hazard : HazardField α) : Undisturbed id s r (r.withHazard hazard)
  | periodic (r : Router α) (agents : List (Pedestrian α)) (time : α) :
    Undisturbed id s r (r.periodic agents time).1
  | removeAgent (r : Router α) {other : AgentId} : other ≠ id →
    Undisturbed id s r (r.removeAgent other).1
  | findExit (r : Router α) (p : Pedestrian α) (time : α) :
    (p.id = id → p.subroom ≠ s → ∃ e, (r.findExit p time).2.2 = .error e ∧
      ∀ other, e ≠ .unroutable other) →
    Undisturbed id s r (r.findExit p time).1

lemma Undisturbed.step (h : Undisturbed id s r r') : Step r r' := by
  cases h with
  | withHazard hazard => exact .withHazard r hazard
  | periodic agents time => exact .periodic r agents time
  | removeAgent _ => exact .removeAgent r _
  | findExit p time _ => exact .findExit r p time

lemma Keeps.periodicFor (h : r.Keeps id s door) (p : Pedestrian α) (time : α) :
    (r.periodicFor p time).1.Keeps id s door := by
  rcases periodicFor_fst r p time with hsame | ⟨m, hm, hupdate⟩
  · rw [hsame]
    exact h
  · rw [hupdate]
    by_cases hid : id = p.id
    · subst hid
      obtain ⟨m₀, hm₀, hwf, hkept⟩ := h.exists_map
      obtain rfl : m₀ = m := Option.some.inj (hm₀.symm.trans hm)
      have hsenses : r.Senses p time m₀ _ := (ends_sense_senses r .periodic p time m₀).1
      obtain ⟨hwf', hlearns⟩ := SensorSuite.Senses.learns hsenses hwf
      exact .withMap h.routable hwf' (keptDoor?_learns hlearns hkept)
    · exact h.of_agreesOn ⟨⟨_, _, rfl⟩, OrderedMap.find?_insert_of_ne _ hid _, rfl⟩

lemma Keeps.findExit_failed (h : r.Keeps p.id s door)
    (hsuite : r.suite = .ofParams r.params.sensors) {e : RouterError α}
    (hfail : (r.findExit p time).2.2 = .error e) (hne : ∀ other, e ≠ .unroutable other) :
    (r.findExit p time).1.Keeps p.id s door := by
  obtain ⟨m, hm, hwf, hkept⟩ := h.exists_map
  have hmapOf : r.mapOf p.id = m := by rw [mapOf, hm, Option.getD_some]
  obtain ⟨m', ⟨door', p', -, hexit⟩ | ⟨other, -, hexit⟩ | ⟨e', -, hroute, hexit⟩⟩ :=
    findExit_cases h.routable time
  all_goals rw [hexit] at hfail
  · cases hfail
  · exact absurd (Except.error.inj hfail).symm (hne other)
  · rw [hmapOf] at hroute
    obtain ⟨hwf', hlearns, -⟩ := learns_of_route_error hsuite hwf hroute
    rw [hexit]
    exact .withMap h.routable hwf' (keptDoor?_learns hlearns hkept)

theorem Keeps.step (h : r.Keeps id s door) (hsuite : r.suite = .ofParams r.params.sensors)
    (hstep : Undisturbed id s r r') : r'.Keeps id s door := by
  cases hstep with
  | withHazard hazard => exact ⟨h.routable, h.exists_map⟩
  | periodic agents time =>
    exact periodic_induction (P := fun r => r.Keeps id s door)
      (fun _ p hr => hr.periodicFor p time) agents ⟨h.routable, h.exists_map⟩
  | @removeAgent other hother =>
    refine ⟨h.routable, ?_⟩
    rw [removeAgent, OrderedMap.find?_erase_of_ne _ hother.symm]
    exact h.exists_map
  | findExit p time hfail =>
    by_cases hid : id = p.id
    · subst hid
      by_cases hs : p.subroom = s
      · subst hs
        rw [h.findExit time]
        exact h
      · obtain ⟨e, he, hne⟩ := hfail rfl hs
        exact h.findExit_failed hsuite he hne
    · exact h.of_agreesOn (agreesOn_findExit r p time hid)

variable {b : Building α} {params : RouterParams α}

theorem Keeps.run (h : r.Keeps id s door) (hr : Reachable b params r)
    (hsteps : Relation.ReflTransGen (Undisturbed id s) r r') :
    Reachable b params r' ∧ r'.Keeps id s door := by
  induction hsteps with
  | refl => exact ⟨hr, h⟩
  | tail _ hstep ih =>
    obtain ⟨⟨r₀, hnew, hrun⟩, hkeeps⟩ := ih
    have hfounded := (Reachable.stores ⟨r₀, hnew, hrun⟩ (preserved_orderly b params)).founded
    exact ⟨⟨r₀, hnew, hrun.tail hstep.step⟩, hkeeps.step hfounded.configured hstep⟩

/-- In every state of a router, a person who has been sent to a door is sent to it again from
anywhere in the subroom, at whatever time and whatever has happened since, as long as the person has
neither been sent elsewhere in another subroom nor refused there nor forgotten. That answer changes
neither the person nor the router. It is the same whatever else the router has become, in a router
too in which any sensing would fail. -/
theorem findExit_keeps {a' : Pedestrian α} (hr : Reachable b params r)
    (h : r.findExit a time = (r', a', .ok door)) {r'' : Router α}
    (hsteps : Relation.ReflTransGen (Undisturbed a.id a.subroom) r' r'') (p : Pedestrian α)
    (hid : p.id = a.id) (hs : p.subroom = a.subroom) (t : α) :
    r''.findExit p t = (r'', p, .ok door) ∧
    (∀ q : Router α, q.isUnroutable p.id = r''.isUnroutable p.id →
      q.maps.find? p.id = r''.maps.find? p.id → q.findExit p t = (q, p, .ok door)) ∧
    r''.deafened.findExit p t = (r''.deafened, p, .ok door) ∧
    ∀ events : Events, events.isEmpty = false → ∀ m,
      ∃ e, ((r''.deafened.sense events p t).run m).1 = .error e := by
  have hP := preserved_orderly b params
  obtain ⟨hroutable, m, hm, hresponds⟩ := hr.exists_responds h
  obtain ⟨-, -, horderly⟩ := (hr.stores hP).mapOf hP a.id
  have hdepth : 0 < max params.sensors.recencyDepth 1 := lt_max_of_lt_right one_pos
  have hkeeps : r'.Keeps a.id a.subroom door :=
    ⟨hroutable, m, hm, (hresponds.orderly horderly hdepth).1.wellFormed,
      hresponds.keptDoor?_eq horderly hdepth⟩
  obtain ⟨r₀, hnew, hrun⟩ := hr
  have hkept := (hkeeps.run (b := b) ⟨r₀, hnew, hrun.tail (.of_findExit h)⟩ hsteps).2
  rw [← hid, ← hs] at hkept
  have hsame (q : Router α) (hrefusal : q.isUnroutable p.id = r''.isUnroutable p.id)
      (hmap : q.maps.find? p.id = r''.maps.find? p.id) :
      q.findExit p t = (q, p, .ok door) :=
    Keeps.findExit ⟨hrefusal.trans hkept.routable, hmap ▸ hkept.exists_map⟩ t
  exact ⟨hkept.findExit t, hsame, hsame _ rfl rfl, fun _ hevents => r''.sense_deafened hevents p t⟩

section
open Exact

/-- The visitor of the pavilion has been sent to its door. After an update with a hazard that
nobody can look up, a request of the companion and a companion forgotten, the visitor is sent there
again from somewhere else, and nothing has changed. -/
theorem findExit_keeps_pavilion : ∃ r r' : Router Exact, Reachable pavilion .standard r ∧
    (r.findExit visitor (real 0)).2.2 = .ok 3 ∧
    ((((r.findExit visitor (real 0)).1.withHazard brokenHazard).periodic [visitor, companion]
      (real 1)).1.findExit companion (real 1)).1 = r' ∧
    (r'.removeAgent 8).1.findExit (.standing 7 0 5 ⟨real 3, real 2⟩) (real 2) =
      ((r'.removeAgent 8).1, .standing 7 0 5 ⟨real 3, real 2⟩, .ok 3) := by
  obtain ⟨r₀, r, a', hnew, -, hexit⟩ := exists_sent_pavilion
  have hreach : Reachable pavilion .standard r₀ := ⟨r₀, hnew, .refl⟩
  have hsteps : Relation.ReflTransGen (Undisturbed visitor.id visitor.subroom) r _ :=
    (((Relation.ReflTransGen.single (.withHazard r brokenHazard)).tail
      (.periodic _ [visitor, companion] (real 1))).tail
      (.findExit _ companion (real 1) fun hid => absurd hid (by decide))).tail
      (.removeAgent _ (show (8 : AgentId) ≠ visitor.id by decide))
  have hagain := findExit_keeps hreach hexit hsteps (.standing 7 0 5 ⟨real 3, real 2⟩) rfl rfl
    (real 2)
  refine ⟨r₀, _, hreach, by rw [hexit], rfl, ?_⟩
  rw [hexit]
  exact hagain.1

end

end Egress.Router
