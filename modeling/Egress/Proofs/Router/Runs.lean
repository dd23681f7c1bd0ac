import Egress.Proofs.Router.Choice

/-!
# Runs of the router

In every state that a router can reach, whatever people it has been asked for and whatever went
wrong on the way, it knows the complete network of its building, every map that it keeps is sound,
and who has been refused is refused.
-/
namespace Egress.Router

variable {α : Type} [Scalar α]

/-- What can happen to a router. -/
inductive Step : Router α → Router α → Prop
  | withHazard (r : Router α) (hazard : HazardField α) : Step r (r.withHazard hazard)
  | findExit (r : Router α) (a : Pedestrian α) (time : α) : Step r (r.findExit a time).1
  | periodic (r : Router α) (agents : List (Pedestrian α)) (time : α) :
    Step r (r.periodic agents time).1
  | removeAgent (r : Router α) (id : AgentId) : Step r (r.removeAgent id).1

/-- The states of a router of the building. -/
def Reachable (b : Building α) (params : RouterParams α) (r : Router α) : Prop :=
  ∃ r₀, Router.new b params = .ok r₀ ∧ Relation.ReflTransGen Step r₀ r

/-- The router knows the building, and every map that it keeps is sound. -/
structure Serves (r : Router α) (b : Building α) (params : RouterParams α) : Prop where
  building_eq : r.building = b
  params_eq : r.params = params
  suite_eq : r.suite = .ofParams params.sensors
  wellFormed : r.network.WellFormed
  faithful : r.network.Faithful b
  knows : ∀ s sub, b.subroom? s = some sub → r.network.Knows b s
  maps : ∀ id m, r.maps.find? id = some m →
    m.Sound b ∧ m.Recalls ∧ m.mode = params.mapMode

variable {b : Building α} {params : RouterParams α} {r r' : Router α} {a : Pedestrian α}
  {m : CognitiveMap α} {time : α}

lemma Serves.configured (h : r.Serves b params) (hb : b.WellFormed) : r.Configured :=
  ⟨h.building_eq ▸ hb, h.params_eq ▸ h.suite_eq⟩

lemma Serves.mapOf (h : r.Serves b params) (id : AgentId) :
    (r.mapOf id).Sound b ∧ (r.mapOf id).Recalls ∧ (r.mapOf id).mode = params.mapMode := by
  unfold Router.mapOf
  cases hm : r.maps.find? id with
  | some m => exact h.maps id m hm
  | none =>
    rw [Option.getD_none, h.params_eq]
    refine ⟨?_, ⟨lt_max_of_lt_right one_pos, nofun⟩, rfl⟩
    simp only [CognitiveMap.withDepth, CognitiveMap.new]
    cases params.mapMode with
    | complete => exact ⟨h.wellFormed, h.faithful, fun _ => h.knows⟩
    | progressive => exact ⟨Network.wellFormed_empty, Network.faithful_empty, nofun⟩

/-- The router with a map in place of what a person knew. -/
def withMap (r : Router α) (id : AgentId) (m : CognitiveMap α) : Router α :=
  { r with maps := r.maps.insert id m }

omit [Scalar α] in
lemma mapOf_withMap (r : Router α) (id id' : AgentId) (m : CognitiveMap α) :
    (r.withMap id m).mapOf id' = if id' = id then m else r.mapOf id' := by
  rw [mapOf, withMap, OrderedMap.find?_insert]
  split
  · rfl
  · rfl

lemma Serves.withMap (h : r.Serves b params) (id : AgentId) (hm : m.Sound b)
    (hrecalls : m.Recalls) (hmode : m.mode = params.mapMode) :
    (r.withMap id m).Serves b params := by
  refine { h with maps := ?_ }
  intro id' m' hm'
  simp only [Router.withMap, OrderedMap.find?_insert] at hm'
  split at hm'
  · rw [← Option.some.inj hm']
    exact ⟨hm, hrecalls, hmode⟩
  · exact h.maps id' m' hm'

/-- What a request for a door comes to, and what it leaves of the router. -/
theorem findExit_cases (ha : r.isUnroutable a.id = false) (time : α) :
    ∃ m', (∃ door a', (r.route a time).run (r.mapOf a.id) = (.ok (door, a'), m') ∧
        r.findExit a time = (r.withMap a.id m', a', .ok door)) ∨
      (∃ id, (r.route a time).run (r.mapOf a.id) = (.error (.unroutable id), m') ∧
        r.findExit a time = ({ r.withMap a.id m' with
          unroutable := r.unroutable.insert a.id () }, a, .error (.unroutable id))) ∨
      ∃ e, (∀ id, e ≠ .unroutable id) ∧
        (r.route a time).run (r.mapOf a.id) = (.error e, m') ∧
        r.findExit a time = (r.withMap a.id m', a, .error e) := by
  unfold findExit
  simp only [ha, Bool.false_eq_true, if_false]
  rcases hroute : (r.route a time).run (r.mapOf a.id) with ⟨result, m'⟩
  refine ⟨m', ?_⟩
  cases result with
  | ok answer => exact .inl ⟨answer.1, answer.2, rfl, rfl⟩
  | error e =>
    cases e with
    | unroutable id => exact .inr (.inl ⟨id, rfl, rfl⟩)
    | network e => exact .inr (.inr ⟨.network e, nofun, rfl, rfl⟩)
    | sensor e => exact .inr (.inr ⟨.sensor e, nofun, rfl, rfl⟩)
    | building e => exact .inr (.inr ⟨.building e, nofun, rfl, rfl⟩)

theorem Serves.findExit (h : r.Serves b params) (hb : b.WellFormed) (a : Pedestrian α)
    (time : α) : (r.findExit a time).1.Serves b params := by
  cases ha : r.isUnroutable a.id with
  | true =>
    unfold Router.findExit
    rw [ha, if_pos rfl]
    exact h
  | false =>
    obtain ⟨hm, hrecalls, hmode⟩ := h.mapOf a.id
    have hends := ends_route (h.configured hb) (h.building_eq ▸ hm) hrecalls a time
    unfold Ends at hends
    obtain ⟨m', ⟨door, a', hroute, hexit⟩ | ⟨id, hroute, hexit⟩ | ⟨e, -, hroute, hexit⟩⟩ :=
      findExit_cases ha time
    all_goals
      rw [hroute] at hends
      rw [hexit]
      have hmap := h.withMap a.id (h.building_eq ▸ hends.sound) hends.recalls
        (hends.mode.trans hmode)
    · exact hmap
    · exact { hmap with }
    · exact hmap

theorem Serves.periodicFor (h : r.Serves b params) (hb : b.WellFormed) (a : Pedestrian α)
    (time : α) : (r.periodicFor a time).1.Serves b params := by
  unfold Router.periodicFor
  split
  · exact h
  · split
    · exact h
    · rename_i m hm
      obtain ⟨hsound, hrecalls, hmode⟩ := h.maps a.id m hm
      have hends := ends_sense (h.configured hb) (h.building_eq ▸ hsound) .periodic a time
      obtain ⟨hsound', hlearns, -⟩ := hends
      have hkept : ((r.sense .periodic a time).run m).2.mode = m.mode := by rw [← hlearns.kept]
      exact h.withMap a.id (h.building_eq ▸ hsound') (hrecalls.learn hlearns)
        (hkept.trans hmode)

/-- What every update of one person keeps, a periodic update keeps. -/
lemma periodic_induction {P : Router α → Prop} (hP : ∀ r a, P r → P (r.periodicFor a time).1)
    (agents : List (Pedestrian α)) (h : P { r with traffic := .ofAgents agents }) :
    P (r.periodic agents time).1 := by
  unfold periodic
  refine List.foldlRecOn (motive := fun rn : Router α × ℕ => P rn.1) agents _ h ?_
  intro rn hrn a _
  exact hP rn.1 a hrn

/-- A new router has the complete network of its building, and knows nobody and no hazard. -/
lemma new_eq_ok_iff : Router.new b params = .ok r ↔ ∃ g, Network.ofBuilding b = .ok g ∧
    r = ⟨b, params, .ofParams params.sensors, g, .empty, none, .empty, .empty⟩ := by
  unfold Router.new
  cases Network.ofBuilding b with
  | error e => simp
  | ok g => simp only [Except.ok.injEq, exists_eq_left', eq_comm]

theorem serves_new (hb : b.WellFormed) (h : Router.new b params = .ok r) : r.Serves b params := by
  obtain ⟨g, hg, hwf, hfaithful, hknows⟩ := Network.ofBuilding_spec hb
  obtain ⟨g', hg', rfl⟩ := new_eq_ok_iff.1 h
  obtain rfl : g = g' := Except.ok.inj (hg.symm.trans hg')
  exact ⟨rfl, rfl, rfl, hwf, hfaithful, hknows, nofun⟩

theorem Serves.step (h : r.Serves b params) (hb : b.WellFormed) (hstep : Step r r') :
    r'.Serves b params := by
  cases hstep with
  | withHazard hazard => exact { h with }
  | findExit a time => exact h.findExit hb a time
  | periodic agents time =>
    refine periodic_induction (P := fun r => r.Serves b params) ?_ agents { h with }
    intro r a hr
    exact hr.periodicFor hb a time
  | removeAgent id =>
    refine { h with maps := ?_ }
    intro id' m hm
    by_cases hid : id' = id
    · subst hid
      simp [removeAgent] at hm
    · simp only [removeAgent, OrderedMap.find?_erase_of_ne _ hid] at hm
      exact h.maps id' m hm

theorem Reachable.serves (hr : Reachable b params r) (hb : b.WellFormed) : r.Serves b params := by
  obtain ⟨r₀, hnew, hsteps⟩ := hr
  induction hsteps with
  | refl => exact serves_new hb hnew
  | tail _ hstep ih => exact ih.step hb hstep

end Egress.Router
