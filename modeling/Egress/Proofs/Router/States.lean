import Egress.Proofs.Network.Factors
import Egress.Proofs.Router.Answers
import Egress.Proofs.Router.Responses

/-!
# The states of a router

Whatever a router has been asked for and whatever has failed, it has the building and the network
that it was made with, and what it has stored for a person is a map of that person in which the
latest destinations are in order. Nothing but forgetting a map makes it disappear.
-/
namespace Egress

variable {α : Type}

namespace CognitiveMap

variable {m m' : CognitiveMap α} {depth : ℕ} {e : EdgeId}

/-- The latest destinations are edges of the network, not more of them than are to be remembered,
and the last one leaves the subroom in which it was chosen. -/
structure Orderly (m : CognitiveMap α) (depth : ℕ) : Prop where
  wellFormed : m.network.WellFormed
  depth_eq : m.depth = depth
  length_le : m.history.length ≤ depth
  exists_edge : ∀ e ∈ m.history, ∃ edge, m.network.edge? e = some edge
  hasDestination_iff : m.hasDestination = true ↔ ∃ s, m.lastSubRoom = some s
  leaves : ∀ s, m.lastSubRoom = some s → ∃ e edge, m.lastDestination? = some e ∧
    m.network.edge? e = some edge ∧ m.network.vertexOf.find? s = some edge.source

lemma length_history_addDestination_le (m : CognitiveMap α) (e : EdgeId) :
    (m.addDestination e).history.length ≤ m.depth := by
  simp only [addDestination, latest, List.length_drop, List.length_append, List.length_singleton]
  omega

lemma mem_history_addDestination {e' : EdgeId} (h : e' ∈ (m.addDestination e).history) :
    e' ∈ m.history ∨ e' = e := by
  have hmem := List.mem_of_mem_drop h
  rwa [List.mem_append, List.mem_singleton] at hmem

theorem orderly_new (id : AgentId) (mode : MapMode) {g : Network α} (hg : g.WellFormed)
    (depth : ℕ) : ((CognitiveMap.new id mode g).withDepth depth).Orderly (max depth 1) := by
  have hhistory : ((CognitiveMap.new id mode g).withDepth depth).history = [] := List.drop_nil
  refine ⟨?_, rfl, ?_, ?_, ?_, nofun⟩
  · cases mode with
    | complete => exact hg
    | progressive => exact Network.wellFormed_empty
  · rw [hhistory]
    exact Nat.zero_le _
  · rw [hhistory]
    exact nofun
  · rw [hasDestination, hhistory]
    simp [withDepth, CognitiveMap.new]

theorem Orderly.learn (h : m.Orderly depth) (hm : m.Learns m') (hwf : m'.network.WellFormed) :
    m'.Orderly depth := by
  have hkept := hm.kept
  refine ⟨hwf, ?_, ?_, ?_, ?_, ?_⟩
  · rw [← hkept]
    exact h.depth_eq
  · rw [← hkept]
    exact h.length_le
  · intro e he
    rw [← hkept] at he
    obtain ⟨edge, hedge⟩ := h.exists_edge e he
    obtain ⟨bag, hbag⟩ := hm.network.edge e edge hedge
    exact ⟨_, hbag⟩
  · rw [← hkept]
    exact h.hasDestination_iff
  · intro s hs
    rw [← hkept] at hs
    obtain ⟨e, edge, hlast, hedge, hsource⟩ := h.leaves s hs
    obtain ⟨bag, hbag⟩ := hm.network.edge e edge hedge
    have hat := hm.network.subroomAt _ s ((h.wellFormed.vertexOf_iff s _).1 hsource)
    refine ⟨e, _, ?_, hbag, (hwf.vertexOf_iff s _).2 hat⟩
    rw [← hkept]
    exact hlast

/-- A destination that is remembered with the subroom that it leaves keeps the map in order. -/
theorem Orderly.chosen (h : m.Orderly depth) (hdepth : 0 < depth) {s : SubRoomId}
    (he : e ∈ m.network.outEdges s) (hm : (m.addDestination e).Learns m')
    (hwf : m'.network.WellFormed) : ({ m' with lastSubRoom := some s }).Orderly depth := by
  have hhistory : m'.history = (m.addDestination e).history := by rw [← hm.kept]
  have hlast := hm.lastDestination?_eq (h.depth_eq ▸ hdepth)
  obtain ⟨edge, hedge, hs⟩ := h.wellFormed.mem_outEdges.1 he
  obtain ⟨bag, hbag⟩ := hm.network.edge e edge hedge
  refine ⟨hwf, ?_, ?_, ?_, ?_, ?_⟩
  · show m'.depth = depth
    rw [← hm.kept]
    exact h.depth_eq
  · show m'.history.length ≤ depth
    rw [hhistory, ← h.depth_eq]
    exact length_history_addDestination_le m e
  · intro e' he'
    replace he' : e' ∈ m'.history := he'
    rw [hhistory] at he'
    rcases mem_history_addDestination he' with hold | rfl
    · obtain ⟨edge', hedge'⟩ := h.exists_edge e' hold
      obtain ⟨bag', hbag'⟩ := hm.network.edge e' edge' hedge'
      exact ⟨_, hbag'⟩
    · exact ⟨_, hbag⟩
  · refine ⟨fun _ => ⟨s, rfl⟩, fun _ => ?_⟩
    have hne : m'.history ≠ [] := by
      intro hnil
      rw [lastDestination?, hnil] at hlast
      cases hlast
    simpa [hasDestination] using hne
  · intro s' hs'
    obtain rfl := Option.some.inj hs'
    exact ⟨e, _, hlast, hbag, (hwf.vertexOf_iff s _).2 (hm.network.subroomAt _ s hs)⟩

end CognitiveMap

namespace Router

variable [Scalar α] {b : Building α} {params : RouterParams α} {r r' : Router α}
  {a : Pedestrian α} {m m' : CognitiveMap α} {time : α} {id : AgentId}

/-- A request for a door keeps a map in order, and whose it is. -/
theorem Responds.orderly {depth : ℕ} {result : Except (RouterError α) (DoorId × Pedestrian α)}
    (h : r.Responds a time m result m') (hm : m.Orderly depth) (hdepth : 0 < depth) :
    m'.Orderly depth ∧ m'.agent = m.agent ∧ m'.mode = m.mode := by
  cases h with
  | kept hkept => exact ⟨hm, rfl, rfl⟩
  | failed hsenses =>
    obtain ⟨hwf, hlearns⟩ := SensorSuite.Senses.learns hsenses hm.wellFormed
    exact ⟨hm.learn hlearns hwf, by rw [← hlearns.kept], by rw [← hlearns.kept]⟩
  | chosen hsenses₁ he hedge hsenses₂ =>
    obtain ⟨hwf₁, hlearns₁⟩ := SensorSuite.Senses.learns hsenses₁ hm.wellFormed
    obtain ⟨hwf₂, hlearns₂⟩ := SensorSuite.Senses.learns hsenses₂ hwf₁
    refine ⟨(hm.learn hlearns₁ hwf₁).chosen hdepth he hlearns₂ hwf₂, ?_, ?_⟩
    · rw [← hlearns₂.kept, ← hlearns₁.kept]
      rfl
    · rw [← hlearns₂.kept, ← hlearns₁.kept]
      rfl

theorem Responds.keptDoor?_eq {depth : ℕ} {door : DoorId} {a' : Pedestrian α}
    (h : r.Responds a time m (.ok (door, a')) m') (hm : m.Orderly depth) (hdepth : 0 < depth) :
    keptDoor? m' a.subroom = some door := by
  cases h with
  | kept hkept => exact hkept
  | @chosen e edge m₁ m₂ hsenses₁ he hedge hsenses₂ =>
    obtain ⟨hwf₁, hlearns₁⟩ := SensorSuite.Senses.learns hsenses₁ hm.wellFormed
    obtain ⟨-, hlearns₂⟩ := SensorSuite.Senses.learns hsenses₂ hwf₁
    have hdepth₁ := (hm.learn hlearns₁ hwf₁).depth_eq
    have hlast := hlearns₂.lastDestination?_eq (hdepth₁ ▸ hdepth)
    obtain ⟨bag, hbag⟩ := hlearns₂.network.edge e edge hedge
    have hkept : keptDoor? { m₂ with lastSubRoom := some a.subroom } a.subroom =
        m₂.lastDestination?.bind fun e => (m₂.network.edge? e).map (·.door) := if_pos rfl
    rw [hkept, hlast, Option.bind_some, hbag]
    rfl

/-- What a router has been made with. -/
structure Founded (r : Router α) (b : Building α) (params : RouterParams α) : Prop where
  building_eq : r.building = b
  params_eq : r.params = params
  suite_eq : r.suite = .ofParams params.sensors
  network_eq : Network.ofBuilding b = .ok r.network

lemma Founded.configured (hr : r.Founded b params) : r.suite = .ofParams r.params.sensors :=
  hr.params_eq ▸ hr.suite_eq

def newMap (params : RouterParams α) (g : Network α) (id : AgentId) : CognitiveMap α :=
  (CognitiveMap.new id params.mapMode g).withDepth params.sensors.recencyDepth

/-- A request stores what has become of the person's map, and may refuse the person. -/
lemma findExit_fst (ha : r.isUnroutable a.id = false) (time : α) :
    ∃ refused, (r.findExit a time).1 =
      { r.withMap a.id ((r.route a time).run (r.mapOf a.id)).2 with unroutable := refused } := by
  obtain ⟨m', ⟨door, a', hroute, hexit⟩ | ⟨id, hroute, hexit⟩ | ⟨e, -, hroute, hexit⟩⟩ :=
    findExit_cases ha time
  all_goals
    rw [hroute, hexit]
    exact ⟨_, rfl⟩

lemma periodicFor_fst (r : Router α) (a : Pedestrian α) (time : α) :
    (r.periodicFor a time).1 = r ∨ ∃ m, r.maps.find? a.id = some m ∧
      (r.periodicFor a time).1 = r.withMap a.id ((r.sense .periodic a time).run m).2 := by
  unfold periodicFor
  split
  · exact .inl rfl
  · split
    · exact .inl rfl
    · rename_i m hm
      exact .inr ⟨m, hm, rfl⟩

/-- What new maps have, and what requests and periodic updates keep. -/
structure Preserved (b : Building α) (params : RouterParams α)
    (P : AgentId → CognitiveMap α → Prop) : Prop where
  new : ∀ id g, Network.ofBuilding b = .ok g → P id (newMap params g id)
  route : ∀ (r : Router α) a time m, r.Founded b params → P a.id m →
    P a.id ((r.route a time).run m).2
  sense : ∀ (r : Router α) a time m, r.Founded b params → P a.id m →
    P a.id ((r.sense .periodic a time).run m).2

/-- New maps have `P`. Of a map that has it a request makes one that has `Q`, which is more, and
periodic updates keep it so. -/
structure Settles (b : Building α) (params : RouterParams α)
    (P Q : AgentId → CognitiveMap α → Prop) : Prop where
  new : ∀ id g, Network.ofBuilding b = .ok g → P id (newMap params g id)
  weaken : ∀ id m, Q id m → P id m
  route : ∀ (r : Router α) a time m, r.Founded b params → P a.id m →
    Q a.id ((r.route a time).run m).2
  sense : ∀ (r : Router α) a time m, r.Founded b params → Q a.id m →
    Q a.id ((r.sense .periodic a time).run m).2

/-- The router has what it was made with, and all maps that it stores have the property. -/
structure Stores (r : Router α) (b : Building α) (params : RouterParams α)
    (P : AgentId → CognitiveMap α → Prop) : Prop where
  founded : r.Founded b params
  maps : ∀ id m, r.maps.find? id = some m → P id m

variable {P Q : AgentId → CognitiveMap α → Prop}

lemma Preserved.settles (hP : Preserved b params P) : Settles b params P P :=
  ⟨hP.new, fun _ _ h => h, hP.route, hP.sense⟩

lemma Stores.withMap (h : r.Stores b params P) {id : AgentId} (hm : P id m) :
    (r.withMap id m).Stores b params P := by
  refine ⟨{ h.founded with }, fun id' m' hm' => ?_⟩
  simp only [Router.withMap, OrderedMap.find?_insert] at hm'
  split at hm'
  · rw [← Option.some.inj hm', ‹id' = id›]
    exact hm
  · exact h.maps id' m' hm'

lemma Stores.mapOf_of_settles (h : r.Stores b params Q) (hQ : Settles b params P Q)
    (id : AgentId) : P id (r.mapOf id) := by
  unfold Router.mapOf
  cases hold : r.maps.find? id with
  | some m => exact hQ.weaken id m (h.maps id m hold)
  | none =>
    rw [h.founded.params_eq]
    exact hQ.new id r.network h.founded.network_eq

lemma Stores.mapOf (h : r.Stores b params P) (hP : Preserved b params P) (id : AgentId) :
    P id (r.mapOf id) :=
  h.mapOf_of_settles hP.settles id

theorem Stores.findExit (h : r.Stores b params Q) (hQ : Settles b params P Q)
    (a : Pedestrian α) (time : α) : (r.findExit a time).1.Stores b params Q := by
  cases ha : r.isUnroutable a.id with
  | true =>
    rw [findExit_of_isUnroutable ha]
    exact h
  | false =>
    obtain ⟨refused, hexit⟩ := findExit_fst ha time
    have hmap := h.withMap (hQ.route r a time _ h.founded (h.mapOf_of_settles hQ a.id))
    rw [hexit]
    exact ⟨{ hmap.founded with }, hmap.maps⟩

theorem Stores.periodic (h : r.Stores b params Q) (hQ : Settles b params P Q)
    (agents : List (Pedestrian α)) (time : α) : (r.periodic agents time).1.Stores b params Q := by
  refine periodic_induction (P := fun r => r.Stores b params Q) ?_ agents
    ⟨{ h.founded with }, h.maps⟩
  intro r a hr
  rcases periodicFor_fst r a time with hsame | ⟨m, hm, hupdate⟩
  · rw [hsame]
    exact hr
  · rw [hupdate]
    exact hr.withMap (hQ.sense r a time m hr.founded (hr.maps a.id m hm))

theorem Stores.step (h : r.Stores b params Q) (hQ : Settles b params P Q) (hstep : Step r r') :
    r'.Stores b params Q := by
  cases hstep with
  | withHazard hazard => exact ⟨{ h.founded with }, h.maps⟩
  | findExit a time => exact h.findExit hQ a time
  | periodic agents time => exact h.periodic hQ agents time
  | removeAgent id =>
    refine ⟨{ h.founded with }, fun id' m hm => ?_⟩
    by_cases hid : id' = id
    · subst hid
      simp [removeAgent] at hm
    · simp only [removeAgent, OrderedMap.find?_erase_of_ne _ hid] at hm
      exact h.maps id' m hm

/-- In every state of a router its maps are as requests and periodic updates have made them. -/
theorem Reachable.stores_of_settles (hr : Reachable b params r) (hQ : Settles b params P Q) :
    r.Stores b params Q := by
  obtain ⟨r₀, hnew, hsteps⟩ := hr
  induction hsteps with
  | refl =>
    obtain ⟨g, hg, rfl⟩ := new_eq_ok_iff.1 hnew
    exact ⟨⟨rfl, rfl, rfl, hg⟩, nofun⟩
  | tail _ hstep ih => exact ih.step hQ hstep

/-- In every state of a router its maps have what new ones have and everything keeps. -/
theorem Reachable.stores (hr : Reachable b params r) (hP : Preserved b params P) :
    r.Stores b params P :=
  hr.stores_of_settles hP.settles

lemma Step.of_findExit {a' : Pedestrian α} {result : Except (RouterError α) DoorId}
    (h : r.findExit a time = (r', a', result)) : Step r r' := by
  have hr : (r.findExit a time).1 = r' := by rw [h]
  exact hr ▸ .findExit r a time

omit [Scalar α] in
lemma isSome_find?_withMap (h : (r.maps.find? id).isSome = true) (id' : AgentId)
    (m : CognitiveMap α) : ((r.withMap id' m).maps.find? id).isSome = true := by
  rw [Router.withMap, OrderedMap.find?_insert]
  split
  · rfl
  · exact h

lemma isSome_find?_findExit (h : (r.maps.find? id).isSome = true) (a : Pedestrian α) (time : α) :
    ((r.findExit a time).1.maps.find? id).isSome = true := by
  cases ha : r.isUnroutable a.id with
  | true =>
    rw [findExit_of_isUnroutable ha]
    exact h
  | false =>
    obtain ⟨refused, hexit⟩ := findExit_fst ha time
    rw [hexit]
    exact isSome_find?_withMap h a.id _

lemma isSome_find?_periodic (h : (r.maps.find? id).isSome = true) (agents : List (Pedestrian α))
    (time : α) : ((r.periodic agents time).1.maps.find? id).isSome = true := by
  refine periodic_induction (P := fun r => (r.maps.find? id).isSome = true) ?_ agents h
  intro r a hr
  rcases periodicFor_fst r a time with hsame | ⟨m, -, hupdate⟩
  · rw [hsame]
    exact hr
  · rw [hupdate]
    exact isSome_find?_withMap hr a.id _

/-- Whose map it is, how much was known at first, and that the latest destinations are in order, is
so of new maps and kept by everything. -/
lemma preserved_orderly (b : Building α) (params : RouterParams α) :
    Preserved b params fun id m => m.agent = id ∧ m.mode = params.mapMode ∧
      m.Orderly (max params.sensors.recencyDepth 1) := by
  refine ⟨?_, ?_, ?_⟩
  · intro id g hg
    exact ⟨rfl, rfl, CognitiveMap.orderly_new id params.mapMode
      (Network.grown_ofBuilding hg).wellFormed params.sensors.recencyDepth⟩
  · intro r a time m hr hm
    obtain ⟨hagent, hmode, horderly⟩ := hm
    have hresponds : r.Responds a time m _ _ :=
      ends_route_responds hr.configured horderly.wellFormed a time
    obtain ⟨horderly', hagent', hmode'⟩ :=
      hresponds.orderly horderly (lt_max_of_lt_right one_pos)
    exact ⟨hagent'.trans hagent, hmode'.trans hmode, horderly'⟩
  · intro r a time m hr hm
    obtain ⟨hagent, hmode, horderly⟩ := hm
    have hsenses : r.Senses a time m _ := (ends_sense_senses r .periodic a time m).1
    obtain ⟨hwf, hlearns⟩ := SensorSuite.Senses.learns hsenses horderly.wellFormed
    refine ⟨?_, ?_, horderly.learn hlearns hwf⟩
    · rw [← hlearns.kept]
      exact hagent
    · rw [← hlearns.kept]
      exact hmode

/-- A person who is answered is not refused, and the map that the answer has left is stored. -/
theorem Reachable.exists_responds {door : DoorId} {a' : Pedestrian α}
    (hr : Reachable b params r) (h : r.findExit a time = (r', a', .ok door)) :
    r'.isUnroutable a.id = false ∧ ∃ m, r'.maps.find? a.id = some m ∧
      r.Responds a time (r.mapOf a.id) (.ok (door, a')) m := by
  have hP := preserved_orderly b params
  have hstores := hr.stores hP
  obtain ⟨-, -, hm⟩ := hstores.mapOf hP a.id
  cases ha : r.isUnroutable a.id with
  | true =>
    rw [findExit_of_isUnroutable ha] at h
    cases h
  | false =>
    have hresponds : r.Responds a time (r.mapOf a.id) _ _ :=
      ends_route_responds hstores.founded.configured hm.wellFormed a time
    obtain ⟨m', ⟨door', a'', hroute, hexit⟩ | ⟨id, -, hexit⟩ | ⟨e, -, -, hexit⟩⟩ :=
      findExit_cases ha time
    all_goals
      rw [hexit] at h
      cases h
    rw [hroute] at hresponds
    exact ⟨ha, m', OrderedMap.find?_insert_self _ _ _, hresponds⟩

/-- Whoever is answered keeps the door. -/
theorem Reachable.exists_keptDoor? {door : DoorId} {a' : Pedestrian α}
    (hr : Reachable b params r) (h : r.findExit a time = (r', a', .ok door)) :
    ∃ m, r'.maps.find? a.id = some m ∧ keptDoor? m a.subroom = some door := by
  have hP := preserved_orderly b params
  obtain ⟨-, -, hm⟩ := (hr.stores hP).mapOf hP a.id
  obtain ⟨-, m', hm', hresponds⟩ := hr.exists_responds h
  exact ⟨m', hm', hresponds.keptDoor?_eq hm (lt_max_of_lt_right one_pos)⟩

/-- In every state of a router, whatever has failed on the way, each map is stored under the person
whose it is and has the router's mode, with the latest destinations in order: no more than are to
be remembered, all of them edges of the map, and one of them exactly if a subroom is remembered,
which the last one leaves. The network is that of the building and without factors, and no map
disappears unless it is forgotten. -/
theorem reachable_orderly (hr : Reachable b params r) :
    Network.ofBuilding b = .ok r.network ∧
    (∀ e edge, r.network.edge? e = some edge → edge.factors = .empty) ∧
    (∀ id m, r.maps.find? id = some m → m.agent = id ∧ m.mode = params.mapMode ∧
      m.Orderly (max params.sensors.recencyDepth 1)) ∧
    ∀ id, (r.maps.find? id).isSome = true →
      (∀ hazard, ((r.withHazard hazard).maps.find? id).isSome = true) ∧
      (∀ a time, ((r.findExit a time).1.maps.find? id).isSome = true) ∧
      (∀ agents time, ((r.periodic agents time).1.maps.find? id).isSome = true) ∧
      ∀ id', id' ≠ id → ((r.removeAgent id').1.maps.find? id).isSome = true := by
  obtain ⟨hfounded, hmaps⟩ := hr.stores (preserved_orderly b params)
  refine ⟨hfounded.network_eq, fun _ _ => Network.factors_ofBuilding hfounded.network_eq, hmaps,
    fun id hid => ⟨fun _ => hid, isSome_find?_findExit hid, isSome_find?_periodic hid, ?_⟩⟩
  intro id' hne
  rw [removeAgent, OrderedMap.find?_erase_of_ne _ hne.symm]
  exact hid

section
open Exact

/-- A person who stands in the pavilion. -/
noncomputable def visitor : Pedestrian Exact := .standing 7 0 5 ⟨real 1, real 1⟩

/-- The visitor is sent to the door of the pavilion, whether known at first or not. -/
lemma exists_sent (mode : MapMode) : ∃ r₀ r : Router Exact, ∃ a',
    Router.new pavilion ⟨mode, .standard⟩ = .ok r₀ ∧ Reachable pavilion ⟨mode, .standard⟩ r ∧
    r₀.findExit visitor (real 0) = (r, a', .ok 3) := by
  have hnew : Router.new pavilion ⟨mode, .standard⟩ = .ok _ := rfl
  have hreach : Reachable pavilion ⟨mode, .standard⟩ _ := ⟨_, hnew, .refl⟩
  have hwf := made_pavilion.wellFormed
  rcases (hreach.serves hwf).findExit_spec hwf (a := visitor) rfl (real 0) with
    ⟨r, a', door, hexit, hopens⟩ | ⟨r, e, -, hrefuses⟩
  · obtain rfl := eq_of_opensFrom_pavilion hopens
    exact ⟨_, r, a', hnew, ⟨_, hnew, .single (.of_findExit hexit)⟩, hexit⟩
  · exact absurd ⟨_, rfl, rfl, rfl⟩ ((hrefuses ⟨nofun, _, rfl⟩).2 (.inr rfl) 3)

lemma exists_sent_pavilion : ∃ r₀ r : Router Exact, ∃ a',
    Router.new pavilion .standard = .ok r₀ ∧ Reachable pavilion .standard r ∧
    r₀.findExit visitor (real 0) = (r, a', .ok 3) :=
  exists_sent .complete

/-- The visitor's map remembers the door, and so does it after the router has forgotten somebody
else. -/
theorem reachable_orderly_pavilion : ∃ (r : Router Exact) (m : CognitiveMap Exact),
    Reachable pavilion .standard r ∧ r.maps.find? 7 = some m ∧ keptDoor? m 5 = some 3 ∧
    m.agent = 7 ∧ m.Orderly 3 ∧ ((r.removeAgent 8).1.maps.find? 7).isSome = true := by
  obtain ⟨r₀, r, a', hnew, hreach, hexit⟩ := exists_sent_pavilion
  obtain ⟨m, hm, hkept⟩ := Reachable.exists_keptDoor? ⟨r₀, hnew, .refl⟩ hexit
  obtain ⟨-, -, hmaps, hstay⟩ := reachable_orderly hreach
  obtain ⟨hagent, -, horderly⟩ := hmaps 7 m hm
  have hsome : (r.maps.find? 7).isSome = true := by
    rw [show r.maps.find? 7 = some m from hm]
    rfl
  exact ⟨r, m, hreach, hm, hkept, hagent, horderly, (hstay 7 hsome).2.2.2 8 (by decide)⟩

end

end Router

end Egress
