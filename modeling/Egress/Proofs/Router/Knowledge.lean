import Egress.Proofs.Network.Discovery
import Egress.Proofs.Router.Independence

/-!
# What people know

Whatever has happened to a router, the maps of people show nothing that is not in the building.
Those who knew the whole building at first know it with the numbers that the router has for it. The
others know the subrooms in which they have asked for a door, as far as they know any door there at
all, and nothing else.
-/
namespace Egress.Router

variable {α : Type} [Scalar α] {b : Building α} {params : RouterParams α} {r r' r₀ : Router α}
  {a : Pedestrian α} {m m' : CognitiveMap α} {time : α} {id : AgentId} {ss : List SubRoomId}

/-- Something that happens to a router. -/
inductive Operation (α : Type) where
  | withHazard (hazard : HazardField α)
  | findExit (a : Pedestrian α) (time : α)
  | periodic (agents : List (Pedestrian α)) (time : α)
  | removeAgent (id : AgentId)

/-- The router after something has happened to it. -/
def perform (r : Router α) : Operation α → Router α
  | .withHazard hazard => r.withHazard hazard
  | .findExit a time => (r.findExit a time).1
  | .periodic agents time => (r.periodic agents time).1
  | .removeAgent id => (r.removeAgent id).1

/-- The router after several things have happened one after another. -/
def after (r : Router α) (ops : List (Operation α)) : Router α := ops.foldl perform r

/-- The subrooms in which a person has asked for a door, given those before the operation.
Forgetting the person's map starts again. -/
def Operation.asked (id : AgentId) (ss : List SubRoomId) : Operation α → List SubRoomId
  | .findExit a _ => if a.id = id then a.subroom :: ss else ss
  | .removeAgent other => if other = id then [] else ss
  | _ => ss

/-- The subrooms in which a person has asked for a door since the person's map was last
forgotten. -/
def askedIn (id : AgentId) (ops : List (Operation α)) : List SubRoomId :=
  ops.foldl (Operation.asked id) []

lemma step_perform (r : Router α) (op : Operation α) : Step r (r.perform op) := by
  cases op with
  | withHazard hazard => exact .withHazard r hazard
  | findExit a time => exact .findExit r a time
  | periodic agents time => exact .periodic r agents time
  | removeAgent id => exact .removeAgent r id

lemma Reachable.later (hr : Reachable b params r) (ops : List (Operation α)) :
    Reachable b params (r.after ops) := by
  refine List.foldlRecOn (motive := Reachable b params) ops _ hr ?_
  intro r hr op _
  obtain ⟨r₁, hnew₁, hsteps⟩ := hr
  exact ⟨r₁, hnew₁, hsteps.tail (step_perform r op)⟩

lemma reachable_after (hnew : Router.new b params = .ok r₀) (ops : List (Operation α)) :
    Reachable b params (r₀.after ops) :=
  Reachable.later ⟨r₀, hnew, .refl⟩ ops

theorem Reachable.exists_after (hr : Reachable b params r) (hnew : Router.new b params = .ok r₀) :
    ∃ ops, r = r₀.after ops := by
  obtain ⟨r₁, hnew₁, hsteps⟩ := hr
  obtain rfl : r₁ = r₀ := Except.ok.inj (hnew₁.symm.trans hnew)
  induction hsteps with
  | refl => exact ⟨[], rfl⟩
  | tail _ hstep ih =>
    obtain ⟨ops, rfl⟩ := ih
    have happend (op : Operation α) : (r₁.after ops).perform op = r₁.after (ops ++ [op]) := by
      rw [after, after, List.foldl_concat]
    cases hstep with
    | withHazard hazard => exact ⟨_, happend (.withHazard hazard)⟩
    | findExit a time => exact ⟨_, happend (.findExit a time)⟩
    | periodic agents time => exact ⟨_, happend (.periodic agents time)⟩
    | removeAgent id => exact ⟨_, happend (.removeAgent id)⟩

/-- What sensing keeps of networks, requests keep. -/
lemma Responds.holds {result : Except (RouterError α) (DoorId × Pedestrian α)}
    {P : Network α → Prop} (h : r.Responds a time m result m')
    (hP : ∀ s m, P m.network →
      P (Sensor.run s a m (r.surroundings time)).1.network) (hm : P m.network) :
    P m'.network := by
  have hsenses {m₁ m₂ : CognitiveMap α} (h : r.Senses a time m₁ m₂) (hm₁ : P m₁.network) :
      P m₂.network :=
    SensorSuite.Senses.holds (P := fun m => P m.network) h (fun s _ m _ => hP s m) hm₁
  cases h with
  | kept _ => exact hm
  | failed hfirst => exact hsenses hfirst hm
  | @chosen e edge m₁ m₂ hfirst _ _ hsecond =>
    have hchosen : P m₁.network := hsenses hfirst hm
    have hlast : P m₂.network := hsenses hsecond hchosen
    exact hlast

lemma Founded.step (hr : r.Founded b params) (hstep : Step r r') : r'.Founded b params := by
  have hany : Preserved b params fun _ _ => True :=
    ⟨fun _ _ _ => trivial, fun _ _ _ _ _ _ => trivial, fun _ _ _ _ _ _ => trivial⟩
  exact (Stores.step ⟨hr, fun _ _ _ => trivial⟩ hany.settles hstep).founded

/-- Sensing changes nothing of a complete network but factors. -/
lemma reweighs_run_of_complete {g : Network α} {env : Surroundings α} (hb : b.WellFormed)
    (henv : env.building = b) (hg : g.Complete b) (s : Sensor α) (hm : g.Reweighs m.network) :
    g.Reweighs (s.run a m env).1.network := by
  by_cases hs : s = .discovery
  · subst hs henv
    show g.Reweighs (m.network.addSubRoomDoors env.building a.subroom).1
    rw [(hg.reweigh hm).addSubRoomDoors_eq hb]
    exact hm
  · exact hm.trans (Sensor.reweighs_run hs).network

lemma reweighs_sense (hb : b.WellFormed) (hr : r.Founded b params)
    (hm : r.network.Reweighs m.network) (events : Events) (a : Pedestrian α) (time : α) :
    r.network.Reweighs ((r.sense events a time).run m).2.network := by
  have hsenses : r.Senses a time m _ := (ends_sense_senses r events a time m).1
  exact SensorSuite.Senses.holds (P := fun m => r.network.Reweighs m.network) hsenses
    (fun s _ _ _ => reweighs_run_of_complete hb hr.building_eq
      (Network.complete_ofBuilding hb hr.network_eq) s) hm

lemma preserved_complete (hb : b.WellFormed) (hmode : params.mapMode = .complete) :
    Preserved b params fun _ m => ∀ g, Network.ofBuilding b = .ok g → g.Reweighs m.network := by
  refine ⟨?_, ?_, ?_⟩
  · intro id g hg g' hg'
    obtain rfl : g = g' := Except.ok.inj (hg.symm.trans hg')
    simp only [newMap, CognitiveMap.withDepth, CognitiveMap.new, hmode]
    exact .refl g
  · intro r a time m hr hm g hg
    obtain rfl : r.network = g := Except.ok.inj (hr.network_eq.symm.trans hg)
    have hwf := (Network.grown_ofBuilding hg).wellFormed.reweigh (hm r.network hg)
    have hresponds : r.Responds a time m _ _ := ends_route_responds hr.configured hwf a time
    exact hresponds.holds (P := fun g => r.network.Reweighs g)
      (fun s _ => reweighs_run_of_complete hb hr.building_eq (Network.complete_ofBuilding hb hg) s)
      (hm r.network hg)
  · intro r a time m hr hm g hg
    obtain rfl : r.network = g := Except.ok.inj (hr.network_eq.symm.trans hg)
    exact reweighs_sense hb hr (hm r.network hg) .periodic a time

/-- Sensing adds the doors of the person's subroom or nothing. -/
lemma explored_run {env : Surroundings α} (hb : b.WellFormed) (henv : env.building = b)
    (s : Sensor α) (hm : m.network.Explored b (a.subroom :: ss)) :
    (s.run a m env).1.network.Explored b (a.subroom :: ss) := by
  by_cases hs : s = .discovery
  · subst hs henv
    refine (hm.addSubRoomDoors hb a.subroom).mono ?_
    exact List.cons_subset.2 ⟨List.mem_cons_self, List.Subset.refl _⟩
  · exact hm.reweigh (Sensor.reweighs_run hs).network

/-- The maps show what lies around where people have asked, and nothing else. -/
structure Explored (r : Router α) (b : Building α) (params : RouterParams α)
    (asked : AgentId → List SubRoomId) : Prop where
  founded : r.Founded b params
  maps : ∀ id m, r.maps.find? id = some m → m.network.Explored b (asked id)

variable {asked : AgentId → List SubRoomId}

lemma Explored.mapOf (h : r.Explored b params asked) (hmode : params.mapMode = .progressive)
    (id : AgentId) : (r.mapOf id).network.Explored b (asked id) := by
  unfold Router.mapOf
  cases hm : r.maps.find? id with
  | some m => exact h.maps id m hm
  | none =>
    rw [Option.getD_none, h.founded.params_eq]
    simp only [CognitiveMap.withDepth, CognitiveMap.new, hmode]
    exact Network.explored_empty b (asked id)

/-- A request adds the doors of the subroom where the person asks, or nothing. -/
lemma Explored.findExit (h : r.Explored b params asked) (hb : b.WellFormed)
    (hmode : params.mapMode = .progressive)
    (hm : (r.findExit a time).1.maps.find? a.id = some m) :
    m.network.Explored b (a.subroom :: asked a.id) := by
  have hsub := List.subset_cons_self a.subroom (asked a.id)
  cases ha : r.isUnroutable a.id with
  | true =>
    rw [findExit_of_isUnroutable ha] at hm
    exact (h.maps a.id m hm).mono hsub
  | false =>
    obtain ⟨refused, hexit⟩ := findExit_fst ha time
    rw [hexit] at hm
    obtain rfl := Option.some.inj ((OrderedMap.find?_insert_self _ _ _).symm.trans hm)
    have hold := (h.mapOf hmode a.id).mono hsub
    have hresponds : r.Responds a time (r.mapOf a.id) _ _ :=
      ends_route_responds h.founded.configured hold.wellFormed a time
    exact hresponds.holds (P := fun g => g.Explored b (a.subroom :: asked a.id))
      (fun s _ => explored_run hb h.founded.building_eq s) hold

lemma Explored.periodic (h : r.Explored b params asked) (agents : List (Pedestrian α))
    (time : α) : (r.periodic agents time).1.Explored b params asked := by
  refine periodic_induction (P := fun r => r.Explored b params asked) ?_ agents
    ⟨{ h.founded with }, h.maps⟩
  intro r a hr
  rcases periodicFor_fst r a time with hsame | ⟨m, hm, hupdate⟩
  · rw [hsame]
    exact hr
  · rw [hupdate]
    refine ⟨{ hr.founded with }, fun id m' hm' => ?_⟩
    by_cases hid : id = a.id
    · subst hid
      obtain rfl := Option.some.inj ((OrderedMap.find?_insert_self _ _ _).symm.trans hm')
      rw [run_sense]
      refine (hr.maps a.id m hm).reweigh (SensorSuite.reweighs_fire ?_).network
      intro s registered hmem
      exact SensorSuite.ne_discovery_of_periodic (hr.founded.suite_eq ▸ hmem)
    · refine hr.maps id m' ?_
      rw [← hm']
      exact (OrderedMap.find?_insert_of_ne _ hid _).symm

/-- Whatever happens, the maps show what lies around where people have asked. -/
theorem Explored.perform (h : r.Explored b params asked) (hb : b.WellFormed)
    (hmode : params.mapMode = .progressive) (op : Operation α) :
    (r.perform op).Explored b params fun id => op.asked id (asked id) := by
  refine ⟨h.founded.step (step_perform r op), fun id m hm => ?_⟩
  cases op with
  | withHazard hazard => exact h.maps id m hm
  | findExit a time =>
    by_cases hid : a.id = id
    · subst hid
      rw [Operation.asked, if_pos rfl]
      exact h.findExit hb hmode hm
    · rw [Operation.asked, if_neg hid]
      refine h.maps id m ?_
      rw [← (agreesOn_findExit r a time (Ne.symm hid)).map]
      exact hm
  | periodic agents time => exact (h.periodic agents time).maps id m hm
  | removeAgent other =>
    by_cases hid : other = id
    · subst hid
      simp [Router.perform, removeAgent] at hm
    · rw [Operation.asked, if_neg hid]
      simp only [Router.perform, removeAgent, OrderedMap.find?_erase_of_ne _ (Ne.symm hid)] at hm
      exact h.maps id m hm

/-- Whatever has happened, those who knew nothing at first know what lies around where they have
asked. -/
theorem explored_after (hb : b.WellFormed) (hmode : params.mapMode = .progressive)
    (hnew : Router.new b params = .ok r₀) (ops : List (Operation α)) :
    (r₀.after ops).Explored b params (askedIn · ops) := by
  have hstores := Reachable.stores ⟨r₀, hnew, .refl⟩ (preserved_orderly b params)
  have hnobody : r₀.Explored b params fun _ => [] := by
    refine ⟨hstores.founded, fun id m hm => ?_⟩
    obtain ⟨g, -, rfl⟩ := new_eq_ok_iff.1 hnew
    cases hm
  -- by the last operation: the subrooms asked in are those before it and perhaps its own
  induction ops using List.reverseRecOn with
  | nil => exact hnobody
  | append_singleton ops op ih =>
    have hstep := ih.perform hb hmode op
    rw [after, List.foldl_concat]
    simp only [askedIn, List.foldl_concat]
    exact hstep

/-- In every state of a router on a building, each map shows only ways that the network of the
building has too. A map that was complete at first has exactly that network but for factors, and so
it has after any sensing. In one that was empty at first every edge leaves a subroom in which the
person has asked for a door since the map was made, and all open doors of that subroom are known. -/
theorem maps_agree (hb : b.Made) (hnew : Router.new b params = .ok r₀) :
    (∀ r, Reachable b params r → ∃ ops, r = r₀.after ops) ∧
    ∀ ops id m, (r₀.after ops).maps.find? id = some m →
      Network.ofBuilding b = .ok (r₀.after ops).network ∧
      (∀ e edge, m.network.edge? e = some edge → ∃ e' edge',
        (r₀.after ops).network.edge? e' = some edge' ∧
        m.network.SameWay (r₀.after ops).network edge edge') ∧
      (m.mode = .complete → (r₀.after ops).network.Reweighs m.network ∧
        ∀ events a time, (r₀.after ops).network.Reweighs
          (((r₀.after ops).sense events a time).run m).2.network) ∧
      (m.mode = .progressive → ∀ e edge s, m.network.edge? e = some edge →
        m.network.subroomAt? edge.source = some s → s ∈ askedIn id ops ∧ m.network.Knows b s) := by
  have hwf := hb.wellFormed
  refine ⟨fun r hr => hr.exists_after hnew, fun ops id m hm => ?_⟩
  have hreach := reachable_after hnew ops
  have hserves := hreach.serves hwf
  have hfounded := (hreach.stores (preserved_orderly b params)).founded
  obtain ⟨hsound, -, hmode⟩ := hserves.maps id m hm
  refine ⟨hfounded.network_eq, fun e edge hedge => ?_, fun hcomplete => ?_,
    fun hprogressive e edge s hedge hs => ?_⟩
  · exact hsound.faithful.exists_sameWay hsound.wellFormed hserves.faithful hserves.wellFormed
      hserves.knows hedge
  · have hreweighs := (hreach.stores (preserved_complete hwf (hmode.symm.trans hcomplete))).maps
      id m hm (r₀.after ops).network hfounded.network_eq
    exact ⟨hreweighs, fun events a time => reweighs_sense hwf hfounded hreweighs events a time⟩
  · exact ((explored_after hwf (hmode.symm.trans hprogressive) hnew ops).maps id m hm).source
      e edge s hedge hs

section
open Exact

/-- The visitor, who knew nothing of the pavilion at first, has asked in it and knows its door. -/
theorem maps_agree_pavilion : ∃ (r₀ : Router Exact) (m : CognitiveMap Exact) (e : EdgeId)
    (edge : Edge Exact), Router.new pavilion ⟨.progressive, .standard⟩ = .ok r₀ ∧
    (r₀.after [.findExit visitor (real 0)]).maps.find? 7 = some m ∧
    m.network.edge? e = some edge ∧ edge.door = 3 ∧ m.network.subroomAt? edge.source = some 5 ∧
    m.network.Knows pavilion 5 ∧
    ∃ e' edge', (r₀.after [.findExit visitor (real 0)]).network.edge? e' = some edge' ∧
      m.network.SameWay (r₀.after [.findExit visitor (real 0)]).network edge edge' := by
  obtain ⟨r₀, r, a', hnew, hreach, hexit⟩ := exists_sent .progressive
  have hafter : r₀.after [.findExit visitor (real 0)] = r := congrArg Prod.fst hexit
  obtain ⟨m, hm, hkept⟩ := Reachable.exists_keptDoor? ⟨r₀, hnew, .refl⟩ hexit
  have hm' : (r₀.after [.findExit visitor (real 0)]).maps.find? 7 = some m := by
    rw [hafter]
    exact hm
  obtain ⟨-, hmaps⟩ := maps_agree made_pavilion hnew
  obtain ⟨-, hways, -, hknown⟩ := hmaps _ 7 m hm'
  have hmode : m.mode = .progressive := ((hreach.serves made_pavilion.wellFormed).maps 7 m hm).2.2
  have hwf : m.network.WellFormed :=
    ((hreach.serves made_pavilion.wellFormed).maps 7 m hm).1.wellFormed
  obtain ⟨e, edge, -, -, hedge, hdoor⟩ := exists_edge_of_keptDoor? hkept
  obtain ⟨s, hs⟩ := hwf.exists_subroomAt?_source hedge
  obtain ⟨hasked, hknows⟩ := hknown hmode e edge s hedge hs
  obtain rfl : s = 5 := List.mem_singleton.1 hasked
  exact ⟨r₀, m, e, edge, hnew, hm', hedge, hdoor, hs, hknows, hways e edge hedge⟩

end

end Egress.Router
