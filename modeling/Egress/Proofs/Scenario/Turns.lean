import Egress.Proofs.Router.Chosen
import Egress.Proofs.Scenario.Walking
import Egress.Scenario.Evacuation

/-!
# Turns

In the course of an interval everybody who has not been reported on is among the people, those who
have left since the last report included. A turn changes the person who takes it and what is
stored about that person. Nobody who stands on the floor of the building is answered with an error
that would end the run.
-/
namespace Egress

variable {α : Type} [Scalar α] {b : Building α} {params : RouterParams α}

namespace Router

variable {r r' : Router α} {a : Pedestrian α} {time : α}

/-- The router is one of the building, and hazards are at worst unknown. -/
structure Attends (r : Router α) (b : Building α) (params : RouterParams α) : Prop where
  reachable : Reachable b params r
  hazard : ∀ f, r.hazard = some f → f.OnlyMisses

lemma attends_new (hnew : Router.new b params = .ok r) : r.Attends b params := by
  refine ⟨⟨r, hnew, .refl⟩, fun f hf => ?_⟩
  obtain ⟨g, -, rfl⟩ := new_eq_ok_iff.1 hnew
  cases hf

lemma Attends.withHazard (h : r.Attends b params) (store : HazardStore α) :
    (r.withHazard store.field).Attends b params := by
  obtain ⟨r₀, hnew, hsteps⟩ := h.reachable
  refine ⟨⟨r₀, hnew, hsteps.tail (.withHazard r store.field)⟩, fun f hf => ?_⟩
  rw [← Option.some.inj hf]
  exact store.field_onlyMisses

lemma Attends.step (h : r.Attends b params) (hstep : Step r r') (hhazard : r'.hazard = r.hazard) :
    r'.Attends b params := by
  obtain ⟨r₀, hnew, hsteps⟩ := h.reachable
  exact ⟨⟨r₀, hnew, hsteps.tail hstep⟩, fun f hf => h.hazard f (hhazard ▸ hf)⟩

lemma Attends.findExit (h : r.Attends b params) (a : Pedestrian α) (time : α) :
    (r.findExit a time).1.Attends b params := by
  refine h.step (.findExit r a time) ?_
  obtain ⟨maps, refused, hrest⟩ := findExit_rest r a time
  rw [hrest]

lemma Attends.periodic (h : r.Attends b params) (agents : List (Pedestrian α)) (time : α) :
    (r.periodic agents time).1.Attends b params := by
  refine h.step (.periodic r agents time) ?_
  obtain ⟨maps, hrest⟩ := periodic_rest r agents time
  rw [hrest]

lemma Attends.removeAgent (h : r.Attends b params) (id : AgentId) :
    (r.removeAgent id).1.Attends b params :=
  h.step (.removeAgent r id) rfl

/-- Nobody without a map gets one from an update. -/
lemma find?_periodic_eq_none {id : AgentId} (h : r.maps.find? id = none)
    (agents : List (Pedestrian α)) (time : α) :
    (r.periodic agents time).1.maps.find? id = none := by
  refine periodic_induction (P := fun q => q.maps.find? id = none) ?_ agents h
  intro q p hq
  rcases periodicFor_fst q p time with hsame | ⟨m, hm, hupdate⟩
  · rw [hsame]
    exact hq
  · have hne : id ≠ p.id := by
      rintro rfl
      cases hq.symm.trans hm
    rw [hupdate, withMap, OrderedMap.find?_insert_of_ne _ hne]
    exact hq

/-- The person heads for the door chosen last. -/
def Heads (r : Router α) (a : Pedestrian α) : Prop :=
  a.destination = (r.mapOf a.id).historyDoors.getLast?

omit [Scalar α] in
lemma Heads.of_agreesOn (h : r.Heads a) (hr : r.AgreesOn r' a.id) : r'.Heads a := by
  rw [Heads, hr.mapOf_eq]
  exact h

lemma Heads.periodic (h : r.Heads a) (hr : Reachable b params r) (agents : List (Pedestrian α))
    (time : α) : (r.periodic agents time).1.Heads a := by
  rw [Heads, historyDoors_periodic hr]
  exact h

lemma getLast?_latest {depth : ℕ} (hdepth : 0 < depth) (doors : List DoorId) (door : DoorId) :
    (CognitiveMap.latest depth (doors ++ [door])).getLast? = some door := by
  have hstart : (doors ++ [door]).length - depth ≤ doors.length := by
    rw [List.length_append, List.length_singleton]
    omega
  rw [CognitiveMap.latest, List.drop_append_of_le_length hstart, List.getLast?_concat]

/-- A request changes where the person heads, and nothing else about the person, who heads for the
door chosen last as before. -/
theorem Heads.findExit (h : r.Heads a) (hr : Reachable b params r) (time : α) :
    ∃ r' destination exitLine result,
      r.findExit a time = (r', { a with destination, exitLine }, result) ∧
      r'.Heads { a with destination, exitLine } := by
  cases ha : r.isUnroutable a.id with
  | true => exact ⟨r, a.destination, a.exitLine, _, findExit_of_isUnroutable ha time, h⟩
  | false =>
    have hP := preserved_orderly b params
    have hstores := hr.stores hP
    obtain ⟨-, -, horderly⟩ := hstores.mapOf hP a.id
    have hresponds : r.Responds a time (r.mapOf a.id) _ _ :=
      ends_route_responds hstores.founded.configured horderly.wellFormed a time
    have hmap (m : CognitiveMap α) : (r.withMap a.id m).mapOf a.id = m := by
      rw [mapOf_withMap, if_pos rfl]
    have hrefused (m : CognitiveMap α) (refused : OrderedMap AgentId Unit) :
        mapOf { r.withMap a.id m with unroutable := refused } a.id = m := hmap m
    obtain ⟨m', ⟨door, a', hroute, hexit⟩ | ⟨id, hroute, hexit⟩ | ⟨e, -, hroute, hexit⟩⟩ :=
      findExit_cases ha time
    · rw [hroute] at hresponds
      rcases hresponds.historyDoors_cases horderly with
        ⟨door', hresult, -, rfl⟩ | ⟨e, hresult, -⟩ | ⟨door', line, hresult, hdoors⟩
      · cases hresult
        refine ⟨_, a.destination, a.exitLine, _, hexit, ?_⟩
        rw [Heads, hmap]
        exact h
      · cases hresult
      · cases hresult
        refine ⟨_, some door, some line, _, hexit, ?_⟩
        rw [Heads, hmap, hdoors, getLast?_latest (lt_max_of_lt_right one_pos)]
    all_goals
      rw [hroute] at hresponds
      rcases hresponds.historyDoors_cases horderly with
        ⟨door', hresult, -⟩ | ⟨e', -, hdoors⟩ | ⟨door', line, hresult, -⟩
      · cases hresult
      · refine ⟨_, a.destination, a.exitLine, _, hexit, ?_⟩
        rw [Heads]
        simp only [hmap, hrefused, hdoors]
        exact h
      · cases hresult

/-- Whoever stands on the floor of the building is refused at worst. -/
lemma Attends.eq_unroutable (h : r.Attends b params) (hb : b.WellFormed) (ha : a.Located b)
    {a' : Pedestrian α} {e : RouterError α} (hexit : r.findExit a time = (r', a', .error e)) :
    e = .unroutable a.id := by
  cases hrefused : r.isUnroutable a.id with
  | true =>
    rw [findExit_of_isUnroutable hrefused] at hexit
    cases hexit
    rfl
  | false =>
    have hserves := h.reachable.serves hb
    have hperceive : r.CanPerceive a :=
      ⟨h.hazard, hserves.building_eq ▸ ha.exists_subroom hb⟩
    rcases hserves.findExit_spec hb hrefused time with
      ⟨r'', a'', door, hanswer, -⟩ | ⟨r'', e', hanswer, hrefuses⟩
    · rw [hanswer] at hexit
      cases hexit
    · rw [hanswer] at hexit
      cases hexit
      exact (hrefuses hperceive).1

end Router

namespace Evacuation

variable {e : Evacuation α} {a : Pedestrian α} {time : α} {steering : Steering α}

/-- A turn of a person on the floor changes that person and what is stored about the person. The
person stays on the floor, or leaves by the exit chosen last. -/
theorem moveAgent_spec (hb : b.WellFormed) (h : e.router.Attends b params) (ha : a.Located b)
    (hheads : e.router.Heads a) (steering : Steering α) (time : α) :
    ∃ router left a', moveAgent steering time e a = .ok ({ e with router, left }, a') ∧
      router.Attends b params ∧ (∀ id, id ≠ a.id → e.router.AgreesOn router id) ∧
      a'.id = a.id ∧ router.Heads a' ∧
      (left = e.left ∧ a'.Located b ∨
        left = e.left.insert a.id time ∧ router.isUnroutable a.id = false ∧
          (∃ m, router.maps.find? a.id = some m) ∧
          ∃ door, a'.destination = some door ∧ b.IsExit door) := by
  obtain ⟨router, destination, exitLine, result, hexit, hheads'⟩ :=
    hheads.findExit h.reachable time
  have hattends := h.findExit a time
  have hothers (id : AgentId) (hid : id ≠ a.id) := Router.agreesOn_findExit e.router a time hid
  rw [hexit] at hattends hothers
  have hbuilding : router.building = b := (hattends.reachable.serves hb).building_eq
  have hlocated : ({ a with destination, exitLine } : Pedestrian α).Located b := ha
  unfold moveAgent takeTurn
  rw [hexit]
  cases result with
  | error error =>
    obtain rfl := h.eq_unroutable hb ha hexit
    exact ⟨router, e.left, _, rfl, hattends, hothers, rfl, hheads', .inl ⟨rfl, hlocated⟩⟩
  | ok door =>
    simp only [hbuilding]
    cases htarget : steering.target b { a with destination, exitLine } with
    | error error =>
      exact ⟨router, e.left, _, rfl, hattends, hothers, rfl, hheads', .inl ⟨rfl, hlocated⟩⟩
    | ok p =>
      obtain ⟨hid, hdestination, hstep⟩ :=
        Pedestrian.step_cases b { a with destination, exitLine } p (interval : α)
      have hheads'' : router.Heads (Pedestrian.step b { a with destination, exitLine } p
          (interval : α)).1 := by
        rw [Router.Heads, hid, hdestination]
        exact hheads'
      rcases hstep with ⟨hstays, hfloor⟩ | ⟨hleaves, hdoor⟩
      · exact ⟨router, e.left, _, by simp only [if_neg hstays], hattends, hothers, hid, hheads'',
          .inl ⟨rfl, hfloor hlocated⟩⟩
      · obtain ⟨hroutable, m, hm, -⟩ := h.reachable.exists_responds hexit
        exact ⟨router, e.left.insert a.id time, _, by simp only [if_pos hleaves, hid], hattends,
          hothers, hid, hheads'', .inr ⟨rfl, hroutable, ⟨m, hm⟩, hdestination ▸ hdoor⟩⟩

end Evacuation

end Egress
