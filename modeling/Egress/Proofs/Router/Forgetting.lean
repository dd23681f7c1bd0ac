import Egress.Proofs.Router.Keeping
import Egress.Proofs.Router.Service
import Egress.Proofs.Sensing.Forgetting

/-!
# Routers that never forget

A router remembers as many destinations of a person as it penalises, and at least one. One that
remembered them all would answer the same, and each door would weigh the same: by how many doors the
person has chosen since it was last chosen.
-/
namespace Egress

variable {α : Type} [Scalar α]

namespace CognitiveMap

variable {m m' : CognitiveMap α} {depth : ℕ} {e : EdgeId}

/-- Remembers a chosen destination and forgets none. -/
def keepDestination (m : CognitiveMap α) (e : EdgeId) : CognitiveMap α :=
  { m with history := m.history ++ [e] }

omit [Scalar α] in
lemma latest_latest_append {β : Type} (depth : ℕ) (xs ys : List β) :
    latest depth (latest depth xs ++ ys) = latest depth (xs ++ ys) := by
  simp only [latest, List.length_append, List.length_drop, List.drop_append, List.drop_drop]
  congr 1
  · congr 1
    omega
  · congr 1
    omega

omit [Scalar α] in
lemma getLast?_latest {β : Type} (hdepth : 0 < depth) (xs : List β) :
    (latest depth xs).getLast? = xs.getLast? := by
  rw [latest, List.getLast?_drop]
  split
  · rename_i hle
    have hnil : xs = [] := List.eq_nil_of_length_eq_zero (by omega)
    rw [hnil]
    rfl
  · rfl

lemma Forgets.lastDestination?_eq (h : m.Forgets m' depth) (hdepth : 0 < depth) :
    m.lastDestination? = m'.lastDestination? := by
  rw [lastDestination?, h.history_eq, getLast?_latest hdepth, lastDestination?]

lemma Forgets.hasDestination_eq (h : m.Forgets m' depth) (hdepth : 0 < depth) :
    m.hasDestination = m'.hasDestination := by
  have hlast := h.lastDestination?_eq hdepth
  have hsome (m : CognitiveMap α) : m.hasDestination = m.lastDestination?.isSome := by
    cases hm : m.history <;> simp [hasDestination, lastDestination?, hm]
  rw [hsome, hsome, hlast]

lemma Forgets.lastSubRoom_eq (h : m.Forgets m' depth) : m.lastSubRoom = m'.lastSubRoom := by
  have hsame := congrArg lastSubRoom h.blank_eq
  exact hsame

lemma Forgets.addDestination (h : m.Forgets m' depth)
    (he : ∃ edge, m'.network.edge? e = some edge) :
    (m.addDestination e).Forgets (m'.keepDestination e) depth := by
  refine ⟨h.blank_eq, h.depth_eq, ?_, h.wellFormed, ?_⟩
  · show latest m.depth (m.history ++ [e]) = latest depth (m'.history ++ [e])
    rw [h.depth_eq, h.history_eq, latest_latest_append]
  · intro e' he'
    rcases List.mem_append.1 he' with hold | hnew
    · exact h.exists_edge e' hold
    · rw [List.mem_singleton.1 hnew]
      exact he

lemma Forgets.withLastSubRoom (h : m.Forgets m' depth) (s : SubRoomId) :
    ({ m with lastSubRoom := some s }).Forgets { m' with lastSubRoom := some s } depth := by
  have hblank := congrArg (fun m : CognitiveMap α => { m with lastSubRoom := some s }) h.blank_eq
  exact ⟨hblank, h.depth_eq, h.history_eq, h.wellFormed, h.exists_edge⟩

lemma Forgets.cheapestDestination_eq (hone : Scalar.OneIsNeutral α) (h : m.Forgets m' depth)
    (s : SubRoomId) (p : Point α) :
    m.network.cheapestDestination s p = m'.network.cheapestDestination s p := by
  have hkeep := FactorBag.multiplier_settled hone
  rw [← Network.cheapestDestination_mapFactors hkeep, h.network_eq,
    Network.cheapestDestination_mapFactors hkeep]

lemma Forgets.localDestination_eq (hone : Scalar.OneIsNeutral α) (h : m.Forgets m' depth)
    (s : SubRoomId) (p : Point α) :
    m.network.localDestination s p = m'.network.localDestination s p := by
  have hkeep := FactorBag.multiplier_settled hone
  rw [← Network.localDestination_mapFactors hkeep, h.network_eq,
    Network.localDestination_mapFactors hkeep]

lemma Forgets.keptDoor?_eq (h : m.Forgets m' depth) (hdepth : 0 < depth) (s : SubRoomId) :
    Router.keptDoor? m s = Router.keptDoor? m' s := by
  simp only [Router.keptDoor?, h.lastSubRoom_eq, h.lastDestination?_eq hdepth, h.door_eq]

end CognitiveMap

namespace Router

/-- The choice of a new door, remembered in the given way. -/
def redirectWith (remember : CognitiveMap α → EdgeId → CognitiveMap α) (r : Router α)
    (a : Pedestrian α) (time : α) : Routing α (DoorId × Pedestrian α) := do
  let d ← r.choose a time
  match (← get).network.edge? d.edge with
  | none => throw (.network (.noOutEdges a.subroom))
  | some edge =>
    modify fun m => remember m d.edge
    r.sense .newDestination a time
    modify fun m => { m with lastSubRoom := some a.subroom }
    return (edge.door, a.headFor edge.door edge.line)

/-- The door that a person heads for, remembered in the given way if it is new. -/
def routeWith (remember : CognitiveMap α → EdgeId → CognitiveMap α) (r : Router α)
    (a : Pedestrian α) (time : α) : Routing α (DoorId × Pedestrian α) := do
  if !(← get).hasDestination then r.sense .init a time
  let m ← get
  match keptDoor? m a.subroom with
  | some door => return (door, a)
  | none =>
    if m.lastSubRoom ≠ some a.subroom then r.sense .changedSubRoom a time
    r.redirectWith remember a time

/-- The answer to a request, whose choice is remembered in the given way. -/
def findExitWith (remember : CognitiveMap α → EdgeId → CognitiveMap α) (r : Router α)
    (a : Pedestrian α) (time : α) : Router α × Pedestrian α × Except (RouterError α) DoorId :=
  if r.isUnroutable a.id then (r, a, .error (.unroutable a.id))
  else
    let (result, m) := (r.routeWith remember a time).run (r.mapOf a.id)
    let r := { r with maps := r.maps.insert a.id m }
    match result with
    | .ok (door, a') => (r, a', .ok door)
    | .error (.unroutable id) =>
      ({ r with unroutable := r.unroutable.insert a.id () }, a, .error (.unroutable id))
    | .error e => (r, a, .error e)

/-- How a router serves that remembers choices in the given way. -/
def serveWith (remember : CognitiveMap α → EdgeId → CognitiveMap α) : Service α
  | r, .findExit a time =>
    let (r', a', result) := r.findExitWith remember a time
    (r', .sent a' result)
  | r, op => serve r op

/-- Routers remember choices as maps do. -/
lemma serveWith_addDestination :
    serveWith (α := α) CognitiveMap.addDestination = serve := by
  funext r op
  cases op <;> rfl

section
variable {r : Router α} {a : Pedestrian α} {m m' : CognitiveMap α} {time : α} {depth : ℕ}
  (hsuite : ∀ q registered, (.recency q, registered) ∈ r.suite → q.depth ≤ depth)

include hsuite

lemma sense_endAlike (events : Events) (a : Pedestrian α) (time : α) (h : m.Forgets m' depth) :
    EndAlike (·.Forgets · depth) (r.sense events a time) m (r.sense events a time) m' := by
  unfold EndAlike
  obtain ⟨hmap, hresult⟩ := SensorSuite.fire_forgets hsuite h events a (r.surroundings time)
  rw [run_sense, run_sense, hresult]
  exact ⟨hmap, rfl⟩

variable (hone : Scalar.OneIsNeutral α)

include hone

lemma choose_endAlike (a : Pedestrian α) (time : α) (h : m.Forgets m' depth) :
    EndAlike (·.Forgets · depth) (r.choose a time) m (r.choose a time) m' := by
  unfold choose
  rw [endAlike_get_bind, h.cheapestDestination_eq hone]
  cases m'.network.cheapestDestination a.subroom a.position with
  | ok d => exact endAlike_pure d h
  | error cause =>
    refine (sense_endAlike hsuite .noRouteKnown a time h).bind fun _ n n' hn => ?_
    rw [endAlike_get_bind, hn.cheapestDestination_eq hone]
    cases n'.network.cheapestDestination a.subroom a.position with
    | ok d => exact endAlike_pure d hn
    | error cause =>
      have hfallback : fallback a n cause = fallback a n' cause := by
        simp only [fallback, hn.localDestination_eq hone]
      simp only [hfallback]
      exact ⟨hn, rfl⟩

lemma redirect_endAlike (a : Pedestrian α) (time : α) (h : m.Forgets m' depth) :
    EndAlike (·.Forgets · depth) (r.redirect a time) m
      (r.redirectWith CognitiveMap.keepDestination a time) m' := by
  unfold redirect redirectWith
  refine (choose_endAlike hsuite hone a time h).bind fun d n n' hn => ?_
  rw [endAlike_get_bind]
  cases hedge' : n'.network.edge? d.edge with
  | none =>
    have hnone := hn.edge?_eq d.edge
    rw [hedge', Option.map_none, Option.map_eq_none_iff] at hnone
    rw [hnone]
    exact endAlike_throw _ hn
  | some edge' =>
    obtain ⟨edge, hedge, hsame⟩ := hn.exists_edge? hedge'
    have hdoor : edge.door = edge'.door := by
      have hdoor := congrArg Edge.door hsame
      exact hdoor
    have hline : edge.line = edge'.line := by
      have hline := congrArg Edge.line hsame
      exact hline
    simp only [hedge, hdoor, hline]
    rw [endAlike_modify_bind]
    refine (sense_endAlike hsuite .newDestination a time
      (hn.addDestination ⟨edge', hedge'⟩)).bind fun _ p p' hp => ?_
    rw [endAlike_modify_bind]
    exact endAlike_pure _ (hp.withLastSubRoom a.subroom)

/-- A request is answered the same, whether all choices are remembered or not. -/
theorem route_endAlike (hdepth : 0 < depth) (a : Pedestrian α) (time : α)
    (h : m.Forgets m' depth) : EndAlike (·.Forgets · depth) (r.route a time) m
      (r.routeWith CognitiveMap.keepDestination a time) m' := by
  -- what follows the first sensing
  have hsearch (n n' : CognitiveMap α) (hn : n.Forgets n' depth) :
      EndAlike (·.Forgets · depth) (do
        let m ← get
        match keptDoor? m a.subroom with
        | some door => return (door, a)
        | none =>
          if m.lastSubRoom ≠ some a.subroom then r.sense .changedSubRoom a time
          r.redirect a time : Routing α (DoorId × Pedestrian α)) n (do
        let m ← get
        match keptDoor? m a.subroom with
        | some door => return (door, a)
        | none =>
          if m.lastSubRoom ≠ some a.subroom then r.sense .changedSubRoom a time
          r.redirectWith CognitiveMap.keepDestination a time) n' := by
    rw [endAlike_get_bind, hn.keptDoor?_eq hdepth, hn.lastSubRoom_eq]
    cases keptDoor? n' a.subroom with
    | some door => exact endAlike_pure _ hn
    | none =>
      simp only
      split
      · exact (sense_endAlike hsuite .changedSubRoom a time hn).bind fun _ p p' hp =>
          redirect_endAlike hsuite hone a time hp
      · exact redirect_endAlike hsuite hone a time hn
  unfold route routeWith
  rw [endAlike_get_bind, h.hasDestination_eq hdepth]
  split
  · exact (sense_endAlike hsuite .init a time h).bind fun _ n n' hn => hsearch n n' hn
  · exact hsearch m m' h

end

/-- How many destinations a router remembers. -/
def memory (params : RouterParams α) : ℕ := max params.sensors.recencyDepth 1

omit [Scalar α] in
lemma memory_pos (params : RouterParams α) : 0 < memory params := lt_max_of_lt_right one_pos

/-- The first router is the second with all but the latest destinations forgotten. -/
structure Mirrors (b : Building α) (params : RouterParams α) (r r' : Router α) : Prop where
  founded : r.Founded b params
  rest : ∃ maps, r' = { r with maps }
  maps : ∀ id, Option.Rel (·.Forgets · (memory params)) (r.maps.find? id) (r'.maps.find? id)

variable {b : Building α} {params : RouterParams α} {r r' r₀ : Router α} {a : Pedestrian α}
  {m m' : CognitiveMap α} {time : α}

lemma Founded.recency_le (h : r.Founded b params) :
    ∀ q registered, (.recency q, registered) ∈ r.suite → q.depth ≤ memory params := by
  intro q registered hmem
  rw [h.suite_eq] at hmem
  obtain ⟨⟨wanted, s⟩, hs, heq⟩ := List.mem_filterMap.1 hmem
  have hq : wanted = true ∧ s = .recency q := by
    cases wanted with
    | false => simp at heq
    | true =>
      simp only [if_true, Option.some.injEq, Prod.mk.injEq] at heq
      exact ⟨rfl, heq.1⟩
  obtain ⟨-, rfl⟩ := hq
  simp only [List.mem_cons, Prod.mk.injEq, Sensor.recency.injEq, reduceCtorEq, and_false,
    List.not_mem_nil, false_or, or_false] at hs
  rw [hs.2]
  exact le_max_left _ _

lemma Mirrors.store (h : r.Mirrors b params r') (hm : m.Forgets m' (memory params))
    (id : AgentId) (refused : OrderedMap AgentId Unit) :
    Mirrors b params { r.withMap id m with unroutable := refused }
      { r'.withMap id m' with unroutable := refused } := by
  have hmaps := h.maps
  obtain ⟨maps, rfl⟩ := h.rest
  refine ⟨{ h.founded with }, ⟨_, rfl⟩, fun id' => ?_⟩
  simp only [Router.withMap, OrderedMap.find?_insert]
  split
  · exact .some hm
  · exact hmaps id'

lemma Mirrors.mapOf (h : r.Mirrors b params r') (id : AgentId) :
    (r.mapOf id).Forgets (r'.mapOf id) (memory params) := by
  have hmaps := h.maps id
  obtain ⟨maps, rfl⟩ := h.rest
  unfold Router.mapOf
  generalize r.maps.find? id = old at hmaps ⊢
  generalize maps.find? id = old' at hmaps ⊢
  cases hmaps with
  | some hm => exact hm
  | none =>
    have horderly := CognitiveMap.orderly_new id r.params.mapMode
      (Network.grown_ofBuilding h.founded.network_eq).wellFormed r.params.sensors.recencyDepth
    have hhistory : (newMap r.params r.network id).history = [] := List.drop_nil
    refine ⟨rfl, horderly.depth_eq.trans (by rw [memory, h.founded.params_eq]), ?_,
      horderly.wellFormed, horderly.exists_edge⟩
    have hlatest : CognitiveMap.latest (memory params) ([] : List EdgeId) = [] := List.drop_nil
    exact hhistory.trans (hlatest.symm.trans (congrArg _ hhistory.symm))

lemma Mirrors.findExit (hone : Scalar.OneIsNeutral α) (h : r.Mirrors b params r')
    (a : Pedestrian α) (time : α) :
    (r.findExit a time).1.Mirrors b params
        (r'.findExitWith CognitiveMap.keepDestination a time).1 ∧
      (r.findExit a time).2 = (r'.findExitWith CognitiveMap.keepDestination a time).2 := by
  obtain ⟨maps, rfl⟩ := h.rest
  obtain ⟨hstate, hresult⟩ := route_endAlike h.founded.recency_le hone (memory_pos params) a time
    (h.mapOf a.id)
  have hrefusal : isUnroutable { r with maps } a.id = r.isUnroutable a.id := rfl
  have hroute : routeWith CognitiveMap.keepDestination { r with maps } a time =
      r.routeWith CognitiveMap.keepDestination a time := rfl
  have hstore := h.store hstate a.id
  unfold Router.findExit findExitWith
  rw [hrefusal, hroute]
  split
  · exact ⟨h, rfl⟩
  · generalize (r.route a time).run (r.mapOf a.id) = ended at hresult hstore ⊢
    generalize (r.routeWith CognitiveMap.keepDestination a time).run _ = ended'
      at hresult hstore ⊢
    obtain ⟨result, n⟩ := ended
    obtain ⟨result', n'⟩ := ended'
    obtain rfl : result = result' := hresult
    rcases result with (_ | _ | _ | _) | _
    · exact ⟨hstore _, rfl⟩
    all_goals exact ⟨hstore r.unroutable, rfl⟩

lemma Mirrors.periodicFor (h : r.Mirrors b params r') (a : Pedestrian α) (time : α) :
    (r.periodicFor a time).1.Mirrors b params (r'.periodicFor a time).1 ∧
      (r.periodicFor a time).2 = (r'.periodicFor a time).2 := by
  obtain ⟨maps, rfl⟩ := h.rest
  have hmaps : Option.Rel (·.Forgets · (memory params)) (r.maps.find? a.id) (maps.find? a.id) :=
    h.maps a.id
  have hrefusal : isUnroutable { r with maps } a.id = r.isUnroutable a.id := rfl
  have hsense : sense { r with maps } .periodic a time = r.sense .periodic a time := rfl
  unfold Router.periodicFor
  rw [hrefusal, hsense]
  split
  · exact ⟨h, rfl⟩
  · generalize r.maps.find? a.id = old at hmaps ⊢
    generalize maps.find? a.id = old' at hmaps ⊢
    cases hmaps with
    | none => exact ⟨h, rfl⟩
    | @some m m' hm =>
      obtain ⟨hstate, hresult⟩ := sense_endAlike h.founded.recency_le .periodic a time hm
      exact ⟨h.store hstate a.id r.unroutable, congrArg Except.isOk hresult⟩

/-- What is answered but for what is remembered of old destinations. -/
inductive Response.Forgets (depth : ℕ) : Response α → Response α → Prop
  | same (response : Response α) : Forgets depth response response
  | forgotten {m m' : Option (CognitiveMap α)} : Option.Rel (·.Forgets · depth) m m' →
    Forgets depth (.forgotten m) (.forgotten m')

/-- Both serve alike and go on to do so. -/
theorem Mirrors.serve (hone : Scalar.OneIsNeutral α) (h : r.Mirrors b params r')
    (op : Operation α) :
    (serve r op).1.Mirrors b params (serveWith CognitiveMap.keepDestination r' op).1 ∧
      (serve r op).2.Forgets (memory params)
        (serveWith CognitiveMap.keepDestination r' op).2 := by
  obtain ⟨maps, rfl⟩ := h.rest
  cases op with
  | withHazard hazard => exact ⟨⟨{ h.founded with }, ⟨maps, rfl⟩, h.maps⟩, .same _⟩
  | findExit a time =>
    obtain ⟨hlater, hanswer⟩ := h.findExit hone a time
    refine ⟨hlater, ?_⟩
    simp only [Router.serve, serveWith, hanswer]
    exact .same _
  | periodic agents time =>
    have hnoting : (r.noting agents).Mirrors b params (noting { r with maps } agents) :=
      ⟨{ h.founded with }, ⟨maps, rfl⟩, h.maps⟩
    obtain ⟨hlater, hcount⟩ := periodic_related (R := Mirrors b params)
      (fun _ _ a hr => hr.periodicFor a time) hnoting
    refine ⟨hlater, ?_⟩
    simp only [serveWith, Router.serve, hcount]
    exact .same _
  | removeAgent id =>
    refine ⟨⟨{ h.founded with }, ⟨maps.erase id, rfl⟩, fun id' => ?_⟩, .forgotten (h.maps id)⟩
    by_cases hid : id' = id
    · subst hid
      simp only [Router.serve, serveWith, removeAgent, OrderedMap.find?_erase_self]
      exact .none
    · simp only [Router.serve, serveWith, removeAgent, OrderedMap.find?_erase_of_ne _ hid]
      exact h.maps id'

lemma mirrors_run (hone : Scalar.OneIsNeutral α) (h : r.Mirrors b params r')
    (ops : List (Operation α)) :
    (r.after ops).Mirrors b params
        (Service.run (serveWith CognitiveMap.keepDestination) r' ops).1 ∧
      (Service.run Router.serve r ops).2.Forall₂ (Response.Forgets (memory params))
        (Service.run (serveWith CognitiveMap.keepDestination) r' ops).2 := by
  rw [← run_serve_fst]
  refine Service.run_related (R := Mirrors b params) (O := Eq)
    (A := Response.Forgets (memory params)) ?_ h (List.forall₂_refl ops)
  rintro q q' op _ hq rfl
  exact hq.serve hone op

lemma mirrors_new (hnew : Router.new b params = .ok r₀) : r₀.Mirrors b params r₀ := by
  refine ⟨(Reachable.stores ⟨r₀, hnew, .refl⟩ (preserved_orderly b params)).founded,
    ⟨r₀.maps, rfl⟩, fun id => ?_⟩
  obtain ⟨g, -, rfl⟩ := new_eq_ok_iff.1 hnew
  exact .none

end Router

end Egress
