import Egress.Proofs.Router.Forgetting

/-!
# How chosen doors weigh

The history of a person's map is the end of the list of doors that the person has chosen. When a
door has just been chosen, every edge weighs by how many doors have been chosen since its own was
last chosen.
-/
namespace Egress.Router

variable {α : Type} [Scalar α] {b : Building α} {params : RouterParams α} {r r₀ : Router α}
  {a : Pedestrian α} {m m' : CognitiveMap α} {time : α} {id : AgentId} {doors : List DoorId}

/-- The doors that a person has chosen, given those before the operation. A door that is kept is not
chosen again, and forgetting the person's map starts again. -/
def Operation.chosen (r : Router α) (id : AgentId) (doors : List DoorId) :
    Operation α → List DoorId
  | .findExit a time =>
    if a.id = id ∧ keptDoor? (r.mapOf id) a.subroom = none then
      doors ++ (r.findExit a time).2.2.toOption.toList
    else doors
  | .removeAgent other => if other = id then [] else doors
  | _ => doors

/-- The doors that a person has chosen since the person's map was last forgotten, latest last. -/
def chosenIn (r : Router α) (id : AgentId) (ops : List (Operation α)) : List DoorId :=
  (ops.foldl (fun rd op => (rd.1.perform op, op.chosen rd.1 id rd.2)) (r, [])).2

lemma chosenIn_append (r : Router α) (id : AgentId) (ops : List (Operation α))
    (op : Operation α) :
    r.chosenIn id (ops ++ [op]) = op.chosen (r.after ops) id (r.chosenIn id ops) := by
  have hfst (doors : List DoorId) : (ops.foldl (fun rd op =>
      (rd.1.perform op, op.chosen rd.1 id rd.2)) (r, doors)).1 = r.after ops := by
    unfold after
    induction ops generalizing r doors with
    | nil => rfl
    | cons op ops ih => exact ih (r.perform op) _
  rw [chosenIn, List.foldl_concat, hfst]
  rfl

omit [Scalar α] in
lemma historyDoors_learns (h : m.Learns m')
    (hm : ∀ e ∈ m.history, ∃ edge, m.network.edge? e = some edge) :
    m'.historyDoors = m.historyDoors := by
  have hhistory : m'.history = m.history := by rw [← h.kept]
  unfold CognitiveMap.historyDoors
  rw [hhistory]
  refine List.filterMap_congr fun e he => ?_
  obtain ⟨edge, hedge⟩ := hm e he
  obtain ⟨bag, hbag⟩ := h.network.edge e edge hedge
  rw [hedge, hbag]
  rfl

omit [Scalar α] in
lemma historyDoors_addDestination {e : EdgeId} {edge : Edge α}
    (hm : ∀ e ∈ m.history, ∃ edge, m.network.edge? e = some edge)
    (hedge : m.network.edge? e = some edge) : (m.addDestination e).historyDoors =
      CognitiveMap.latest m.depth (m.historyDoors ++ [edge.door]) := by
  have hall : ∀ e' ∈ m.history ++ [e],
      ∃ door, (m.network.edge? e').map (·.door) = some door := by
    intro e' he'
    rcases List.mem_append.1 he' with hold | hnew
    · obtain ⟨edge', hedge'⟩ := hm e' hold
      exact ⟨edge'.door, by rw [hedge']; rfl⟩
    · rw [List.mem_singleton.1 hnew, hedge]
      exact ⟨edge.door, rfl⟩
  have hdoors := CognitiveMap.filterMap_latest m.depth hall
  rw [List.filterMap_append] at hdoors
  simpa [CognitiveMap.historyDoors, CognitiveMap.addDestination, hedge] using hdoors

/-- A request keeps the doors of the history, or appends the door that the person is sent to. -/
lemma Responds.historyDoors_cases {result : Except (RouterError α) (DoorId × Pedestrian α)}
    {depth : ℕ} (h : r.Responds a time m result m') (hm : m.Orderly depth) :
    (∃ door, result = .ok (door, a) ∧ keptDoor? m a.subroom = some door ∧ m' = m) ∨
      (∃ e, result = .error e ∧ m'.historyDoors = m.historyDoors) ∨
      ∃ door line, result = .ok (door, a.headFor door line) ∧
        m'.historyDoors = CognitiveMap.latest depth (m.historyDoors ++ [door]) := by
  cases h with
  | @kept door hkept => exact .inl ⟨door, rfl, hkept, rfl⟩
  | @failed e _ hsenses =>
    have hlearns := (SensorSuite.Senses.learns hsenses hm.wellFormed).2
    exact .inr (.inl ⟨e, rfl, historyDoors_learns hlearns hm.exists_edge⟩)
  | @chosen e edge m₁ m₂ hsenses₁ he hedge hsenses₂ =>
    obtain ⟨hwf₁, hlearns₁⟩ := SensorSuite.Senses.learns hsenses₁ hm.wellFormed
    have hm₁ := hm.learn hlearns₁ hwf₁
    have hlearns₂ := (SensorSuite.Senses.learns hsenses₂ hwf₁).2
    have hknown : ∀ e' ∈ (m₁.addDestination e).history,
        ∃ edge, (m₁.addDestination e).network.edge? e' = some edge := by
      intro e' he'
      rcases CognitiveMap.mem_history_addDestination he' with hold | rfl
      · exact hm₁.exists_edge e' hold
      · exact ⟨edge, hedge⟩
    have hdoors : m₂.historyDoors = _ := (historyDoors_learns hlearns₂ hknown).trans
      (historyDoors_addDestination hm₁.exists_edge hedge)
    rw [historyDoors_learns hlearns₁ hm.exists_edge, hm₁.depth_eq] at hdoors
    exact .inr (.inr ⟨edge.door, edge.line, rfl, hdoors⟩)

lemma historyDoors_route (hsuite : r.suite = .ofParams r.params.sensors) {depth : ℕ}
    (hm : m.Orderly depth) (a : Pedestrian α) (time : α) :
    ((r.route a time).run m).2.historyDoors = if keptDoor? m a.subroom = none then
      CognitiveMap.latest depth
        (m.historyDoors ++ (((r.route a time).run m).1.map Prod.fst).toOption.toList)
      else m.historyDoors := by
  have hshort : CognitiveMap.latest depth m.historyDoors = m.historyDoors := by
    have hlength : m.historyDoors.length ≤ depth :=
      (List.length_filterMap_le _ _).trans hm.length_le
    rw [CognitiveMap.latest, Nat.sub_eq_zero_of_le hlength, List.drop_zero]
  cases hkept : keptDoor? m a.subroom with
  | some door => rw [route_of_kept hkept, if_neg (by simp)]
  | none =>
    have hresponds : r.Responds a time m _ _ := ends_route_responds hsuite hm.wellFormed a time
    rw [if_pos rfl]
    rcases hresponds.historyDoors_cases hm with
      ⟨door, -, hkept', -⟩ | ⟨e, hresult, hdoors⟩ | ⟨door, line, hresult, hdoors⟩
    · cases hkept.symm.trans hkept'
    · rw [hresult, hdoors]
      simp [Except.map, Except.toOption, hshort]
    · rw [hresult, hdoors]
      rfl

/-- A periodic update keeps the doors of every history. -/
lemma historyDoors_periodic (hr : Reachable b params r) (agents : List (Pedestrian α)) (time : α)
    (id : AgentId) :
    ((r.periodic agents time).1.mapOf id).historyDoors = (r.mapOf id).historyDoors := by
  have hP := preserved_orderly b params
  have hstores := hr.stores hP
  refine (periodic_induction (P := fun q => q.Stores b params (fun id m => m.agent = id ∧
    m.mode = params.mapMode ∧ m.Orderly (max params.sensors.recencyDepth 1)) ∧
    (q.mapOf id).historyDoors = (r.mapOf id).historyDoors) ?_ agents
    ⟨⟨{ hstores.founded with }, hstores.maps⟩, rfl⟩).2
  intro q p hq
  obtain ⟨hq, hdoors⟩ := hq
  rcases periodicFor_fst q p time with hsame | ⟨m, hm, hupdate⟩
  · rw [hsame]
    exact ⟨hq, hdoors⟩
  · have hold := hq.maps p.id m hm
    rw [hupdate]
    refine ⟨hq.withMap (hP.sense q p time m hq.founded hold), ?_⟩
    rw [mapOf_withMap]
    split
    · rename_i hid
      have hsenses : q.Senses p time m _ := (ends_sense_senses q .periodic p time m).1
      have hlearns := (SensorSuite.Senses.learns hsenses hold.2.2.wellFormed).2
      rw [historyDoors_learns hlearns hold.2.2.exists_edge, ← hdoors, mapOf, hid, hm,
        Option.getD_some]
    · exact hdoors

/-- The history of the person's map is the end of the list. -/
def Recounts (r : Router α) (params : RouterParams α) (id : AgentId) (doors : List DoorId) : Prop :=
  (r.mapOf id).historyDoors = CognitiveMap.latest (memory params) doors

omit [Scalar α] in
lemma historyDoors_mapOf_of_none (h : r.maps.find? id = none) : (r.mapOf id).historyDoors = [] := by
  have hhistory : (r.mapOf id).history = [] := by
    rw [mapOf, h, Option.getD_none]
    exact List.drop_nil
  rw [CognitiveMap.historyDoors, hhistory]
  rfl

omit [Scalar α] in
lemma recounts_of_none (h : r.maps.find? id = none) : r.Recounts params id [] := by
  rw [Recounts, historyDoors_mapOf_of_none h, CognitiveMap.latest, List.drop_nil]

lemma Recounts.findExit (hr : Reachable b params r) (h : r.Recounts params a.id doors) :
    (r.findExit a time).1.Recounts params a.id
      ((Operation.findExit a time).chosen r a.id doors) := by
  have hP := preserved_orderly b params
  have hstores := hr.stores hP
  obtain ⟨-, -, horderly⟩ := hstores.mapOf hP a.id
  cases ha : r.isUnroutable a.id with
  | true =>
    simp only [Operation.chosen, findExit_of_isUnroutable ha]
    simpa [Except.toOption] using h
  | false =>
    have hdoors := historyDoors_route hstores.founded.configured horderly a time
    have hanswer : (r.findExit a time).2.2 =
        ((r.route a time).run (r.mapOf a.id)).1.map Prod.fst := by
      obtain ⟨m', ⟨door, a', hroute, hexit⟩ | ⟨id, hroute, hexit⟩ | ⟨e, -, hroute, hexit⟩⟩ :=
        findExit_cases ha time
      all_goals
        rw [hroute, hexit]
        rfl
    obtain ⟨refused, hexit⟩ := findExit_fst ha time
    have hmap : (r.findExit a time).1.mapOf a.id = ((r.route a time).run (r.mapOf a.id)).2 := by
      rw [hexit]
      exact (mapOf_withMap r a.id a.id _).trans (if_pos rfl)
    rw [Recounts] at h ⊢
    rw [hmap, hdoors, ← hanswer, h]
    simp only [Operation.chosen, true_and]
    split
    · exact CognitiveMap.latest_latest_append _ _ _
    · rfl

lemma Recounts.perform (hr : Reachable b params r) (h : r.Recounts params id doors)
    (op : Operation α) : (r.perform op).Recounts params id (op.chosen r id doors) := by
  cases op with
  | withHazard hazard => exact h
  | findExit a time =>
    by_cases hid : a.id = id
    · subst hid
      exact h.findExit hr
    · rw [Operation.chosen, if_neg fun hboth => hid hboth.1]
      have hmap := (agreesOn_findExit r a time (Ne.symm hid)).mapOf_eq
      rw [Recounts]
      exact (congrArg CognitiveMap.historyDoors hmap).trans h
  | periodic agents time => exact (historyDoors_periodic hr agents time id).trans h
  | removeAgent other =>
    rw [Operation.chosen]
    split
    · rename_i hid
      refine recounts_of_none ?_
      rw [← hid]
      exact OrderedMap.find?_erase_self _ _
    · rename_i hid
      rw [Recounts, Router.perform, removeAgent, mapOf,
        OrderedMap.find?_erase_of_ne _ (Ne.symm hid)]
      exact h

/-- In every run the history of a map is the end of the list of chosen doors. -/
theorem recounts_after (hnew : Router.new b params = .ok r₀) (ops : List (Operation α))
    (id : AgentId) : (r₀.after ops).Recounts params id (r₀.chosenIn id ops) := by
  induction ops using List.reverseRecOn with
  | nil =>
    refine recounts_of_none ?_
    obtain ⟨g, -, rfl⟩ := new_eq_ok_iff.1 hnew
    rfl
  | append_singleton ops op ih =>
    rw [chosenIn_append, after, List.foldl_concat]
    exact ih.perform (reachable_after hnew ops) op

/-- Every edge weighs as the factors of the history's doors say. -/
def Weighed (m : CognitiveMap α) (q : Recency α) : Prop :=
  ∀ e edge, m.network.edge? e = some edge →
    edge.recency = ((q.doorFactors m.historyDoors).find? edge.door).getD 1

lemma weighed_recency (q : Recency α) (m : CognitiveMap α) (env : Surroundings α) :
    Weighed (q.run m env) q := by
  have hedge? (e : EdgeId) : (q.run m env).network.edge? e =
      (m.network.edge? e).map (Recency.update (q.doorFactors m.historyDoors) env.time) :=
    Array.getElem?_map
  have hdoors : (q.run m env).historyDoors = m.historyDoors := by
    have hdoor (e : EdgeId) : ((q.run m env).network.edge? e).map (·.door) =
        (m.network.edge? e).map (·.door) := by
      rw [hedge?, Option.map_map]
      refine congrArg (Option.map · _) (funext fun edge => ?_)
      obtain ⟨bag, hbag⟩ := Recency.exists_update (q.doorFactors m.historyDoors) env.time edge
      rw [Function.comp_apply, hbag]
      rfl
    simp only [CognitiveMap.historyDoors, hdoor]
    rfl
  intro e edge hedge
  rw [hedge?, Option.map_eq_some_iff] at hedge
  obtain ⟨old, -, rfl⟩ := hedge
  rw [hdoors]
  unfold Recency.update
  cases hfind : (q.doorFactors m.historyDoors).find? old.door with
  | some f => simp [Edge.recency, Edge.setFactor, hfind]
  | none =>
    simp only
    split
    · simp [Edge.recency, Edge.setFactor, hfind]
    · rename_i habsent
      rw [Bool.not_eq_true, OrderedMap.contains_eq_false_iff] at habsent
      simp [Edge.recency, habsent, hfind]

/-- A choice runs the sensor of recent destinations and no other. -/
lemma fire_newDestination (a : Pedestrian α) (m : CognitiveMap α) (env : Surroundings α)
    {p : SensorParams α} (hp : p.recency = true) :
    (SensorSuite.fire .newDestination a env (.ofParams p) m).1 =
      Recency.run ⟨p.recencyDepth, p.recencyPenalty⟩ m env := by
  rw [← SensorSuite.fire_filter, SensorSuite.filter_newDestination hp]
  exact (SensorSuite.fire_cons_of_ok [] (by decide) rfl).1

/-- After a new choice every edge weighs as the history says. -/
lemma ends_redirect_weighed {p : SensorParams α} (hsuite : r.suite = .ofParams p)
    (hp : p.recency = true) (a : Pedestrian α) (time : α) (m : CognitiveMap α) :
    Ends (r.redirect a time) m fun result m' =>
      ∀ answer, result = .ok answer → Weighed m' ⟨p.recencyDepth, p.recencyPenalty⟩ := by
  unfold redirect
  refine Ends.bind (R := fun _ _ => True) trivial ?_ ?_
  · intro d m₁ _
    rw [ends_get_bind]
    cases m₁.network.edge? d.edge with
    | none =>
      intro _ herror
      cases herror
    | some edge =>
      simp only
      rw [ends_modify_bind]
      refine Ends.bind (R := fun _ m' => Weighed m' ⟨p.recencyDepth, p.recencyPenalty⟩) ?_ ?_ ?_
      · unfold Ends
        rw [run_sense, hsuite, fire_newDestination a _ _ hp]
        exact weighed_recency _ _ _
      · intro _ m₂ hweighed _ _
        exact hweighed
      · intro _ m₂ hweighed _ _
        exact hweighed
  · intro _ m₁ _ _ herror
    cases herror

lemma ends_route_weighed {p : SensorParams α} (hsuite : r.suite = .ofParams p)
    (hp : p.recency = true) (hm : m.network.WellFormed) (hkept : keptDoor? m a.subroom = none)
    (time : α) : Ends (r.route a time) m fun result m' =>
      ∀ answer, result = .ok answer → Weighed m' ⟨p.recencyDepth, p.recencyPenalty⟩ := by
  refine ends_route_of_not_kept hm hkept ?_ ?_
  · intro m' _
    exact ends_redirect_weighed hsuite hp a time m'
  · intro _ _ _ _ herror
    cases herror

/-- Every edge weighs by how many doors have been chosen since its own was last chosen. -/
lemma recency_after (hnew : Router.new b params = .ok r₀) (hp : params.sensors.recency = true)
    {ops : List (Operation α)} (hkept : keptDoor? ((r₀.after ops).mapOf a.id) a.subroom = none)
    {a' : Pedestrian α} {door : DoorId}
    (hexit : ((r₀.after ops).findExit a time).2 = (a', .ok door)) :
    ∃ m past, ((r₀.after ops).findExit a time).1.maps.find? a.id = some m ∧
      r₀.chosenIn a.id (ops ++ [.findExit a time]) = past ++ [door] ∧
      ∀ e edge, m.network.edge? e = some edge → edge.recency =
        ((Recency.doorFactors ⟨params.sensors.recencyDepth, params.sensors.recencyPenalty⟩
          (past ++ [door])).find? edge.door).getD 1 := by
  have hP := preserved_orderly b params
  have hstores := (reachable_after hnew ops).stores hP
  obtain ⟨-, -, horderly⟩ := hstores.mapOf hP a.id
  have ha : (r₀.after ops).isUnroutable a.id = false := by
    by_contra hrefused
    rw [Bool.not_eq_false] at hrefused
    rw [findExit_of_isUnroutable hrefused] at hexit
    cases hexit
  have hweighed := ends_route_weighed hstores.founded.suite_eq hp horderly.wellFormed hkept time
  have hdoors : r₀.chosenIn a.id (ops ++ [.findExit a time]) =
      r₀.chosenIn a.id ops ++ [door] := by
    rw [chosenIn_append, Operation.chosen, if_pos ⟨rfl, hkept⟩, hexit]
    rfl
  have hrecounts := recounts_after hnew (ops ++ [.findExit a time]) a.id
  rw [hdoors, after, List.foldl_concat] at hrecounts
  obtain ⟨m, ⟨door', a'', hroute, heq⟩ | ⟨id, -, heq⟩ | ⟨e, -, -, heq⟩⟩ := findExit_cases ha time
  · have hmap : ((r₀.after ops).findExit a time).1.maps.find? a.id = some m := by
      rw [heq]
      exact OrderedMap.find?_insert_self _ _ _
    refine ⟨m, r₀.chosenIn a.id ops, hmap, hdoors, fun e edge hedge => ?_⟩
    have hhistory : m.historyDoors =
        CognitiveMap.latest (memory params) (r₀.chosenIn a.id ops ++ [door]) := by
      have hmapOf : ((r₀.after ops).findExit a time).1.mapOf a.id = m := by
        rw [mapOf, hmap, Option.getD_some]
      exact hmapOf ▸ hrecounts
    rw [Ends, hroute] at hweighed
    rw [hweighed _ rfl e edge hedge, hhistory]
    rcases Recency.find?_doorFactors_latest
      (⟨params.sensors.recencyDepth, params.sensors.recencyPenalty⟩ : Recency α)
      (le_max_left _ 1) (r₀.chosenIn a.id ops ++ [door]) edge.door with
      hsame | ⟨hforgotten, hneutral⟩
    · exact congrArg (Option.getD · 1) hsame
    · rw [memory, hforgotten, hneutral]
      rfl
  all_goals
    rw [heq] at hexit
    cases hexit

/-- Forgetting old destinations changes nothing. A router that never forgets one answers the same,
and how recently doors have been headed for weighs the same on every edge. After a new choice that
is by how many doors the person has chosen since, and so for every edge with the door. -/
theorem run_forgetting (hone : Scalar.OneIsNeutral α) (hnew : Router.new b params = .ok r₀)
    (ops : List (Operation α)) :
    (Service.run serve r₀ ops).2.Forall₂ (Response.Forgets (memory params))
        (Service.run (serveWith CognitiveMap.keepDestination) r₀ ops).2 ∧
      (∀ id, Option.Rel (fun m m' => m.Forgets m' (memory params) ∧
          ∀ e, (m.network.edge? e).map Edge.recency = (m'.network.edge? e).map Edge.recency)
        ((Service.run serve r₀ ops).1.maps.find? id)
        ((Service.run (serveWith CognitiveMap.keepDestination) r₀ ops).1.maps.find? id)) ∧
      (params.sensors.recency = true → ∀ a a' time door,
        keptDoor? ((r₀.after ops).mapOf a.id) a.subroom = none →
        ((r₀.after ops).findExit a time).2 = (a', .ok door) →
        ∃ m past, ((r₀.after ops).findExit a time).1.maps.find? a.id = some m ∧
          r₀.chosenIn a.id (ops ++ [.findExit a time]) = past ++ [door] ∧
          ∀ e edge, m.network.edge? e = some edge →
            (edge.door ∉ past ++ [door] → edge.recency = 1) ∧
            ∀ before since, past ++ [door] = before ++ edge.door :: since →
              edge.door ∉ since → edge.recency =
                if since.length < params.sensors.recencyDepth then
                  Recency.factor ⟨params.sensors.recencyDepth, params.sensors.recencyPenalty⟩
                    since.length
                else 1) := by
  obtain ⟨hlast, hresponses⟩ := mirrors_run hone (mirrors_new hnew) ops
  refine ⟨hresponses, fun id => ?_, fun hp a a' time door hkept hexit => ?_⟩
  · rw [run_serve_fst]
    have hmaps := hlast.maps id
    generalize (r₀.after ops).maps.find? id = old at hmaps ⊢
    generalize (Service.run _ r₀ ops).1.maps.find? id = old' at hmaps ⊢
    cases hmaps with
    | none => exact .none
    | some hm => exact .some ⟨hm, hm.recency_eq⟩
  · obtain ⟨m, past, hmap, hdoors, hrecency⟩ := recency_after hnew hp hkept hexit
    refine ⟨m, past, hmap, hdoors, fun e edge hedge => ?_⟩
    rw [hrecency e edge hedge]
    constructor
    · intro hnever
      rw [Recency.find?_doorFactors_of_not_mem _ hnever]
      rfl
    · intro before since heq hlater
      rw [heq, Recency.find?_doorFactors _ hlater, Option.getD_some]
      split
      · rfl
      · rename_i hold
        exact if_pos (not_lt.1 hold)

section
open Exact

/-- A building of two subrooms side by side, each with a door of its own that leads out. -/
noncomputable def arcade : Building Exact where
  caption := "arcade"
  rooms := .ofList [(0, ⟨0, "", [5, 6]⟩)]
  subrooms := .ofList [(5, { foyer with doors := [3] }), (6, { foyer with uid := 6, doors := [4] })]
  doors := .ofList [
    (3, ⟨3, .transition, ⟨⟨real 0, real 0⟩, ⟨real 1, real 0⟩⟩, 5, none, true⟩),
    (4, ⟨4, .transition, ⟨⟨real 0, real 0⟩, ⟨real 1, real 0⟩⟩, 6, none, true⟩)]

lemma made_arcade : arcade.Made := by
  have hroom : (Building.named "arcade" : Building Exact).addRoom 0 "" = .ok _ := rfl
  have hfirst := Building.Made.addSubRoom (.addRoom (.named "arcade") hroom)
    (show Building.addSubRoom _ foyer = .ok _ from rfl)
  have hsecond := Building.Made.addSubRoom hfirst
    (show Building.addSubRoom _ { foyer with uid := 6 } = .ok _ from rfl)
  have hdoor := @Building.Made.addDoor Exact _ _ 3 .transition ⟨⟨real 0, real 0⟩, ⟨real 1, real 0⟩⟩
    5 none hsecond rfl
  exact @Building.Made.addDoor Exact _ _ 4 .transition ⟨⟨real 0, real 0⟩, ⟨real 1, real 0⟩⟩
    6 none hdoor rfl

lemma opensFrom_arcade {s : SubRoomId} {door : DoorId} (h : arcade.OpensFrom s door) :
    s = 5 ∧ door = 3 ∨ s = 6 ∧ door = 4 := by
  obtain ⟨d, hd, -, hconnects⟩ := h
  have hmem := OrderedMap.mem_of_find?_ofList hd
  simp only [List.mem_cons, Prod.mk.injEq, List.not_mem_nil, or_false] at hmem
  rcases hmem with ⟨rfl, rfl⟩ | ⟨rfl, rfl⟩
  all_goals
    rw [Door.connects, Bool.or_eq_true, beq_iff_eq, beq_iff_eq] at hconnects
    rcases hconnects with rfl | hother
    · simp
    · cases hother

/-- The parameters with which only the latest choice is remembered. -/
noncomputable def forgetful : RouterParams Exact :=
  ⟨.complete, { SensorParams.standard with recencyDepth := 1 }⟩

/-- Whoever asks in a subroom of the arcade is sent to its door. -/
lemma exists_sent_arcade {r : Router Exact} {a : Pedestrian Exact} {door : DoorId}
    (hr : Reachable arcade forgetful r) (hhazard : r.hazard = none)
    (ha : r.isUnroutable a.id = false) (hopens : arcade.OpensFrom a.subroom door) (time : Exact) :
    ∃ r' a', r.findExit a time = (r', a', .ok door) ∧ r'.hazard = none := by
  have hwf := made_arcade.wellFormed
  have hserves := hr.serves hwf
  rcases hserves.findExit_spec hwf ha time with
    ⟨r', a', door', hexit, hopens'⟩ | ⟨r', e, -, hrefuses⟩
  · obtain rfl : door' = door := by
      rcases opensFrom_arcade hopens with ⟨hs, rfl⟩ | ⟨hs, rfl⟩
      · simpa [hs] using opensFrom_arcade hopens'
      · simpa [hs] using opensFrom_arcade hopens'
    obtain ⟨refused, hfst⟩ := findExit_fst ha time
    rw [hexit] at hfst
    exact ⟨r', a', hexit, (congrArg Router.hazard hfst).trans hhazard⟩
  · have hsub : ∃ sub, arcade.subroom? a.subroom = some sub := by
      rcases opensFrom_arcade hopens with ⟨hs, -⟩ | ⟨hs, -⟩
      · exact ⟨_, by rw [hs]; rfl⟩
      · exact ⟨_, by rw [hs]; rfl⟩
    have hperceive : r.CanPerceive a := ⟨by simp [hhazard], hserves.building_eq ▸ hsub⟩
    exact absurd hopens ((hrefuses hperceive).2 (.inl rfl) door)

/-- The visitor, in the second subroom of the arcade. -/
noncomputable def movedOn : Pedestrian Exact := .standing 7 0 6 ⟨real 1, real 1⟩

/-- The visitor asks in the first subroom of the arcade and then in the second. -/
noncomputable def stroll : List (Operation Exact) :=
  [.findExit visitor (real 0), .findExit movedOn (real 1)]

/-- In neither subroom the visitor has a door to keep. -/
lemma exists_strolled : ∃ (r₀ r r' : Router Exact) (a' a'' : Pedestrian Exact),
    Router.new arcade forgetful = .ok r₀ ∧ r₀.findExit visitor (real 0) = (r, a', .ok 3) ∧
    r.findExit movedOn (real 1) = (r', a'', .ok 4) ∧ Reachable arcade forgetful r' ∧
    keptDoor? (r₀.mapOf 7) 5 = none ∧ keptDoor? (r.mapOf 7) 6 = none := by
  have hnew : Router.new arcade forgetful = .ok _ := rfl
  have hreach₀ : Reachable arcade forgetful _ := ⟨_, hnew, .refl⟩
  have hfive : arcade.OpensFrom 5 3 := ⟨_, rfl, rfl, rfl⟩
  have hsix : arcade.OpensFrom 6 4 := ⟨_, rfl, rfl, rfl⟩
  obtain ⟨r, a', hexit, hhazard⟩ :=
    exists_sent_arcade (a := visitor) hreach₀ rfl rfl hfive (real 0)
  have hstep : Reachable arcade forgetful r := ⟨_, hnew, .single (.of_findExit hexit)⟩
  obtain ⟨hroutable, -⟩ := hreach₀.exists_responds hexit
  obtain ⟨r', a'', hexit', -⟩ :=
    exists_sent_arcade (a := movedOn) hstep hhazard hroutable hsix (real 1)
  obtain ⟨m, hm, hkept⟩ := hreach₀.exists_keptDoor? hexit
  obtain ⟨-, -, hlast, -⟩ := exists_edge_of_keptDoor? hkept
  refine ⟨_, r, r', a', a'', hnew, hexit, hexit', ?_, rfl, ?_⟩
  · exact ⟨_, hnew, .tail (.single (.of_findExit hexit)) (.of_findExit hexit')⟩
  · have hmap : r.mapOf 7 = m := by
      rw [mapOf, show r.maps.find? 7 = some m from hm, Option.getD_some]
    rw [hmap, keptDoor?, if_neg (by simp [hlast, visitor, Pedestrian.standing])]

lemma chosenIn_stroll {r₀ r r' : Router Exact} {a' a'' : Pedestrian Exact}
    (hexit : r₀.findExit visitor (real 0) = (r, a', .ok 3))
    (hexit' : r.findExit movedOn (real 1) = (r', a'', .ok 4))
    (hkept : keptDoor? (r₀.mapOf 7) 5 = none) (hkept' : keptDoor? (r.mapOf 7) 6 = none) :
    r₀.after [.findExit visitor (real 0)] = r ∧ r₀.after stroll = r' ∧
      r₀.chosenIn 7 stroll = [3, 4] := by
  have hfirst : r₀.after [.findExit visitor (real 0)] = r := congrArg Prod.fst hexit
  have hsecond : r₀.after stroll = r' :=
    (congrArg (perform · (.findExit movedOn (real 1))) hfirst).trans (congrArg Prod.fst hexit')
  have hthree : r₀.chosenIn 7 [.findExit visitor (real 0)] = [3] := by
    rw [chosenIn, List.foldl_cons, List.foldl_nil, Operation.chosen, if_pos ⟨rfl, hkept⟩, hexit]
    rfl
  have happend := chosenIn_append r₀ 7 [.findExit visitor (real 0)] (.findExit movedOn (real 1))
  rw [hfirst, hthree, Operation.chosen, if_pos ⟨rfl, hkept'⟩, hexit'] at happend
  exact ⟨hfirst, hsecond, happend⟩

/-- The visitor chooses the doors of both subrooms. Only the second one is remembered: it weighs as
the latest choice, and the first one as if it had never been chosen. -/
theorem run_forgetting_arcade : ∃ (r₀ : Router Exact) (m m' : CognitiveMap Exact)
    (e e' : EdgeId) (edge edge' : Edge Exact), Router.new arcade forgetful = .ok r₀ ∧
    r₀.chosenIn 7 stroll = [3, 4] ∧ (r₀.after stroll).maps.find? 7 = some m ∧
    m.historyDoors = [4] ∧
    (Service.run (serveWith CognitiveMap.keepDestination) r₀ stroll).1.maps.find? 7 = some m' ∧
    m.Forgets m' 1 ∧
    m.network.edge? e = some edge ∧ edge.door = 3 ∧ edge.recency = 1 ∧
    m.network.edge? e' = some edge' ∧ edge'.door = 4 ∧ edge'.recency = real 2 ∧
    (Service.run serve r₀ stroll).2.Forall₂ (Response.Forgets 1)
      (Service.run (serveWith CognitiveMap.keepDestination) r₀ stroll).2 := by
  obtain ⟨r₀, r, r', a', a'', hnew, hexit, hexit', hreach, hkept, hkept'⟩ := exists_strolled
  obtain ⟨hfirst, hsecond, hchosen⟩ := chosenIn_stroll hexit hexit' hkept hkept'
  obtain ⟨hresponses, hmaps, -⟩ := run_forgetting oneIsNeutral hnew stroll
  obtain ⟨-, -, hweighs⟩ := run_forgetting oneIsNeutral hnew [.findExit visitor (real 0)]
  obtain ⟨m, past, hm, hdoors, hrecency⟩ := hweighs rfl movedOn a'' (real 1) 4
    (hfirst ▸ hkept') (hfirst ▸ congrArg Prod.snd hexit')
  obtain rfl : past = [3] := by
    have hsame : past ++ [4] = [3] ++ [4] := hdoors.symm.trans hchosen
    exact List.append_cancel_right hsame
  have hstored : r'.maps.find? 7 = some m := by
    rw [hfirst, hexit'] at hm
    exact hm
  obtain ⟨m', hmap', hforgets⟩ : ∃ m',
      (Service.run (serveWith CognitiveMap.keepDestination) r₀ stroll).1.maps.find? 7 = some m' ∧
        m.Forgets m' 1 := by
    have hboth := hmaps 7
    rw [run_serve_fst, hsecond, hstored] at hboth
    generalize (Service.run _ r₀ stroll).1.maps.find? 7 = found at hboth ⊢
    cases hboth with
    | some hm' => exact ⟨_, rfl, hm'.1⟩
  have hhistory : m.historyDoors = [4] := by
    have hrecounts := recounts_after hnew stroll 7
    rw [Recounts, hsecond, hchosen, mapOf, hstored, Option.getD_some] at hrecounts
    exact hrecounts
  obtain ⟨hsound, -, hmode⟩ := (hreach.serves made_arcade.wellFormed).maps 7 m hstored
  obtain ⟨e, edge, hedge, -, hdoor⟩ := hsound.complete hmode 5 _ rfl 3 ⟨_, rfl, rfl, rfl⟩
  obtain ⟨e', edge', hedge', -, hdoor'⟩ := hsound.complete hmode 6 _ rfl 4 ⟨_, rfl, rfl, rfl⟩
  have hold := (hrecency e edge hedge).2 [] [4] (by simp [hdoor]) (by simp [hdoor])
  have hlatest := (hrecency e' edge' hedge').2 [3] [] (by simp [hdoor']) List.not_mem_nil
  have hfactor : Recency.factor (⟨1, 1⟩ : Recency Exact) 0 = real 2 := by
    rw [Recency.factor, if_neg (by decide), natCast_eq, natCast_eq, one_eq, real_mul_real,
      real_div_real _ (by norm_num), real_add_real]
    norm_num
  refine ⟨r₀, m, m', e, e', edge, edge', hnew, hchosen, hsecond ▸ hstored, hhistory, hmap',
    hforgets, hedge, hdoor, ?_, hedge', hdoor', ?_, hresponses⟩
  · rw [hold]
    exact if_neg (lt_irrefl 1)
  · rw [hlatest]
    exact (if_pos one_pos).trans hfactor

end

end Egress.Router
