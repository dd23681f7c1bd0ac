import Egress.Proofs.Router.Knowledge
import Egress.Proofs.Sensing.Circulation

/-!
# What the kinds of subrooms contribute

Whoever has no destination yet senses before anything else, and circulation takes part in that
whatever fails afterwards. So no map is ever stored without the factors of circulation, and since
these depend on the building alone, nothing that happens later changes their values.
-/
namespace Egress.Router

variable {α : Type} [Scalar α] {b : Building α} {params : RouterParams α} {r : Router α}
  {a : Pedestrian α} {g : Network α} {m : CognitiveMap α} {time : α} {id : AgentId}
  {ops : List (Operation α)}

section
variable {P : CognitiveMap α → Prop}

lemma ends_choose_keeps (hsense : ∀ events m, P m → P ((r.sense events a time).run m).2)
    (hm : P m) : Ends (r.choose a time) m fun _ m' => P m' := by
  unfold choose
  rw [ends_get_bind]
  cases m.network.cheapestDestination a.subroom a.position with
  | ok d => exact hm
  | error cause =>
    have hsensed : Ends (r.sense .noRouteKnown a time) m fun _ m' => P m' :=
      hsense .noRouteKnown m hm
    refine hsensed.bind ?_ fun _ _ h => h
    intro _ m' hm'
    rw [ends_get_bind]
    cases m'.network.cheapestDestination a.subroom a.position with
    | ok d => exact hm'
    | error cause => exact hm'

lemma ends_redirect_keeps (hsense : ∀ events m, P m → P ((r.sense events a time).run m).2)
    (hmark : ∀ (m : CognitiveMap α) history lastSubRoom, P m → P { m with history, lastSubRoom })
    (hm : P m) : Ends (r.redirect a time) m fun _ m' => P m' := by
  unfold redirect
  refine (ends_choose_keeps hsense hm).bind ?_ fun _ _ h => h
  intro d m₁ hm₁
  rw [ends_get_bind]
  cases m₁.network.edge? d.edge with
  | none => exact hm₁
  | some edge =>
    rw [ends_modify_bind]
    have hsensed : Ends (r.sense .newDestination a time) (m₁.addDestination d.edge)
        fun _ m' => P m' := hsense .newDestination _ (hmark m₁ _ _ hm₁)
    refine hsensed.bind ?_ fun _ _ h => h
    intro _ m₂ hm₂
    exact hmark m₂ _ _ hm₂

/-- A request keeps what sensing keeps and the first sensing makes. -/
lemma ends_route_keeps (hsense : ∀ events m, P m → P ((r.sense events a time).run m).2)
    (hmark : ∀ (m : CognitiveMap α) history lastSubRoom, P m → P { m with history, lastSubRoom })
    (hknown : m.hasDestination = true → P m)
    (hfirst : m.hasDestination = false → P ((r.sense .init a time).run m).2) :
    Ends (r.route a time) m fun _ m' => P m' := by
  have hredirect (m : CognitiveMap α) (hm : P m) :
      Ends (r.redirect a time) m fun _ m' => P m' := ends_redirect_keeps hsense hmark hm
  have hsearch (m : CognitiveMap α) (hm : P m) :=
    ends_search (hsense .changedSubRoom) hredirect (fun _ _ hm' => hm') hm
  unfold route
  rw [ends_get_bind]
  cases hdest : m.hasDestination with
  | true =>
    simp only [Bool.not_true, Bool.false_eq_true, if_false]
    rw [ends_get_bind]
    cases keptDoor? m a.subroom with
    | some door => exact hknown hdest
    | none => exact hsearch m (hknown hdest)
  | false =>
    simp only [Bool.not_false, if_true]
    have hsensed : Ends (r.sense .init a time) m fun _ m' => P m' := hfirst hdest
    refine hsensed.bind ?_ fun _ _ h => h
    intro _ m' hm'
    rw [ends_get_bind]
    cases keptDoor? m' a.subroom with
    | some door => exact hm'
    | none => exact hsearch m' hm'

end

lemma circulated_sense {events : Events} (hb : b.WellFormed)
    (hp : params.sensors.circulation = true) (hr : r.Founded b params) (hm : m.Sound b)
    (h : m.Circulated b ∨ (Sensor.circulation : Sensor α).usualEvents.intersects events = true ∧
      Events.intersects .noRouteKnown events = false) (a : Pedestrian α) (time : α) :
    ((r.sense events a time).run m).2.Circulated b := by
  obtain rfl := hr.building_eq
  replace hb : (r.surroundings time).building.WellFormed := hb
  rw [run_sense, hr.suite_eq]
  exact SensorSuite.circulated_fire hb hp hm h

lemma sound_newMap (hb : b.WellFormed) (hg : Network.ofBuilding b = .ok g) (id : AgentId) :
    (newMap params g id).Sound b := by
  have hnew : Router.new b params = .ok _ := new_eq_ok_iff.2 ⟨g, hg, rfl⟩
  exact ((serves_new hb hnew).mapOf id).1

/-- New maps are sound, and requests make maps with all factors of circulation of them. -/
lemma settles_circulated (hb : b.WellFormed) (hp : params.sensors.circulation = true) :
    Settles b params (fun _ m => m.Sound b ∧ (m.hasDestination = true → m.Circulated b))
      fun _ m => m.Circulated b := by
  have hsense (r : Router α) (hr : r.Founded b params) (a : Pedestrian α) (time : α)
      (events : Events) (m : CognitiveMap α) (hm : m.Circulated b) :
      ((r.sense events a time).run m).2.Circulated b :=
    circulated_sense hb hp hr hm.sound (.inl hm) a time
  refine ⟨?_, ?_, ?_, ?_⟩
  · intro id g hg
    refine ⟨sound_newMap hb hg id, fun hdest => ?_⟩
    simp [newMap, CognitiveMap.withDepth, CognitiveMap.new, CognitiveMap.latest,
      CognitiveMap.hasDestination] at hdest
  · intro id m hm
    exact ⟨hm.sound, fun _ => hm⟩
  · intro r a time m hr hm
    refine ends_route_keeps (P := fun m => m.Circulated b) (hsense r hr a time) ?_ hm.2 ?_
    · intro m _ _ hm
      exact ⟨⟨hm.sound.wellFormed, hm.sound.faithful, hm.sound.complete⟩, hm.network⟩
    · intro _
      exact circulated_sense hb hp hr hm.1 (.inr (by rw [Sensor.usualEvents]; decide)) a time
  · intro r a time m hr hm
    exact hsense r hr a time .periodic m hm

/-- The person has a map that shows what the network does. -/
def Remembers (r : Router α) (id : AgentId) (g : Network α) : Prop :=
  ∃ m, r.maps.find? id = some m ∧ m.network.WellFormed ∧ g.Extends m.network

omit [Scalar α] in
lemma Remembers.withMap (h : r.Remembers id g) {id' : AgentId}
    (hm : id = id' → m.network.WellFormed ∧ g.Extends m.network) :
    (r.withMap id' m).Remembers id g := by
  obtain ⟨m', hm', hlearnt⟩ := h
  by_cases hid : id = id'
  · subst hid
    exact ⟨m, OrderedMap.find?_insert_self _ _ _, hm rfl⟩
  · exact ⟨m', (OrderedMap.find?_insert_of_ne _ hid _).trans hm', hlearnt⟩

/-- Nothing but forgetting the map makes the person forget what it shows. -/
lemma Remembers.perform (h : r.Remembers id g) (hr : r.Founded b params) {op : Operation α}
    (hop : op ≠ .removeAgent id) : (r.perform op).Remembers id g := by
  cases op with
  | withHazard hazard => exact h
  | findExit a time =>
    show (r.findExit a time).1.Remembers id g
    cases ha : r.isUnroutable a.id with
    | true =>
      rw [findExit_of_isUnroutable ha]
      exact h
    | false =>
      obtain ⟨refused, hexit⟩ := findExit_fst ha time
      rw [hexit]
      refine (h.withMap ?_ : (r.withMap a.id _).Remembers id g)
      rintro rfl
      obtain ⟨m, hm, hwf, hext⟩ := h
      have hmap : r.mapOf a.id = m := by
        rw [mapOf, hm, Option.getD_some]
      rw [hmap]
      have hresponds : r.Responds a time m _ _ := ends_route_responds hr.configured hwf a time
      refine hresponds.holds (P := fun g' => g'.WellFormed ∧ g.Extends g') ?_ ⟨hwf, hext⟩
      intro s m₁ h₁
      obtain ⟨hwf₁, hlearns⟩ := s.run_learns h₁.1 a (r.surroundings time)
      exact ⟨hwf₁, h₁.2.trans hlearns.network⟩
  | periodic agents time =>
    refine periodic_induction (P := fun r => r.Remembers id g) ?_ agents h
    intro r a h
    rcases periodicFor_fst r a time with hsame | ⟨m, hm, hupdate⟩
    · rw [hsame]
      exact h
    · rw [hupdate]
      refine h.withMap ?_
      rintro rfl
      obtain ⟨m', hm', hwf, hext⟩ := h
      obtain rfl : m = m' := Option.some.inj (hm.symm.trans hm')
      have hsenses : r.Senses a time m _ := (ends_sense_senses r .periodic a time m).1
      obtain ⟨hwf', hlearns⟩ := SensorSuite.Senses.learns hsenses hwf
      exact ⟨hwf', hext.trans hlearns.network⟩
  | removeAgent other =>
    obtain ⟨m, hm, hlearnt⟩ := h
    have hid : id ≠ other := by
      rintro rfl
      exact hop rfl
    exact ⟨m, (OrderedMap.find?_erase_of_ne _ hid).trans hm, hlearnt⟩

lemma Remembers.after (h : r.Remembers id g) (hr : Reachable b params r)
    (hops : ∀ op ∈ ops, op ≠ .removeAgent id) : (r.after ops).Remembers id g := by
  induction ops generalizing r with
  | nil => exact h
  | cons op ops ih =>
    have hfounded := (hr.stores (preserved_orderly b params)).founded
    have hnext := h.perform hfounded (hops op List.mem_cons_self)
    have hreach : Reachable b params (r.perform op) := hr.later [op]
    exact ih hnext hreach fun op' hop' => hops op' (List.mem_cons_of_mem op hop')

/-- In every state of a router that has circulation sensed, whatever else is sensed and whatever has
failed, each edge of each map has a factor of circulation. Its value is one for ways out and between
subrooms of one kind, and else that of the kind of the subroom behind the door. No event changes the
value, and neither does anything that happens to the router, unless the map is forgotten. -/
theorem maps_circulated (hb : b.Made) (hp : params.sensors.circulation = true)
    (hr : Reachable b params r) (hm : r.maps.find? id = some m) {e : EdgeId} {edge : Edge α}
    (he : m.network.edge? e = some edge) :
    ∃ x time, m.network.factor? e Circulation.name = some ⟨x, time⟩ ∧
      Circulation.Suits b m.network edge x ∧
      (∀ events a time, ∃ time',
        ((r.sense events a time).run m).2.network.factor? e Circulation.name = some ⟨x, time'⟩) ∧
      ∀ ops, (∀ op ∈ ops, op ≠ .removeAgent id) → ∃ m' bag time',
        (r.after ops).maps.find? id = some m' ∧
        m'.network.edge? e = some (edge.withFactors bag) ∧
        m'.network.factor? e Circulation.name = some ⟨x, time'⟩ := by
  have hwf := hb.wellFormed
  have hstores := hr.stores_of_settles (settles_circulated hwf hp)
  have hcirculated := hstores.maps id m hm
  obtain ⟨x, time, hfactor, hsuits⟩ := hcirculated.network e edge he
  refine ⟨x, time, hfactor, hsuits, fun events a time => ?_, fun ops hops => ?_⟩
  · have hsensed : ((r.sense events a time).run m).2.Circulated b :=
      circulated_sense hwf hp hstores.founded hcirculated.sound (.inl hcirculated) a time
    have hsenses : r.Senses a time m _ := (ends_sense_senses r events a time m).1
    have hlearns := (SensorSuite.Senses.learns hsenses hcirculated.sound.wellFormed).2
    exact hsensed.network.exists_factor? hlearns.network he hsuits
  · have hremembers : r.Remembers id m.network :=
      ⟨m, hm, hcirculated.sound.wellFormed, .refl m.network⟩
    obtain ⟨m', hm', -, hext⟩ := hremembers.after hr hops
    have hafter := ((hr.later ops).stores_of_settles (settles_circulated hwf hp)).maps id m' hm'
    obtain ⟨bag, hbag⟩ := hext.edge e edge he
    obtain ⟨time', hlater⟩ := hafter.network.exists_factor? hext he hsuits
    exact ⟨m', bag, time', hm', hbag, hlater⟩

/-- Whoever senses in vain at first is not answered. -/
lemma exists_findExit_error (ha : r.isUnroutable a.id = false)
    (hdest : (r.mapOf a.id).hasDestination = false) {error : SensorError α}
    (hfire : (SensorSuite.fire .init a (r.surroundings time) r.suite (r.mapOf a.id)).2 =
      .error error) : ∃ r' e, r.findExit a time = (r', a, .error e) := by
  have hends : Ends (r.route a time) (r.mapOf a.id) fun result _ => ∃ e, result = .error e := by
    have hsensed : Ends (r.sense .init a time) (r.mapOf a.id)
        fun result _ => result = .error (.sensor error) := by
      unfold Ends
      rw [run_sense, hfire]
    unfold route
    rw [ends_get_bind]
    simp only [hdest, Bool.not_false, if_true]
    exact hsensed.bind (fun _ _ h => nomatch h) fun e _ _ => ⟨e, rfl⟩
  unfold Ends at hends
  obtain ⟨m', ⟨door, a', hroute, -⟩ | ⟨id, -, hexit⟩ | ⟨e, -, -, hexit⟩⟩ := findExit_cases ha time
  · rw [hroute] at hends
    obtain ⟨e, he⟩ := hends
    cases he
  · exact ⟨_, _, hexit⟩
  · exact ⟨_, _, hexit⟩

section
open Exact

/-- A building of an entrance with a door that leads out and one that leads into a chamber. -/
lemma exists_villa : ∃ b : Building Exact, b.Made ∧
    (∃ sub, b.subroom? 5 = some sub ∧ sub.kind = .entrance) ∧
    (∃ sub, b.subroom? 6 = some sub ∧ sub.kind = .floor) ∧
    b.door? 4 = some ⟨4, .crossing, ⟨⟨real 0, real 0⟩, ⟨real 1, real 0⟩⟩, 5, some 6, true⟩ := by
  have hroom : (Building.named "villa" : Building Exact).addRoom 0 "" = .ok _ := rfl
  have hfoyer := Building.Made.addSubRoom (.addRoom (.named "villa") hroom)
    (show Building.addSubRoom _ foyer = .ok _ from rfl)
  have hchamber := Building.Made.addSubRoom hfoyer
    (show Building.addSubRoom _ (.ofPolygon 6 0 .floor
      (.rectangle ⟨real 0, real 0⟩ ⟨real 1, real 1⟩)) = .ok _ from rfl)
  have hexit := @Building.Made.addDoor Exact _ _ 3 .transition ⟨⟨real 0, real 0⟩, ⟨real 1, real 0⟩⟩
    5 none hchamber rfl
  have hinner := @Building.Made.addDoor Exact _ _ 4 .crossing ⟨⟨real 0, real 0⟩, ⟨real 1, real 0⟩⟩
    5 (some 6) hexit rfl
  exact ⟨_, hinner, ⟨_, rfl, rfl⟩, ⟨_, rfl, rfl⟩, rfl⟩

/-- As long as the hazard cannot be read, the visitor of a building with a door is not answered, but
has a map all the same. -/
lemma exists_unanswered {b : Building Exact} (hb : b.Made)
    (hsub : ∃ sub, b.subroom? 5 = some sub) {door : DoorId} (hdoor : b.OpensFrom 5 door) :
    ∃ (r r' : Router Exact) (error : RouterError Exact) (m : CognitiveMap Exact),
      Reachable b .standard r ∧ r.findExit visitor (real 0) = (r', visitor, .error error) ∧
      Reachable b .standard r' ∧ r'.maps.find? 7 = some m := by
  obtain ⟨sub, hsub⟩ := hsub
  obtain ⟨g, hg, -⟩ := Network.ofBuilding_spec hb.wellFormed
  let r₀ : Router Exact :=
    ⟨b, .standard, .ofParams SensorParams.standard, g, .empty, none, .empty, .empty⟩
  let r : Router Exact := r₀.withHazard brokenHazard
  have hnew : Router.new b .standard = .ok r₀ := new_eq_ok_iff.2 ⟨g, hg, rfl⟩
  have hreach : Reachable b .standard r := ⟨r₀, hnew, .single (.withHazard r₀ brokenHazard)⟩
  have hserves : r.Serves b .standard := hreach.serves hb.wellFormed
  obtain ⟨hsound, -, hmode⟩ := hserves.mapOf 7
  obtain ⟨e, edge, hedge, hsource, -⟩ := hsound.complete hmode 5 sub hsub door hdoor
  have hout := hsound.wellFormed.mem_outEdges.2 ⟨edge, hedge, hsource⟩
  have hmeant : (Sensor.danger .smokeDensity : Sensor Exact).usualEvents.intersects .init =
      true := by
    rw [Sensor.usualEvents]
    decide
  obtain ⟨_, hfire⟩ := exists_fire_error (r := r) (a := visitor) hserves.suite_eq rfl rfl
    (fun _ => rfl) hsound.wellFormed hout hmeant (real 0)
  obtain ⟨r', error, hexit⟩ := exists_findExit_error (r := r) (a := visitor) rfl rfl hfire
  obtain ⟨m, hm⟩ : ∃ m, r'.maps.find? 7 = some m := by
    obtain ⟨_, hstored⟩ := findExit_fst (r := r) (a := visitor) rfl (real 0)
    rw [hexit] at hstored
    rw [show r' = _ from hstored]
    exact ⟨_, OrderedMap.find?_insert_self _ _ _⟩
  exact ⟨r, r', error, m, hreach, hexit,
    ⟨r₀, hnew, .tail (.single (.withHazard r₀ brokenHazard)) (.of_findExit hexit)⟩, hm⟩

/-- A visitor of the villa is not answered, for the hazard cannot be read. All the same the door
into the chamber has the factor of floors in the visitor's map, and still has it after an update. -/
theorem maps_circulated_villa : ∃ (b : Building Exact) (r r' : Router Exact)
    (m m' : CognitiveMap Exact) (e : EdgeId) (edge : Edge Exact),
    b.Made ∧ Reachable b .standard r ∧
    (∃ error, r.findExit visitor (real 0) = (r', visitor, .error error)) ∧
    r'.maps.find? 7 = some m ∧ m.network.edge? e = some edge ∧ edge.door = 4 ∧
    (∃ time, m.network.factor? e Circulation.name = some ⟨Circulation.factor .floor, time⟩) ∧
    (r'.after [.periodic [visitor] (real 1)]).maps.find? 7 = some m' ∧
    ∃ time, m'.network.factor? e Circulation.name = some ⟨Circulation.factor .floor, time⟩ := by
  obtain ⟨b, hmade, ⟨start, hfive, hstart⟩, ⟨stop, hsix, hstop⟩, hdoor⟩ := exists_villa
  have hopens : b.OpensFrom 5 4 := ⟨_, hdoor, rfl, rfl⟩
  obtain ⟨r, r', failure, m, hreach, hexit, hreach', hm⟩ :=
    exists_unanswered hmade ⟨start, hfive⟩ hopens
  obtain ⟨hsound, -, hmode⟩ := (hreach'.serves hmade.wellFormed).maps 7 m hm
  obtain ⟨e, edge, hedge, hfrom, hthrough⟩ := hsound.complete hmode 5 start hfive 4 hopens
  obtain ⟨s, d, hd⟩ := hsound.faithful.edge e edge hedge
  obtain rfl : 5 = s := Option.some.inj (hfrom.symm.trans hd.source)
  have hsame := hd.door
  rw [hthrough, hdoor, Option.some.injEq] at hsame
  subst hsame
  have hbehind : edge.dest.bind m.network.subroomAt? = some 6 := (Option.some.inj hd.side).symm
  obtain ⟨w, hw, hto⟩ := Option.bind_eq_some_iff.1 hbehind
  have hsuits : Circulation.Suits b m.network edge (Circulation.factor stop.kind) :=
    .into hw ⟨5, hfrom, hfive⟩ ⟨6, hto, hsix⟩ (by rw [hstart, hstop]; decide)
  obtain ⟨x, time, hfactor, hx, -, hafter⟩ := maps_circulated hmade rfl hreach' hm hedge
  obtain ⟨m', -, time', hm', -, hlater⟩ := hafter [.periodic [visitor] (real 1)] (by simp)
  rw [hx.unique hsuits, hstop] at hfactor hlater
  exact ⟨b, r, r', m, m', e, edge, hmade, hreach, ⟨failure, hexit⟩, hm, hedge, hthrough,
    ⟨time, hfactor⟩, hm', time', hlater⟩

end

end Egress.Router
