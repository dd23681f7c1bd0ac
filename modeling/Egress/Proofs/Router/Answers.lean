import Egress.Proofs.Exact
import Egress.Proofs.Router.Runs

/-!
# What a router answers

A person in an existing subroom is sent to one of its open doors, and is refused exactly if there
is none. Whoever has been refused is refused for good.
-/
namespace Egress.Router

variable {α : Type} [Scalar α] {b : Building α} {params : RouterParams α} {r r' : Router α}
  {a a' : Pedestrian α} {id : AgentId} {time : α}

/-- A person who is refused stays as before, and so does the router. -/
lemma findExit_of_isUnroutable (ha : r.isUnroutable a.id = true) (time : α) :
    r.findExit a time = (r, a, .error (.unroutable a.id)) := by
  unfold findExit
  rw [ha, if_pos rfl]

lemma isUnroutable_of_findExit (h : r.findExit a time = (r', a', .error (.unroutable id))) :
    r'.isUnroutable a.id = true := by
  cases ha : r.isUnroutable a.id with
  | true =>
    rw [findExit_of_isUnroutable ha] at h
    rw [← (Prod.mk.inj h).1]
    exact ha
  | false =>
    obtain ⟨m', ⟨door, a'', -, hexit⟩ | ⟨id', -, hexit⟩ | ⟨e, hne, -, hexit⟩⟩ :=
      findExit_cases ha time
    all_goals
      rw [hexit, Prod.mk.injEq, Prod.mk.injEq] at h
      obtain ⟨hr, -, hanswer⟩ := h
    · cases hanswer
    · rw [← hr]
      simp [Router.isUnroutable, OrderedMap.contains]
    · exact absurd (Except.error.inj hanswer) (hne id)

theorem Step.isUnroutable (hstep : Step r r') (h : r.isUnroutable id = true) :
    r'.isUnroutable id = true := by
  cases hstep with
  | withHazard hazard => exact h
  | findExit a time =>
    cases ha : r.isUnroutable a.id with
    | true =>
      rw [findExit_of_isUnroutable ha]
      exact h
    | false =>
      obtain ⟨m', ⟨door, a', -, hexit⟩ | ⟨id', -, hexit⟩ | ⟨e, -, -, hexit⟩⟩ :=
        findExit_cases ha time
      all_goals rw [hexit]
      · exact h
      · have hne : id ≠ a.id := by
          rintro rfl
          rw [ha] at h
          cases h
        simp only [Router.isUnroutable, OrderedMap.contains] at h ⊢
        rwa [OrderedMap.find?_insert_of_ne _ hne]
      · exact h
  | periodic agents time =>
    refine periodic_induction (P := fun r => r.isUnroutable id = true) ?_ agents h
    intro r a hr
    unfold periodicFor
    split
    · exact hr
    · split
      · exact hr
      · exact hr
  | removeAgent id' => exact h

lemma isUnroutable_of_steps (hsteps : Relation.ReflTransGen Step r r')
    (h : r.isUnroutable id = true) : r'.isUnroutable id = true := by
  induction hsteps with
  | refl => exact h
  | tail _ hstep ih => exact hstep.isUnroutable ih

/-- A person who has not been refused is sent to an open door of the subroom, or there is none or
something keeps the person from perceiving it. -/
theorem Serves.findExit_spec (h : r.Serves b params) (hb : b.WellFormed)
    (ha : r.isUnroutable a.id = false) (time : α) :
    (∃ r' a' door, r.findExit a time = (r', a', .ok door) ∧ b.OpensFrom a.subroom door) ∨
    ∃ r' e, r.findExit a time = (r', a, .error e) ∧ (r.CanPerceive a → e = .unroutable a.id ∧
      (params.mapMode = .complete ∨ params.sensors.discovery = true →
        ∀ door, ¬b.OpensFrom a.subroom door)) := by
  obtain ⟨hm, hrecalls, hmode⟩ := h.mapOf a.id
  have hends := ends_route (h.configured hb) (h.building_eq ▸ hm) hrecalls a time
  unfold Ends at hends
  rw [← h.building_eq, ← h.params_eq]
  obtain ⟨m', ⟨door, a', hroute, hexit⟩ | ⟨id, hroute, hexit⟩ | ⟨e, -, hroute, hexit⟩⟩ :=
    findExit_cases ha time
  all_goals rw [hroute] at hends
  · exact .inl ⟨_, a', door, hexit, hends.opensFrom door a' rfl⟩
  · refine .inr ⟨_, _, hexit, fun hperceive => ?_⟩
    rw [h.params_eq, ← hmode, ← h.params_eq]
    exact hends.refuses _ rfl hperceive
  · refine .inr ⟨_, _, hexit, fun hperceive => ?_⟩
    rw [h.params_eq, ← hmode, ← h.params_eq]
    exact hends.refuses _ rfl hperceive

/-- In every state of a router, a person in an existing subroom who has not been refused is sent to
an open door of the subroom if there is one, and refused otherwise, as long as hazards are at worst
unknown. Whoever has been refused is refused for good, without any effect on the person or the
router. -/
theorem findExit_answers (hb : b.Made)
    (hable : params.mapMode = .complete ∨ params.sensors.discovery = true)
    (hr : Reachable b params r) :
    ((∀ f, r.hazard = some f → f.OnlyMisses) →
      ∀ (a : Pedestrian α) (time : α), r.isUnroutable a.id = false →
        (∃ sub, b.subroom? a.subroom = some sub) →
        ((∃ door, b.OpensFrom a.subroom door) → ∃ r' a' door,
          r.findExit a time = (r', a', .ok door) ∧ b.OpensFrom a.subroom door) ∧
        ((¬∃ door, b.OpensFrom a.subroom door) → ∃ r',
          r.findExit a time = (r', a, .error (.unroutable a.id)))) ∧
    (∀ (a : Pedestrian α) (time : α) (r' : Router α) (a' : Pedestrian α) (id : AgentId),
      r.findExit a time = (r', a', .error (.unroutable id)) →
      ∀ r'', Relation.ReflTransGen Step r' r'' →
        ∀ (a'' : Pedestrian α) (time' : α), a''.id = a.id →
          r''.findExit a'' time' = (r'', a'', .error (.unroutable a.id))) ∧
    ∀ store : HazardStore α, store.field.OnlyMisses := by
  have hwf := hb.wellFormed
  have hserves := hr.serves hwf
  refine ⟨?_, ?_, HazardStore.field_onlyMisses⟩
  · intro hhazard a time ha hsub
    have hperceive : r.CanPerceive a := ⟨hhazard, hserves.building_eq ▸ hsub⟩
    rcases hserves.findExit_spec hwf ha time with
      ⟨r', a', door, hexit, hopens⟩ | ⟨r', e, hexit, hrefuses⟩
    · refine ⟨fun _ => ⟨r', a', door, hexit, hopens⟩, ?_⟩
      intro hnone
      exact absurd ⟨door, hopens⟩ hnone
    · obtain ⟨rfl, hnone⟩ := hrefuses hperceive
      refine ⟨?_, fun _ => ⟨r', hexit⟩⟩
      rintro ⟨door, hdoor⟩
      exact absurd hdoor (hnone hable door)
  · intro a time r' a' id hexit r'' hsteps a'' time' hid
    have hrefused := isUnroutable_of_steps hsteps (isUnroutable_of_findExit hexit)
    rw [← hid] at hrefused ⊢
    exact findExit_of_isUnroutable hrefused time'

section
open Exact

/-- A subroom to go out from. -/
noncomputable def foyer : SubRoom Exact :=
  .ofPolygon 5 0 .entrance (.rectangle ⟨real 0, real 0⟩ ⟨real 1, real 1⟩)

/-- A building that is one foyer with one door out. -/
noncomputable def pavilion : Building Exact where
  caption := "pavilion"
  rooms := (OrderedMap.empty.insert 0 ⟨0, "", []⟩).insert 0 ⟨0, "", [5]⟩
  subrooms := (OrderedMap.empty.insert 5 foyer).insert 5 { foyer with doors := [3] }
  doors := OrderedMap.empty.insert 3
    ⟨3, .transition, ⟨⟨real 0, real 0⟩, ⟨real 1, real 0⟩⟩, 5, none, true⟩

lemma made_pavilion : pavilion.Made := by
  have hroom : (Building.named "pavilion" : Building Exact).addRoom 0 "" = .ok _ := rfl
  have hfoyer := Building.Made.addSubRoom (.addRoom (.named "pavilion") hroom)
    (show Building.addSubRoom _ foyer = .ok _ from rfl)
  exact @Building.Made.addDoor Exact _ _ 3 .transition ⟨⟨real 0, real 0⟩, ⟨real 1, real 0⟩⟩ 5
    none hfoyer rfl

lemma eq_of_opensFrom_pavilion {s : SubRoomId} {door : DoorId}
    (h : pavilion.OpensFrom s door) : door = 3 := by
  obtain ⟨d, hd, -⟩ := h
  by_contra hne
  rw [Building.door?, pavilion, OrderedMap.find?_insert_of_ne _ hne] at hd
  cases hd

noncomputable def closedPavilion : Building Exact where
  caption := pavilion.caption
  rooms := pavilion.rooms
  subrooms := pavilion.subrooms
  doors := pavilion.doors.insert 3
    ⟨3, .transition, ⟨⟨real 0, real 0⟩, ⟨real 1, real 0⟩⟩, 5, none, false⟩

lemma made_closedPavilion : closedPavilion.Made := by
  have hclose : pavilion.setDoorOpen 3 false = .ok closedPavilion := rfl
  exact .setDoorOpen made_pavilion hclose

lemma not_opensFrom_closedPavilion (s : SubRoomId) :
    ¬∃ door, closedPavilion.OpensFrom s door := by
  intro hopens
  obtain ⟨door, d, hd, hopen, -⟩ := hopens
  by_cases hdoor : door = 3
  · subst hdoor
    rw [Building.door?, closedPavilion, OrderedMap.find?_insert_self] at hd
    rw [← Option.some.inj hd] at hopen
    cases hopen
  · rw [Building.door?, closedPavilion, pavilion, OrderedMap.find?_insert_of_ne _ hdoor,
      OrderedMap.find?_insert_of_ne _ hdoor] at hd
    cases hd

/-- A person in the pavilion is sent to its door. If that is closed the person is refused, and is
still refused after the router has forgotten the person's map. -/
theorem findExit_pavilion :
    (∃ r : Router Exact, Reachable pavilion .standard r ∧ ∃ r' a',
      r.findExit (.standing 7 0 5 ⟨real 1, real 1⟩) (real 0) = (r', a', .ok 3)) ∧
    ∃ r r' : Router Exact, Reachable closedPavilion .standard r ∧
      r.findExit (.standing 7 0 5 ⟨real 1, real 1⟩) (real 0) =
        (r', .standing 7 0 5 ⟨real 1, real 1⟩, .error (.unroutable 7)) ∧
      (r'.removeAgent 7).1.findExit (.standing 7 0 5 ⟨real 1, real 1⟩) (real 1) =
        ((r'.removeAgent 7).1, .standing 7 0 5 ⟨real 1, real 1⟩, .error (.unroutable 7)) := by
  constructor
  · have hnew : Router.new pavilion .standard = .ok _ := rfl
    have hreach : Reachable pavilion .standard _ := ⟨_, hnew, .refl⟩
    have hdoor : ∃ door, pavilion.OpensFrom 5 door := ⟨3, _, rfl, rfl, rfl⟩
    have hanswers := (findExit_answers made_pavilion (.inl rfl) hreach).1 nofun
      (.standing 7 0 5 ⟨real 1, real 1⟩) (real 0) rfl ⟨_, rfl⟩
    obtain ⟨r', a', door, hexit, hopens⟩ := hanswers.1 hdoor
    obtain rfl := eq_of_opensFrom_pavilion hopens
    exact ⟨_, hreach, r', a', hexit⟩
  · have hnew : Router.new closedPavilion .standard = .ok _ := rfl
    have hreach : Reachable closedPavilion .standard _ := ⟨_, hnew, .refl⟩
    obtain ⟨hanswers, hrefused, -⟩ := findExit_answers made_closedPavilion (.inl rfl) hreach
    obtain ⟨r', hexit⟩ := (hanswers nofun (.standing 7 0 5 ⟨real 1, real 1⟩) (real 0) rfl
      ⟨_, rfl⟩).2 (not_opensFrom_closedPavilion 5)
    have hforget := Relation.ReflTransGen.single (Step.removeAgent r' 7)
    exact ⟨_, r', hreach, hexit, hrefused _ _ _ _ _ hexit _ hforget
      (.standing 7 0 5 ⟨real 1, real 1⟩) (real 1) rfl⟩

end

end Egress.Router
