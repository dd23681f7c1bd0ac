import Egress.Proofs.Router.Periodic
import Egress.Proofs.Sensing.Traffic

/-!
# People who ask independently of each other

A request for a door reads and changes what is stored about the person who asks, and about nobody
else. So the requests of two people may be made in either order, and a periodic update may go
through the people in any order.
-/
namespace Egress.Router

variable {α : Type} {r r' r'' : Router α} {a a' : Pedestrian α} {id : AgentId} {time : α}

/-- The second router differs from the first in maps and refusals only, and not in those of the
person. -/
structure AgreesOn (r r' : Router α) (id : AgentId) : Prop where
  rest : ∃ maps refused, r' = { r with maps, unroutable := refused }
  map : r'.maps.find? id = r.maps.find? id
  refusal : r'.isUnroutable id = r.isUnroutable id

theorem AgreesOn.symm (h : r.AgreesOn r' id) : r'.AgreesOn r id := by
  refine ⟨?_, h.map.symm, h.refusal.symm⟩
  obtain ⟨maps, refused, rfl⟩ := h.rest
  exact ⟨r.maps, r.unroutable, rfl⟩

theorem AgreesOn.trans (h : r.AgreesOn r' id) (h' : r'.AgreesOn r'' id) : r.AgreesOn r'' id := by
  refine ⟨?_, h'.map.trans h.map, h'.refusal.trans h.refusal⟩
  obtain ⟨maps, refused, rfl⟩ := h.rest
  obtain ⟨maps', refused', rfl⟩ := h'.rest
  exact ⟨maps', refused', rfl⟩

theorem eq_of_agreesOn (h : ∀ id, r.AgreesOn r' id) : r' = r := by
  have hmaps : r'.maps = r.maps := OrderedMap.ext_find? fun id => (h id).map
  have hrefused : r'.unroutable = r.unroutable := OrderedMap.ext_contains fun id => (h id).refusal
  obtain ⟨maps, refused, rfl⟩ := (h 0).rest
  simp only at hmaps hrefused
  rw [hmaps, hrefused]

lemma AgreesOn.mapOf_eq (h : r.AgreesOn r' id) : r'.mapOf id = r.mapOf id := by
  have hmap := h.map
  obtain ⟨maps, refused, rfl⟩ := h.rest
  simp only [mapOf, hmap]

variable [Scalar α]

lemma findExit_rest (r : Router α) (a : Pedestrian α) (time : α) :
    ∃ maps refused, (r.findExit a time).1 = { r with maps, unroutable := refused } := by
  cases ha : r.isUnroutable a.id with
  | true =>
    rw [findExit_of_isUnroutable ha]
    exact ⟨r.maps, r.unroutable, rfl⟩
  | false =>
    obtain ⟨refused, hexit⟩ := findExit_fst ha time
    exact ⟨_, refused, hexit⟩

/-- A request leaves what is stored about other people. -/
theorem agreesOn_findExit (r : Router α) (a : Pedestrian α) (time : α) (hid : id ≠ a.id) :
    r.AgreesOn (r.findExit a time).1 id := by
  suffices h : (r.findExit a time).1.maps.find? id = r.maps.find? id ∧
      (r.findExit a time).1.isUnroutable id = r.isUnroutable id from
    ⟨findExit_rest r a time, h.1, h.2⟩
  cases ha : r.isUnroutable a.id with
  | true =>
    rw [findExit_of_isUnroutable ha]
    exact ⟨rfl, rfl⟩
  | false =>
    obtain ⟨m', ⟨door, a', -, hexit⟩ | ⟨id', -, hexit⟩ | ⟨e, -, -, hexit⟩⟩ := findExit_cases ha time
    all_goals
      rw [hexit]
      refine ⟨OrderedMap.find?_insert_of_ne _ hid _, ?_⟩
    · rfl
    · simp only [isUnroutable, OrderedMap.contains]
      rw [OrderedMap.find?_insert_of_ne _ hid]
    · rfl

/-- A request depends on what is stored about the person who asks, and on nobody else. -/
theorem AgreesOn.findExit (h : r.AgreesOn r' a.id) (time : α) :
    (r'.findExit a time).2 = (r.findExit a time).2 ∧
      (r.findExit a time).1.AgreesOn (r'.findExit a time).1 a.id := by
  have hmapOf := h.mapOf_eq
  have hrefusal := h.refusal
  obtain ⟨maps, refused, rfl⟩ := h.rest
  cases ha : r.isUnroutable a.id with
  | true =>
    rw [findExit_of_isUnroutable ha, findExit_of_isUnroutable (hrefusal.trans ha)]
    exact ⟨rfl, h⟩
  | false =>
    have ha' := hrefusal.trans ha
    have hroute : ({ r with maps, unroutable := refused } : Router α).route a time =
        r.route a time := rfl
    -- both routers answer from one and the same run, which is the one that is split below
    unfold Router.findExit
    simp only [ha, ha', hroute, hmapOf, Bool.false_eq_true, if_false]
    have hself (m : CognitiveMap α) : (maps.insert a.id m).find? a.id =
        (r.maps.insert a.id m).find? a.id := by simp
    rcases (r.route a time).run (r.mapOf a.id) with ⟨result, m⟩
    cases result with
    | ok answer => exact ⟨rfl, ⟨_, _, rfl⟩, hself m, hrefusal⟩
    | error e =>
      cases e with
      | unroutable id =>
        refine ⟨rfl, ⟨_, _, rfl⟩, hself m, ?_⟩
        simp [isUnroutable, OrderedMap.contains]
      | _ => exact ⟨rfl, ⟨_, _, rfl⟩, hself m, hrefusal⟩

/-- Two people may ask in either order. -/
theorem findExit_swap (r : Router α) (hid : a'.id ≠ a.id) (time time' : α) :
    ((r.findExit a time).1.findExit a' time').1 = ((r.findExit a' time').1.findExit a time).1 := by
  -- what is stored about whoever asks is the same whether the other has asked before or not
  have hown {p q : Pedestrian α} (t u : α) (hpq : p.id ≠ q.id) :
      (r.findExit p t).1.AgreesOn ((r.findExit q u).1.findExit p t).1 p.id :=
    ((agreesOn_findExit r q u hpq).findExit t).2
  have hleft {p q : Pedestrian α} (t u : α) (hpq : p.id ≠ q.id) :
      (r.findExit p t).1.AgreesOn ((r.findExit p t).1.findExit q u).1 p.id :=
    agreesOn_findExit _ q u hpq
  refine eq_of_agreesOn fun id => ?_
  by_cases ha : id = a.id
  · subst ha
    exact (hown time time' hid.symm).symm.trans (hleft time time' hid.symm)
  · by_cases ha' : id = a'.id
    · subst ha'
      exact (hleft time' time hid).symm.trans (hown time' time hid)
    · have hfirst := (agreesOn_findExit r a time ha).trans (agreesOn_findExit _ a' time' ha')
      have hsecond := (agreesOn_findExit r a' time' ha').trans (agreesOn_findExit _ a time ha)
      exact hsecond.symm.trans hfirst

/-- A periodic update changes the maps and who heads for which door. -/
lemma periodic_rest (r : Router α) (agents : List (Pedestrian α)) (time : α) :
    ∃ maps, (r.periodic agents time).1 = { r with maps, traffic := .ofAgents agents } := by
  refine periodic_induction (P := fun r' => ∃ maps,
    r' = { r with maps, traffic := .ofAgents agents }) ?_ agents ⟨r.maps, rfl⟩
  intro r' a hr'
  obtain ⟨maps, rfl⟩ := hr'
  obtain ⟨⟨maps', hmaps'⟩, -⟩ := periodicFor_frame _ a time
  exact ⟨maps', hmaps'⟩

section
variable {q : Router Exact} {agents agents' : List (Pedestrian Exact)}

/-- What the sensors make of a map does not depend on the order of the people. -/
lemma update_noting_perm (h : agents.Perm agents') (p : Pedestrian Exact) (t : Exact)
    (m : CognitiveMap Exact) :
    (q.noting agents').update p t m = (q.noting agents).update p t m := by
  have hreorders : ((q.noting agents).surroundings t).traffic.Reorders (.ofAgents agents') :=
    Traffic.reorders_ofAgents h
  exact SensorSuite.fire_reorder hreorders .periodic q.suite m

/-- A periodic update may go through people with numbers of their own in any order. -/
theorem periodic_perm (h : agents.Perm agents') (hids : (agents.map (·.id)).Nodup) (t : Exact) :
    (q.periodic agents' t).2 = (q.periodic agents t).2 ∧
      (q.periodic agents' t).1.maps = (q.periodic agents t).1.maps := by
  have hids' : (agents'.map (·.id)).Nodup := (h.map _).nodup_iff.1 hids
  obtain ⟨hcount, huntouched, hupdated⟩ := periodic_spec hids q t
  obtain ⟨hcount', huntouched', hupdated'⟩ := periodic_spec hids' q t
  constructor
  · rw [hcount, hcount', h.countP_eq]
    simp only [update_noting_perm h]
  · refine OrderedMap.ext_find? fun id => ?_
    by_cases hid : ∀ p ∈ agents, p.id = id → q.mapToUpdate? id = none
    · rw [huntouched id hid, huntouched' id fun p hp => hid p (h.mem_iff.2 hp)]
    · push Not at hid
      obtain ⟨p, hp, rfl, hne⟩ := hid
      obtain ⟨m, hm⟩ := Option.ne_none_iff_exists'.1 hne
      rw [hupdated p hp m hm, hupdated' p (h.mem_iff.1 hp) m hm, update_noting_perm h]

end

/-- A request changes nothing about other people, depends on nothing about them, and so commutes
with the request of another person. A periodic update comes to the same in whatever order it goes
through people with numbers of their own, but for the order in which they are recorded at a
door. -/
theorem requests_independent :
    (∀ (r : Router α) (a : Pedestrian α) (time : α),
      (r.findExit a time).1.traffic = r.traffic ∧
      (r.findExit a time).1.network = r.network ∧
      (∀ id, id ≠ a.id → r.AgreesOn (r.findExit a time).1 id) ∧
      (∀ r', r.AgreesOn r' a.id → (r'.findExit a time).2 = (r.findExit a time).2) ∧
      ∀ (a' : Pedestrian α) (time' : α), a'.id ≠ a.id →
        ((r.findExit a' time').1.findExit a time).2 = (r.findExit a time).2 ∧
        ((r.findExit a time).1.findExit a' time').2 = (r.findExit a' time').2 ∧
        ((r.findExit a time).1.findExit a' time').1 =
          ((r.findExit a' time').1.findExit a time).1) ∧
    ∀ (r : Router Exact) (agents agents' : List (Pedestrian Exact)) (time : Exact),
      agents.Perm agents' → (agents.map (·.id)).Nodup →
      (r.periodic agents' time).2 = (r.periodic agents time).2 ∧
      (r.periodic agents time).1.traffic.Reorders (r.periodic agents' time).1.traffic ∧
      (r.periodic agents' time).1 = { (r.periodic agents time).1 with
        traffic := (r.periodic agents' time).1.traffic } := by
  constructor
  · intro r a time
    obtain ⟨maps, refused, hrest⟩ := findExit_rest r a time
    refine ⟨by rw [hrest], by rw [hrest], fun id hid => agreesOn_findExit r a time hid,
      fun r' hr' => (hr'.findExit time).1, fun a' time' hid => ⟨?_, ?_, ?_⟩⟩
    · exact ((agreesOn_findExit r a' time' hid.symm).findExit time).1
    · exact ((agreesOn_findExit r a time hid).findExit time').1
    · exact findExit_swap r hid time time'
  · intro r agents agents' time hperm hids
    obtain ⟨hcount, hmaps⟩ := periodic_perm (q := r) hperm hids time
    obtain ⟨maps, hrest⟩ := periodic_rest r agents time
    obtain ⟨maps', hrest'⟩ := periodic_rest r agents' time
    rw [hrest, hrest'] at hmaps ⊢
    obtain rfl : maps' = maps := hmaps
    exact ⟨hcount, Traffic.reorders_ofAgents hperm, rfl⟩

section
open Exact

/-- Somebody else who stands in the pavilion. -/
noncomputable def companion : Pedestrian Exact := .standing 8 0 5 ⟨real 0, real 1⟩

/-- The visitor of the pavilion is sent to its door whether or not the companion has asked before.
The router ends in the same state, in which the two are updated in either order. -/
theorem requests_independent_pavilion : ∃ r r' : Router Exact,
    Reachable pavilion .standard r ∧ Reachable pavilion .standard r' ∧
    ((r.findExit visitor (real 0)).1.findExit companion (real 1)).1 = r' ∧
    ((r.findExit companion (real 1)).1.findExit visitor (real 0)).1 = r' ∧
    (r.findExit visitor (real 0)).2.2 = .ok 3 ∧
    ((r.findExit companion (real 1)).1.findExit visitor (real 0)).2.2 = .ok 3 ∧
    (r'.periodic [companion, visitor] (real 2)).2 =
      (r'.periodic [visitor, companion] (real 2)).2 ∧
    (r'.periodic [companion, visitor] (real 2)).1.maps =
      (r'.periodic [visitor, companion] (real 2)).1.maps := by
  obtain ⟨r, r₁, a', hnew, hreach, hexit⟩ := exists_sent_pavilion
  obtain ⟨hrequests, hperiodic⟩ := requests_independent (α := Exact)
  obtain ⟨-, -, -, -, hswap⟩ := hrequests r visitor (real 0)
  obtain ⟨hanswer, -, hsame⟩ := hswap companion (real 1) (by decide)
  obtain ⟨hcount, -, hmaps⟩ := hperiodic ((r.findExit visitor (real 0)).1.findExit companion
    (real 1)).1 [visitor, companion] [companion, visitor] (real 2) (.swap _ _ _) (by decide)
  have hreach' : Reachable pavilion .standard
      ((r.findExit visitor (real 0)).1.findExit companion (real 1)).1 :=
    ⟨r, hnew, .tail (.single (.findExit r visitor (real 0))) (.findExit _ companion (real 1))⟩
  refine ⟨r, _, ⟨r, hnew, .refl⟩, hreach', rfl, hsame.symm, ?_, ?_, hcount, ?_⟩
  · rw [hexit]
  · rw [hanswer, hexit]
  · rw [hmaps]

end

end Egress.Router
