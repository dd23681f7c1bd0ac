import Egress.Proofs.Router.Keeping

/-!
# Requests that are not answered

A request for a door can fail halfway, when a sensor does or when no usable door has turned up. By
then the person's map may have been brought up to date, but nothing has been chosen: the person
heads for the same door as before, and remembers the same destinations.
-/
namespace Egress.Router

variable {α : Type} [Scalar α] {b : Building α} {params : RouterParams α} {r r' : Router α}
  {a a' : Pedestrian α} {time : α} {e : RouterError α}

omit [Scalar α] in
lemma insert_unroutable {id : AgentId} (h : r.isUnroutable id = true) :
    r.unroutable.insert id () = r.unroutable := by
  obtain ⟨_, hrefused⟩ := Option.isSome_iff_exists.1 h
  exact OrderedMap.insert_of_find? hrefused

/-- A request that fails leaves what the person has learnt on the way. The person is refused for
want of a door, but not because a sensor has failed. -/
lemma findExit_error_cases (hr : Reachable b params r)
    (h : r.findExit a time = (r', a', .error e)) :
    a' = a ∧ ((e = .unroutable a.id ∧ r'.unroutable = r.unroutable.insert a.id ()) ∨
      (∃ error, e = .sensor error) ∧ r'.unroutable = r.unroutable) ∧
    (r.mapOf a.id).Learns (r'.mapOf a.id) := by
  have hP := preserved_orderly b params
  have hstores := hr.stores hP
  obtain ⟨-, -, horderly⟩ := hstores.mapOf hP a.id
  cases ha : r.isUnroutable a.id with
  | true =>
    rw [findExit_of_isUnroutable ha] at h
    cases h
    exact ⟨rfl, .inl ⟨rfl, (insert_unroutable ha).symm⟩, (CognitiveMap.Reweighs.refl _).learns⟩
  | false =>
    obtain ⟨m', ⟨door, p, -, hexit⟩ | ⟨id, hroute, hexit⟩ | ⟨e', hne, hroute, hexit⟩⟩ :=
      findExit_cases ha time
    all_goals
      rw [hexit] at h
      cases h
    all_goals
      obtain ⟨-, hlearns, hfails⟩ :=
        learns_of_route_error hstores.founded.configured horderly.wellFormed hroute
      have hstored : (r.mapOf a.id).Learns ((r.withMap a.id m').mapOf a.id) := by
        rwa [mapOf_withMap, if_pos rfl]
      cases hfails
    · exact ⟨rfl, .inl ⟨rfl, rfl⟩, hstored⟩
    · exact ⟨rfl, .inr ⟨⟨_, rfl⟩, rfl⟩, hstored⟩
    · exact absurd rfl (hne a.id)

/-- In every state of a router, whatever the hazard, a request that fails leaves the person as
before, with the destination and the way there. The person's map knows all that it knew, under the
same numbers, and remembers the same destinations and the same subroom. What is stored about other
people stays. Nobody is refused because a sensor has failed, and otherwise the person and nobody
else is. -/
theorem findExit_unanswered (hr : Reachable b params r)
    (h : r.findExit a time = (r', a', .error e)) :
    a' = a ∧
    (r.mapOf a.id).Learns (r'.mapOf a.id) ∧
    (r'.mapOf a.id).history = (r.mapOf a.id).history ∧
    (r'.mapOf a.id).lastSubRoom = (r.mapOf a.id).lastSubRoom ∧
    ((r.maps.find? a.id).isSome = true → (r'.maps.find? a.id).isSome = true) ∧
    (∀ id, id ≠ a.id → r.AgreesOn r' id) ∧
    ((e = .unroutable a.id ∧ r'.unroutable = r.unroutable.insert a.id ()) ∨
      (∃ error, e = .sensor error) ∧ r'.unroutable = r.unroutable) := by
  obtain ⟨hsame, hrefusals, hlearns⟩ := findExit_error_cases hr h
  have hfst : (r.findExit a time).1 = r' := by rw [h]
  refine ⟨hsame, hlearns, ?_, ?_, ?_, ?_, hrefusals⟩
  · rw [← hlearns.kept]
  · rw [← hlearns.kept]
  · intro hstored
    rw [← hfst]
    exact isSome_find?_findExit hstored a time
  · intro id hid
    rw [← hfst]
    exact agreesOn_findExit r a time hid

section
open Exact

/-- Somebody with the number of the visitor who is nowhere in the pavilion. -/
noncomputable def stray : Pedestrian Exact := .standing 7 0 6 ⟨real 1, real 1⟩

/-- The visitor has been sent to the door of the pavilion, and then asks from nowhere. That fails,
and the door is still the one to keep in the foyer. -/
theorem findExit_unanswered_pavilion : ∃ (r r' : Router Exact) (e : RouterError Exact),
    Reachable pavilion .standard r ∧ r.findExit stray (real 1) = (r', stray, .error e) ∧
    keptDoor? (r.mapOf 7) 5 = some 3 ∧ keptDoor? (r'.mapOf 7) 5 = some 3 := by
  obtain ⟨r₀, r, a', hnew, hreach, hexit⟩ := exists_sent_pavilion
  have hreach₀ : Reachable pavilion .standard r₀ := ⟨r₀, hnew, .refl⟩
  obtain ⟨hroutable, -⟩ := hreach₀.exists_responds hexit
  obtain ⟨m, hm, hkept⟩ := hreach₀.exists_keptDoor? hexit
  have hmapOf : r.mapOf stray.id = m := by
    rw [mapOf, show r.maps.find? stray.id = some m from hm, Option.getD_some]
  have hwf := made_pavilion.wellFormed
  rcases (hreach.serves hwf).findExit_spec hwf (a := stray) hroutable (real 1) with
    ⟨r', p, door, -, hopens⟩ | ⟨r', e, hfails, -⟩
  · obtain rfl := eq_of_opensFrom_pavilion hopens
    obtain ⟨d, hd, -, hconn⟩ := hopens
    cases hd
    cases hconn
  · obtain ⟨-, hlearns, -⟩ := findExit_unanswered hreach hfails
    rw [hmapOf] at hlearns
    refine ⟨r, r', e, hreach, hfails, ?_, keptDoor?_learns hlearns hkept⟩
    rw [show r.mapOf 7 = m from hmapOf]
    exact hkept

end

end Egress.Router
