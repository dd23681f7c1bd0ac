import Egress.Proofs.Router.Circulation
import Egress.Proofs.Sensing.Bounds

/-!
# Every door costs something

New maps have no factors, and neither requests nor updates write any but those of the sensors that
are registered. So the bounds of what these write are bounds for all factors in all states, whatever
order they were written in and whatever failed in between.
-/
namespace Egress.Router

section
variable {α : Type} [Scalar α] {b : Building α} {params : RouterParams α} {r : Router α}
  {m : CognitiveMap α} {P : String → α → Prop}

lemma allFactors_sense (hr : r.Founded b params)
    (hsuite : ∀ s registered, (s, registered) ∈ SensorSuite.ofParams params.sensors → s.Writes P)
    (hm : m.network.AllFactors P) (events : Events) (a : Pedestrian α) (time : α) :
    ((r.sense events a time).run m).2.network.AllFactors P := by
  rw [run_sense, hr.suite_eq]
  exact (SensorSuite.senses_fire events _ m).allFactors hsuite hm

/-- Maps keep what is so of all factors that any sensor writes. -/
lemma preserved_allFactors
    (hsuite : ∀ s registered, (s, registered) ∈ SensorSuite.ofParams params.sensors → s.Writes P) :
    Preserved b params fun _ m => m.network.AllFactors P := by
  refine ⟨?_, ?_, ?_⟩
  · intro id g hg e edge he
    have hempty : edge.factors = .empty := by
      cases hmode : params.mapMode with
      | complete =>
        apply Network.factors_ofBuilding hg (e := e)
        simpa [newMap, CognitiveMap.withDepth, CognitiveMap.new, hmode] using he
      | progressive =>
        simp [newMap, CognitiveMap.withDepth, CognitiveMap.new, hmode, Network.empty,
          Network.edge?] at he
    rw [hempty]
    exact FactorBag.all_empty P
  · intro r a time m hr hm
    have hroute : Ends (r.route a time) m fun _ m' => m'.network.AllFactors P :=
      ends_route_keeps (P := fun m => m.network.AllFactors P)
        (fun events m hm => allFactors_sense hr hsuite hm events a time) (fun _ _ _ hm => hm)
        (fun _ => hm) fun _ => allFactors_sense hr hsuite hm .init a time
    exact hroute
  · intro r a time m hr hm
    exact allFactors_sense hr hsuite hm .periodic a time

end

section
open Exact

variable {b : Building Exact} {params : RouterParams Exact} {r : Router Exact} {id : AgentId}
  {m : CognitiveMap Exact}

/-- In every state of a router for which doors are not congested below one and recent destinations
not rewarded, in whatever building and with whatever hazards, every edge of every map keeps a cost:
no factor is below one but that of circulation, which is at least a tenth, and so is the
multiplier. So it is after any further event. -/
theorem maps_keepCost (hthreshold : 1 ≤ params.sensors.congestionThreshold)
    (hpenalty : 0 ≤ params.sensors.recencyPenalty) (hr : Reachable b params r)
    (hm : r.maps.find? id = some m) :
    (∀ e edge, m.network.edge? e = some edge → edge.KeepsCost) ∧
    ∀ events a time e edge,
      ((r.sense events a time).run m).2.network.edge? e = some edge → edge.KeepsCost := by
  have hsuite : ∀ s registered, (s, registered) ∈ SensorSuite.ofParams params.sensors →
      s.Writes Factor.Bounded :=
    fun _ _ => SensorSuite.writes_least hthreshold hpenalty
  have hstores := hr.stores (preserved_allFactors hsuite)
  have hall := hstores.maps id m hm
  refine ⟨fun e edge he => Edge.keepsCost (hall e edge he), fun events a time e edge he => ?_⟩
  exact Edge.keepsCost (allFactors_sense hstores.founded hsuite hall events a time e edge he)

/-- In the map of a visitor of the villa the door from the chamber into the entrance has the
smallest factor that there is, and costs something all the same. -/
theorem maps_keepCost_villa : ∃ (b : Building Exact) (r : Router Exact) (m : CognitiveMap Exact)
    (e : EdgeId) (edge : Edge Exact), b.Made ∧
    1 ≤ (RouterParams.standard : RouterParams Exact).sensors.congestionThreshold ∧
    0 ≤ (RouterParams.standard : RouterParams Exact).sensors.recencyPenalty ∧
    Reachable b .standard r ∧ r.maps.find? 7 = some m ∧ m.network.edge? e = some edge ∧
    (∃ time, m.network.factor? e Circulation.name = some ⟨0.1, time⟩) ∧ edge.KeepsCost := by
  obtain ⟨b, hmade, ⟨stop, hfive, hstop⟩, ⟨start, hsix, hstart⟩, hdoor⟩ := exists_villa
  have hopens : b.OpensFrom 5 4 ∧ b.OpensFrom 6 4 := ⟨⟨_, hdoor, rfl, rfl⟩, _, hdoor, rfl, rfl⟩
  obtain ⟨-, r, -, m, -, -, hreach, hm⟩ := exists_unanswered hmade ⟨stop, hfive⟩ hopens.1
  have hwf := hmade.wellFormed
  obtain ⟨hsound, -, hmode⟩ := (hreach.serves hwf).maps 7 m hm
  obtain ⟨e, edge, hedge, hfrom, hthrough⟩ := hsound.complete hmode 6 start hsix 4 hopens.2
  obtain ⟨s, d, hd⟩ := hsound.faithful.edge e edge hedge
  obtain rfl : 6 = s := Option.some.inj (hfrom.symm.trans hd.source)
  have hsame := hd.door
  rw [hthrough, hdoor, Option.some.injEq] at hsame
  subst hsame
  have hbehind : edge.dest.bind m.network.subroomAt? = some 5 := (Option.some.inj hd.side).symm
  obtain ⟨w, hw, hto⟩ := Option.bind_eq_some_iff.1 hbehind
  have hsuits : Circulation.Suits b m.network edge (Circulation.factor stop.kind) :=
    .into hw ⟨6, hfrom, hsix⟩ ⟨5, hto, hfive⟩ (by rw [hstart, hstop]; decide)
  have hcirculated := (hreach.stores_of_settles (settles_circulated hwf rfl)).maps 7 m hm
  obtain ⟨x, time, hfactor, hx⟩ := hcirculated.network e edge hedge
  rw [hx.unique hsuits, hstop] at hfactor
  have hthreshold : (1 : Exact) ≤ ((10 : ℕ) : Exact) := by
    rw [one_eq, natCast_eq, real_le_real]
    norm_num
  have hpenalty : 0 ≤ (RouterParams.standard : RouterParams Exact).sensors.recencyPenalty :=
    Exact.le_of_lt zero_lt_one
  exact ⟨b, r, m, e, edge, hmade, hthreshold, hpenalty, hreach, hm, hedge, ⟨time, hfactor⟩,
    (maps_keepCost hthreshold hpenalty hreach hm).1 e edge hedge⟩

end

end Egress.Router
