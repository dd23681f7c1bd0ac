import Egress.Proofs.Network.Cheapest
import Egress.Proofs.Sensing.Firing

/-!
# Sensors that do not disturb each other

What a sensor other than discovery writes depends on the factors of its own name and on no other.
Sensors of different names therefore come to the same in either order, and each of them writes what
it would have written alone.
-/
namespace Egress

variable {α : Type} [Scalar α] {a : Pedestrian α} {m m' : CognitiveMap α} {env : Surroundings α}

omit [Scalar α] in
lemma CognitiveMap.Reweighs.historyDoors_eq (h : m.Reweighs m') :
    m'.historyDoors = m.historyDoors := by
  rw [← h.kept, historyDoors, historyDoors]
  congr 1
  funext e
  obtain ⟨bag, hbag⟩ := h.network.edge e
  rw [hbag, Option.map_map]
  rfl

omit [Scalar α] in
theorem CognitiveMap.Reweighs.ext {m₁ m₂ : CognitiveMap α} (h₁ : m.Reweighs m₁)
    (h₂ : m.Reweighs m₂)
    (h : ∀ e name, m₁.network.factor? e name = m₂.network.factor? e name) : m₁ = m₂ := by
  rw [← h₁.kept, ← h₂.kept, h₁.network.ext h₂.network h]

/-- The factor after an update is that of the door in the history. Without one it is neutral if
there was a factor before. -/
lemma Recency.find?_update_self (factors : OrderedMap DoorId α) (time : α) (edge : Edge α) :
    (update factors time edge).factors.find? Recency.name =
      ((factors.find? edge.door).or
        ((edge.factors.find? Recency.name).map fun _ => 1)).map (⟨·, time⟩) := by
  unfold update
  cases factors.find? edge.door with
  | some f => exact OrderedMap.find?_insert_self _ _ _
  | none =>
    cases hbefore : edge.factors.find? Recency.name with
    | none => simp [OrderedMap.contains, hbefore]
    | some v =>
      have hcontains : edge.factors.contains Recency.name = true := by
        simp [OrderedMap.contains, hbefore]
      simp only [hcontains, if_true]
      exact OrderedMap.find?_insert_self _ _ _

lemma Recency.factor?_run (r : Recency α) (m : CognitiveMap α) (env : Surroundings α)
    (e : EdgeId) : (r.run m env).network.factor? e Recency.name =
      (m.network.edge? e).bind fun edge => (((r.doorFactors m.historyDoors).find? edge.door).or
        ((edge.factors.find? Recency.name).map fun _ => 1)).map (⟨·, env.time⟩) := by
  rw [Network.factor?, r.edge?_run, Option.bind_map]
  congr 1
  funext edge
  exact find?_update_self _ _ edge

lemma Recency.run_local (r : Recency α) (h : m.Reweighs m')
    (hown : ∀ e, m'.network.factor? e Recency.name = m.network.factor? e Recency.name)
    (env : Surroundings α) (e : EdgeId) :
    (r.run m' env).network.factor? e Recency.name =
      (r.run m env).network.factor? e Recency.name := by
  obtain ⟨bag, hbag⟩ := h.network.edge e
  have hbefore := hown e
  rw [Network.factor?, Network.factor?, hbag] at hbefore
  rw [r.factor?_run, r.factor?_run, hbag, h.historyDoors_eq]
  cases hedge : m.network.edge? e with
  | none => rfl
  | some edge =>
    rw [hedge] at hbefore
    simp only [Option.map_some, Option.bind_some] at hbefore ⊢
    rw [hbefore]
    rfl

namespace Sensor

variable {s s' : Sensor α}

/-- Of factors, a sensor minds those of its own name only. -/
theorem run_local (hs : s ≠ .discovery) (h : m.Reweighs m')
    (hown : ∀ e, m'.network.factor? e s.name = m.network.factor? e s.name) (a : Pedestrian α)
    (env : Surroundings α) : (s.run a m' env).2 = (s.run a m env).2 ∧
      ∀ e, (s.run a m' env).1.network.factor? e s.name =
        (s.run a m env).1.network.factor? e s.name := by
  rcases s.eq_or_surveys with hdiscovery | ⟨r, rfl⟩ | hsurveys
  · exact absurd hdiscovery hs
  · exact ⟨rfl, r.run_local h hown env⟩
  · have hsame := s.findings_reweigh h.network a env
    cases hfound : s.findings a m.network env with
    | error e =>
      rw [run_of_findings_error hsurveys hfound,
        run_of_findings_error hsurveys (hsame.trans hfound)]
      exact ⟨rfl, hown⟩
    | ok values =>
      rw [run_of_findings hsurveys hfound, run_of_findings hsurveys (hsame.trans hfound)]
      exact ⟨rfl, Network.factor?_setFactors_congr h.network hown env.time values⟩

lemma factor?_run_of_ne {name : String} (h : name ≠ s.name) (e : EdgeId) :
    (s.run a m env).1.network.factor? e name = m.network.factor? e name := by
  rcases s.run_updates a m env e name with hsame | ⟨hname, -⟩
  · exact hsame
  · exact absurd hname h

/-- A sensor does and answers the same after one of another name. -/
lemma run_after (hs : s ≠ .discovery) (hs' : s' ≠ .discovery) (hname : s.name ≠ s'.name)
    (a : Pedestrian α) (m : CognitiveMap α) (env : Surroundings α) :
    (s.run a (s'.run a m env).1 env).2 = (s.run a m env).2 ∧
      ∀ e, (s.run a (s'.run a m env).1 env).1.network.factor? e s.name =
        (s.run a m env).1.network.factor? e s.name :=
  run_local hs (reweighs_run hs') (factor?_run_of_ne hname) a env

/-- Sensors of different names come to the same in either order. -/
theorem run_comm (hs : s ≠ .discovery) (hs' : s' ≠ .discovery) (hname : s.name ≠ s'.name)
    (a : Pedestrian α) (m : CognitiveMap α) (env : Surroundings α) :
    (s'.run a (s.run a m env).1 env).1 = (s.run a (s'.run a m env).1 env).1 := by
  refine CognitiveMap.Reweighs.ext ((reweighs_run hs).trans (reweighs_run hs'))
    ((reweighs_run hs').trans (reweighs_run hs)) fun e name => ?_
  by_cases hown : name = s.name
  · subst hown
    rw [factor?_run_of_ne hname, (run_after hs hs' hname a m env).2]
  · by_cases hown' : name = s'.name
    · subst hown'
      rw [(run_after hs' hs hname.symm a m env).2, factor?_run_of_ne hname.symm]
    · rw [factor?_run_of_ne hown', factor?_run_of_ne hown, factor?_run_of_ne hown,
        factor?_run_of_ne hown']

/-- Danger is written on edges out of the person's subroom. -/
lemma edge?_run_danger {quantity : HazardQuantity} {e : EdgeId}
    (he : e ∉ m.network.outEdges a.subroom) :
    ((danger quantity).run a m env).1.network.edge? e = m.network.edge? e := by
  cases hfound : (danger quantity).findings a m.network env with
  | error error => rw [run_of_findings_error (surveys_danger quantity) hfound]
  | ok values =>
    rw [run_of_findings (surveys_danger quantity) hfound]
    refine Network.edge?_setFactors_of_not_mem _ _ _ fun v hv heq => he ?_
    obtain ⟨⟨e', edge⟩, hmem, hfactor⟩ := exists_of_mem_mapM hfound hv
    obtain ⟨intensity, -, hvalue⟩ := bind_eq_ok_iff.1 hfactor
    obtain ⟨e'', hout, hlisted⟩ := List.mem_filterMap.1 hmem
    obtain ⟨edge', -, hpair⟩ := Option.map_eq_some_iff.1 hlisted
    have hfst : v.1 = e'' := by
      rw [← Except.ok.inj hvalue]
      exact (congrArg Prod.fst hpair).symm
    rw [← heq, hfst]
    exact hout

/-- A sensor other than discovery changes nothing of a map but factors of its own name, those of
danger on edges out of the person's subroom, and nothing at all if it fails. Two such sensors of
different names answer the same in either order, and leave the same map with the factors that each
of them writes alone. -/
theorem run_framed_comm (hs : s ≠ .discovery) (a : Pedestrian α) (m : CognitiveMap α)
    (env : Surroundings α) :
    m.Reweighs (s.run a m env).1 ∧
    (∀ e name, name ≠ s.name →
      (s.run a m env).1.network.factor? e name = m.network.factor? e name) ∧
    (∀ quantity, s = .danger quantity → ∀ e, e ∉ m.network.outEdges a.subroom →
      (s.run a m env).1.network.edge? e = m.network.edge? e) ∧
    (∀ error, (s.run a m env).2 = .error error → (s.run a m env).1 = m) ∧
    ∀ s' : Sensor α, s' ≠ .discovery → s'.name ≠ s.name →
      (s'.run a (s.run a m env).1 env).2 = (s'.run a m env).2 ∧
      (s.run a (s'.run a m env).1 env).2 = (s.run a m env).2 ∧
      (s'.run a (s.run a m env).1 env).1 = (s.run a (s'.run a m env).1 env).1 ∧
      ∀ e name, (s'.run a (s.run a m env).1 env).1.network.factor? e name =
        if name = s'.name then (s'.run a m env).1.network.factor? e name
        else (s.run a m env).1.network.factor? e name := by
  refine ⟨reweighs_run hs, fun e name hname => factor?_run_of_ne hname e, ?_,
    fun error => run_eq_of_error hs, fun s' hs' hname => ?_⟩
  · rintro quantity rfl e he
    exact edge?_run_danger he
  · have hafter' := run_after hs' hs hname a m env
    refine ⟨hafter'.1, (run_after hs hs' hname.symm a m env).1,
      run_comm hs hs' hname.symm a m env, fun e name => ?_⟩
    split
    · rename_i hown
      subst hown
      exact hafter'.2 e
    · rename_i hother
      exact factor?_run_of_ne hother e

section
open Exact

/-- A person who stands in the hall. -/
noncomputable def guest : Pedestrian Exact := .standing 7 0 0 ⟨real 1, real 1⟩

/-- The guest's map, with the door of the hall for the latest destination. -/
noncomputable def guestMap : CognitiveMap Exact :=
  (CognitiveMap.new 7 .complete Network.hallNetwork).addDestination 0

/-- Nobody is about in the hall, and nothing is known of hazards. -/
noncomputable def quiet : Surroundings Exact := ⟨Network.hall, real 0, .empty, none⟩

/-- At the door of the hall, danger and the latest destination are written in either order. -/
theorem run_framed_comm_hall :
    ((danger .smokeDensity).run guest guestMap quiet).2 = .ok () ∧
    ((recency ⟨3, real 1⟩).run guest guestMap quiet).2 = .ok () ∧
    ((recency ⟨3, real 1⟩).run guest ((danger .smokeDensity).run guest guestMap quiet).1 quiet).1 =
      ((danger .smokeDensity).run guest ((recency ⟨3, real 1⟩).run guest guestMap quiet).1
        quiet).1 ∧
    0 ∈ guestMap.network.outEdges guest.subroom ∧
    ∀ name ∈ [Danger.name, Recency.name], (((recency ⟨3, real 1⟩).run guest
      ((danger .smokeDensity).run guest guestMap quiet).1 quiet).1.network.factor? 0 name).isSome =
        true := by
  have hdanger : (danger .smokeDensity : Sensor Exact) ≠ .discovery := nofun
  obtain ⟨-, -, -, -, hcomm⟩ := run_framed_comm hdanger guest guestMap quiet
  obtain ⟨-, -, hsame, hfactors⟩ := hcomm (.recency ⟨3, real 1⟩) nofun (by decide)
  have hrecency := Recency.factor?_run ⟨3, real 1⟩ guestMap quiet 0
  refine ⟨rfl, rfl, hsame, List.mem_singleton_self 0, ?_⟩
  intro name hname
  rw [hfactors]
  rcases List.mem_pair.1 hname with rfl | rfl
  · rfl
  · have hown : Recency.name = (recency ⟨3, real 1⟩ : Sensor Exact).name := rfl
    rw [if_pos hown]
    exact congrArg Option.isSome hrecency

end

end Sensor

end Egress
