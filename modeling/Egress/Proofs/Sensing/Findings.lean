import Egress.Proofs.Network.Rewriting
import Egress.Proofs.Outcome
import Egress.Sensing.Sensor

/-!
# What sensors find

Circulation, congestion and danger first find a factor for each edge that concerns them and then
write all of them, or none if one cannot be found. What they find depends on where doors are and
where they lead, and on no factor, so it is the same in all networks that differ in factors only.
-/
namespace Egress.Sensor

variable {α : Type}

/-- The sensors that find factors for edges before they write any of them. -/
structure Surveys (s : Sensor α) : Prop where
  ne_discovery : s ≠ .discovery
  ne_recency : ∀ r, s ≠ .recency r

lemma surveys_circulation : (circulation : Sensor α).Surveys := ⟨nofun, nofun⟩

lemma surveys_congestion (c : Congestion α) : (congestion c).Surveys := ⟨nofun, nofun⟩

lemma surveys_danger (quantity : HazardQuantity) : (danger quantity : Sensor α).Surveys :=
  ⟨nofun, nofun⟩

lemma eq_or_surveys (s : Sensor α) : s = .discovery ∨ (∃ r, s = .recency r) ∨ s.Surveys := by
  cases s with
  | discovery => exact .inl rfl
  | recency r => exact .inr (.inl ⟨r, rfl⟩)
  | circulation => exact .inr (.inr surveys_circulation)
  | congestion c => exact .inr (.inr (surveys_congestion c))
  | danger quantity => exact .inr (.inr (surveys_danger quantity))

lemma Surveys.name_ne_recency {s : Sensor α} (hs : s.Surveys) : s.name ≠ Recency.name := by
  cases s with
  | discovery => exact absurd rfl hs.ne_discovery
  | recency r => exact absurd rfl (hs.ne_recency r)
  | _ => simp [name, Circulation.name, Congestion.name, Danger.name, Recency.name]

variable [Scalar α]

/-- The factors that a sensor finds, under the numbers of their edges. -/
def findings (s : Sensor α) (a : Pedestrian α) (g : Network α) (env : Surroundings α) :
    Except (SensorError α) (List (EdgeId × α)) :=
  match s with
  | .discovery | .recency _ => .ok []
  | .circulation => g.edges.toList.mapM (Circulation.edgeFactor g env)
  | .congestion c => do return (← g.edges.toList.mapM (c.edgeFactor g env)).filterMap id
  | .danger quantity =>
    ((g.outEdges a.subroom).filterMap fun e => (g.edge? e).map (e, ·)).mapM
      (Danger.edgeFactor quantity a env)

variable {s : Sensor α} {a : Pedestrian α} {m : CognitiveMap α} {env : Surroundings α}
  {g g' : Network α} {values : List (EdgeId × α)}

/-- All that has been found is written. -/
theorem run_of_findings (hs : s.Surveys) (h : s.findings a m.network env = .ok values) :
    s.run a m env = (m.setFactors s.name env.time values, .ok ()) := by
  cases s with
  | discovery => exact absurd rfl hs.ne_discovery
  | recency r => exact absurd rfl (hs.ne_recency r)
  | circulation =>
    have hrun : Circulation.run m env = .ok (m.setFactors Circulation.name env.time values) :=
      bind_eq_ok_iff.2 ⟨values, h, rfl⟩
    simp only [run, hrun, name]
  | congestion c =>
    obtain ⟨found, hfound, hvalues⟩ := bind_eq_ok_iff.1 h
    have hrun : c.run m env = .ok (m.setFactors Congestion.name env.time values) :=
      bind_eq_ok_iff.2 ⟨found, hfound, by rw [← Except.ok.inj hvalues]; rfl⟩
    simp only [run, hrun, name]
  | danger quantity =>
    have hrun : Danger.run quantity a m env = .ok (m.setFactors Danger.name env.time values) :=
      bind_eq_ok_iff.2 ⟨values, h, rfl⟩
    simp only [run, hrun, name]

theorem run_of_findings_error (hs : s.Surveys) {e : SensorError α}
    (h : s.findings a m.network env = .error e) : s.run a m env = (m, .error e) := by
  cases s with
  | discovery => exact absurd rfl hs.ne_discovery
  | recency r => exact absurd rfl (hs.ne_recency r)
  | circulation =>
    have hrun : Circulation.run m env = .error e := bind_eq_error_iff.2 (.inl h)
    simp only [run, hrun]
  | congestion c =>
    have hfound : m.network.edges.toList.mapM (c.edgeFactor m.network env) = .error e := by
      simpa using bind_eq_error_iff.1 h
    have hrun : c.run m env = .error e := bind_eq_error_iff.2 (.inl hfound)
    simp only [run, hrun]
  | danger quantity =>
    have hrun : Danger.run quantity a m env = .error e := bind_eq_error_iff.2 (.inl h)
    simp only [run, hrun]

theorem findings_mapFactors (s : Sensor α) (a : Pedestrian α) (g : Network α)
    (env : Surroundings α) (f : FactorBag α → FactorBag α) :
    s.findings a (g.mapFactors f) env = s.findings a g env := by
  cases s with
  | discovery => rfl
  | recency r => rfl
  | circulation =>
    have hedge (edge : Edge α) : Circulation.edgeFactor (g.mapFactors f) env
        (edge.withFactors (f edge.factors)) = Circulation.edgeFactor g env edge := by
      simp only [Circulation.edgeFactor, Network.destSubRoom?_mapFactors,
        Network.subroomAt?_mapFactors]
      rfl
    rw [findings, Network.toList_edges_mapFactors, List.mapM_map]
    exact congrArg (List.mapM · _) (funext hedge)
  | congestion c =>
    have hedge (edge : Edge α) : c.edgeFactor (g.mapFactors f) env
        (edge.withFactors (f edge.factors)) = c.edgeFactor g env edge := by
      simp only [Congestion.edgeFactor, Congestion.atEdge, Network.destSubRoom?_mapFactors,
        Network.subroomAt?_mapFactors]
      rfl
    rw [findings, Network.toList_edges_mapFactors, List.mapM_map]
    exact congrArg (fun find => (List.mapM find g.edges.toList >>= _)) (funext hedge)
  | danger quantity =>
    have hout : ((g.mapFactors f).outEdges a.subroom).filterMap
          (fun e => ((g.mapFactors f).edge? e).map (e, ·)) =
        ((g.outEdges a.subroom).filterMap fun e => (g.edge? e).map (e, ·)).map
          fun entry => (entry.1, entry.2.withFactors (f entry.2.factors)) := by
      rw [List.map_filterMap]
      refine congrArg (List.filterMap · _) (funext fun e => ?_)
      rw [Network.edge?_mapFactors, Option.map_map, Option.map_map]
      rfl
    rw [findings, hout, List.mapM_map]
    rfl

theorem findings_reweigh (h : g.Reweighs g') (s : Sensor α) (a : Pedestrian α)
    (env : Surroundings α) : s.findings a g' env = s.findings a g env := by
  rw [← s.findings_mapFactors a g' env fun _ => .empty, h.mapFactors_const,
    s.findings_mapFactors]

end Egress.Sensor
