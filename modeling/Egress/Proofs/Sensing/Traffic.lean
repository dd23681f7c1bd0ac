import Egress.Proofs.Exact
import Egress.Proofs.Sensing.Suite

/-!
# Who heads for which door

The record of a door lists the people who head for it in the order in which they were recorded.
Sensing adds up what they weigh, which in exact arithmetic does not depend on that order.
-/
namespace Egress
namespace Traffic

variable {α : Type} [Scalar α]

/-- The two records have the same people at each door, perhaps in another order. -/
def Reorders (t t' : Traffic α) : Prop :=
  ∀ door, (t.approaching door).Perm (t'.approaching door)

lemma approaching_record (t : Traffic α) (a : Pedestrian α) (door : DoorId) :
    (t.record a).approaching door = t.approaching door ++
      if a.destination = some door then [⟨a.id, a.subroom, a.speed⟩] else [] := by
  unfold record
  cases hdest : a.destination with
  | none => simp
  | some door' =>
    rw [approaching, OrderedMap.find?_insert]
    by_cases hdoor : door = door'
    · subst hdoor
      simp
    · have hne : some door' ≠ some door := fun h => hdoor (Option.some.inj h).symm
      rw [if_neg hdoor, if_neg hne, List.append_nil, approaching]

theorem approaching_ofAgents (agents : List (Pedestrian α)) (door : DoorId) :
    (ofAgents agents).approaching door = (agents.filter (·.destination = some door)).map
      fun a => ⟨a.id, a.subroom, a.speed⟩ := by
  have hfold (agents : List (Pedestrian α)) (t : Traffic α) :
      approaching (agents.foldl record t) door = t.approaching door ++
        (agents.filter (·.destination = some door)).map fun a => ⟨a.id, a.subroom, a.speed⟩ := by
    induction agents generalizing t with
    | nil => simp
    | cons a agents ih =>
      rw [List.foldl_cons, ih, approaching_record, List.append_assoc]
      by_cases hdest : a.destination = some door
      · simp [hdest]
      · simp [hdest]
  exact hfold agents .empty

/-- The order of the people makes no difference but to the order at each door. -/
theorem reorders_ofAgents {agents agents' : List (Pedestrian α)} (h : agents.Perm agents') :
    (ofAgents agents).Reorders (ofAgents agents') := by
  intro door
  rw [approaching_ofAgents, approaching_ofAgents]
  exact (h.filter _).map _

end Traffic

variable {a : Pedestrian Exact} {m : CognitiveMap Exact} {env : Surroundings Exact}
  {traffic : Traffic Exact}

lemma Congestion.atEdge_reorder (c : Congestion Exact) (g : Network Exact)
    {t t' : Traffic Exact} (h : t.Reorders t') (e : Edge Exact) (width : Exact) :
    c.atEdge g t' e width = c.atEdge g t e width := by
  unfold Congestion.atEdge
  have hnear := (((h e.door).filter fun a => some a.subroom == g.subroomAt? e.source ||
    some a.subroom == g.destSubRoom? e.id).map fun a => c.agentWeight a.speed)
  exact congrArg (· / width) (Exact.sum_perm hnear).symm

/-- No sensor minds the order in which people were recorded. -/
theorem Sensor.run_reorder (h : env.traffic.Reorders traffic) (s : Sensor Exact) :
    s.run a m { env with traffic } = s.run a m env := by
  cases s with
  | congestion c =>
    have hedge (e : Edge Exact) : c.edgeFactor m.network { env with traffic } e =
        c.edgeFactor m.network env e := by
      unfold Congestion.edgeFactor
      simp only [c.atEdge_reorder m.network h e]
      rfl
    have hrun : c.run m { env with traffic } = c.run m env := by
      unfold Congestion.run
      rw [funext hedge]
    simp only [Sensor.run, hrun]
  | _ => rfl

theorem SensorSuite.fire_reorder (h : env.traffic.Reorders traffic) (events : Events)
    (suite : SensorSuite Exact) (m : CognitiveMap Exact) :
    fire events a { env with traffic } suite m = fire events a env suite m := by
  induction suite generalizing m with
  | nil => rfl
  | cons entry suite ih => simp only [fire, Sensor.run_reorder h, ih]

end Egress
