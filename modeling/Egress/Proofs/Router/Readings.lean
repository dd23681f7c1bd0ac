import Egress.Proofs.Router.Service
import Egress.Proofs.Sensing.Readings

/-!
# Routing by bad readings

Where a source of hazard intensities knows nothing or gives what is no intensity, people are routed
as where there is no hazard. Nothing that a router answers or stores tells sources apart that differ
in such readings only.
-/
namespace Egress.Router

variable {α : Type} [Scalar α]

/-- The router with other readings of the hazard, or none. -/
def withReadings (r : Router α) (hazard : Option (HazardField α)) : Router α := { r with hazard }

/-- The second router is the first, but for a source of hazard intensities that reads alike. -/
def ReadsAlike (r r' : Router α) : Prop :=
  ∃ hazard, ReadAlike r.hazard hazard ∧ r' = r.withReadings hazard

/-- The second operation is the first, but for a source of hazard intensities that reads alike. -/
inductive Operation.ReadsAlike : Operation α → Operation α → Prop
  | same (op : Operation α) : ReadsAlike op op
  | withHazard {hazard hazard' : HazardField α} : ReadAlike (some hazard) (some hazard') →
    ReadsAlike (.withHazard hazard) (.withHazard hazard')

variable {r r' : Router α} {hazard : Option (HazardField α)} {a : Pedestrian α} {time : α}

lemma sense_withReadings (hzero : Scalar.isNaN (0 : α) = false) (h : ReadAlike r.hazard hazard)
    (events : Events) (a : Pedestrian α) (time : α) :
    (r.withReadings hazard).sense events a time = r.sense events a time := by
  have halike : ReadAlike (r.surroundings time).hazard hazard := h
  have hfire (m : CognitiveMap α) : SensorSuite.fire events a
      ((r.withReadings hazard).surroundings time) r.suite m =
        SensorSuite.fire events a (r.surroundings time) r.suite m :=
    SensorSuite.fire_alike hzero halike events r.suite m
  unfold sense
  exact congrArg ExceptT.mk (funext fun m => by rw [← hfire m]; rfl)

lemma route_withReadings (hzero : Scalar.isNaN (0 : α) = false) (h : ReadAlike r.hazard hazard)
    (a : Pedestrian α) (time : α) :
    (r.withReadings hazard).route a time = r.route a time := by
  have hsense (events : Events) := sense_withReadings hzero h events a time
  unfold route redirect choose
  simp only [hsense]

lemma ReadsAlike.findExit (hzero : Scalar.isNaN (0 : α) = false) (h : r.ReadsAlike r')
    (a : Pedestrian α) (time : α) :
    (r.findExit a time).1.ReadsAlike (r'.findExit a time).1 ∧
      (r.findExit a time).2 = (r'.findExit a time).2 := by
  obtain ⟨hazard, halike, rfl⟩ := h
  have hsame : (r.withReadings hazard).findExit a time =
      ((r.findExit a time).1.withReadings hazard, (r.findExit a time).2) := by
    have hrefusal : (r.withReadings hazard).isUnroutable a.id = r.isUnroutable a.id := rfl
    have hmap : (r.withReadings hazard).mapOf a.id = r.mapOf a.id := rfl
    unfold Router.findExit
    rw [hrefusal, hmap, route_withReadings hzero halike]
    split
    · rfl
    · rcases (r.route a time).run (r.mapOf a.id) with ⟨(_ | _ | _ | _ | _) | _, m⟩ <;> rfl
  obtain ⟨maps, refused, hrest⟩ := findExit_rest r a time
  rw [hsame]
  refine ⟨⟨hazard, ?_, rfl⟩, rfl⟩
  rw [hrest]
  exact halike

lemma ReadsAlike.periodicFor (hzero : Scalar.isNaN (0 : α) = false) (h : r.ReadsAlike r')
    (a : Pedestrian α) (time : α) :
    (r.periodicFor a time).1.ReadsAlike (r'.periodicFor a time).1 ∧
      (r.periodicFor a time).2 = (r'.periodicFor a time).2 := by
  obtain ⟨hazard, halike, rfl⟩ := h
  have hsame : (r.withReadings hazard).periodicFor a time =
      ((r.periodicFor a time).1.withReadings hazard, (r.periodicFor a time).2) := by
    have hrefusal : (r.withReadings hazard).isUnroutable a.id = r.isUnroutable a.id := rfl
    have hmap : (r.withReadings hazard).maps.find? a.id = r.maps.find? a.id := rfl
    unfold Router.periodicFor
    rw [hrefusal, hmap, sense_withReadings hzero halike]
    split
    · rfl
    · cases r.maps.find? a.id <;> rfl
  obtain ⟨⟨maps, hmaps⟩, -⟩ := periodicFor_frame r a time
  rw [hsame]
  refine ⟨⟨hazard, ?_, rfl⟩, rfl⟩
  rw [hmaps]
  exact halike

/-- Operations on routers that read alike are answered the same and leave routers that read
alike. -/
theorem ReadsAlike.serve (hzero : Scalar.isNaN (0 : α) = false) (h : r.ReadsAlike r')
    {op op' : Operation α} (hop : op.ReadsAlike op') :
    (serve r op).1.ReadsAlike (serve r' op').1 ∧ (serve r op).2 = (serve r' op').2 := by
  cases hop with
  | withHazard hop =>
    obtain ⟨hazard, -, rfl⟩ := h
    exact ⟨⟨_, hop, rfl⟩, rfl⟩
  | same op =>
    cases op with
    | withHazard hazard =>
      obtain ⟨hazard', -, rfl⟩ := h
      exact ⟨⟨_, fun _ => rfl, rfl⟩, rfl⟩
    | findExit a time =>
      obtain ⟨hlater, hanswer⟩ := h.findExit hzero a time
      exact ⟨hlater, by simp only [Router.serve, hanswer]⟩
    | periodic agents time =>
      have hnoting : (r.noting agents).ReadsAlike (r'.noting agents) := by
        obtain ⟨hazard, halike, rfl⟩ := h
        exact ⟨hazard, halike, rfl⟩
      obtain ⟨hlater, hcount⟩ := periodic_related
        (R := ReadsAlike) (fun _ _ a hr => ReadsAlike.periodicFor hzero hr a time) hnoting
      exact ⟨hlater, by simp only [Router.serve, hcount]⟩
    | removeAgent id =>
      obtain ⟨hazard, halike, rfl⟩ := h
      exact ⟨⟨hazard, halike, rfl⟩, rfl⟩

/-- Whatever is asked of a router, it answers the same with one source of hazard intensities as with
another that gives the same usable readings, and it ends in the same state but for the source: with
the same maps, in all that they show, remember and weigh. -/
theorem run_withReadings (hzero : Scalar.isNaN (0 : α) = false) (r : Router α)
    {hazard hazard' : Option (HazardField α)} (h : ReadAlike hazard hazard')
    {ops ops' : List (Operation α)} (hops : ops.Forall₂ Operation.ReadsAlike ops') :
    (Service.run serve (r.withReadings hazard) ops).2 =
        (Service.run serve (r.withReadings hazard') ops').2 ∧
      ((r.withReadings hazard).after ops).maps = ((r.withReadings hazard').after ops').maps ∧
      ∃ last, (r.withReadings hazard').after ops' =
        ((r.withReadings hazard).after ops).withReadings last := by
  have hstart : (r.withReadings hazard).ReadsAlike (r.withReadings hazard') := ⟨hazard', h, rfl⟩
  obtain ⟨hlast, hresponses⟩ := Service.run_related (R := ReadsAlike)
    (O := Operation.ReadsAlike) (A := Eq) (fun _ _ _ _ hr hop => hr.serve hzero hop) hstart hops
  rw [run_serve_fst, run_serve_fst] at hlast
  obtain ⟨last, -, heq⟩ := hlast
  refine ⟨?_, by rw [heq]; rfl, last, heq⟩
  rwa [List.forall₂_eq_eq_eq] at hresponses

section
open Exact

/-- The visitor of the pavilion is sent to its door, updated and forgotten with the same answers
where every reading is no number as where there is no hazard. -/
theorem run_withReadings_pavilion : ∃ (r : Router Exact) (a : Pedestrian Exact)
    (rest : List (Response Exact)), Router.new pavilion .standard = .ok r ∧
    (Service.run serve (r.withReadings none) [.findExit visitor (real 0),
      .periodic [visitor] (real 1), .removeAgent 7]).2 = .sent a (.ok 3) :: rest ∧
    (Service.run serve (r.withReadings (some ⟨fun _ => .ok nan⟩)) [.findExit visitor (real 0),
      .periodic [visitor] (real 1), .removeAgent 7]).2 = .sent a (.ok 3) :: rest := by
  obtain ⟨r, r₁, a, hnew, -, hexit⟩ := exists_sent_pavilion
  have hclear : r.withReadings none = r := by
    obtain rfl := Except.ok.inj hnew
    rfl
  have hnan : ReadAlike none (some (⟨fun _ => .ok nan⟩ : HazardField Exact)) := by
    intro q
    simp [reading, usable]
  have hsame := run_withReadings rfl r hnan (List.forall₂_same.2 fun op _ => .same op :
    [Operation.findExit visitor (real 0), .periodic [visitor] (real 1), .removeAgent 7].Forall₂
      Operation.ReadsAlike _)
  have hfirst : (Service.run serve (r.withReadings none) [.findExit visitor (real 0),
      .periodic [visitor] (real 1), .removeAgent 7]).2 = .sent a (.ok 3) ::
        (Service.run serve r₁ [.periodic [visitor] (real 1), .removeAgent 7]).2 := by
    rw [hclear, Service.run, serve, hexit]
  exact ⟨r, a, _, hnew, hfirst, hsame.1.symm.trans hfirst⟩

end

end Egress.Router
