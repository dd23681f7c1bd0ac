import Egress.Proofs.Exact
import Egress.Proofs.Field.FloorFields
import Egress.Proofs.Field.Target
import Egress.Proofs.Router.Answers

/-!
# Steering towards the doors that a router answers

The router takes its doors from a network of the building, the floor fields theirs from plans of
its zones. Both take the open doors of the person's subroom, so towards every door that is answered
there is a field where the person is steered.
-/
namespace Egress.Router

variable {α : Type} [Scalar α] {b : Building α} {params : RouterParams α} {r r' : Router α}
  {a a' : Pedestrian α} {door : DoorId} {time : α}

lemma Serves.opensFrom_of_findExit (h : r.Serves b params) (hb : b.WellFormed)
    (hexit : r.findExit a time = (r', a', .ok door)) : b.OpensFrom a.subroom door := by
  cases ha : r.isUnroutable a.id with
  | true =>
    rw [findExit_of_isUnroutable ha] at hexit
    cases hexit
  | false =>
    rcases h.findExit_spec hb ha time with ⟨r'', a'', door', hanswer, hopens⟩ | ⟨r'', e, herror, -⟩
    · rw [hanswer] at hexit
      cases hexit
      exact hopens
    · rw [herror] at hexit
      cases hexit

/-- Steering by floor fields has a field towards every door that a router of the same building
answers. It is what people are steered by who head for the door from where it was answered, and
the only questions that it leaves open are those of positions with no cell to be read at. -/
theorem findExit_steered (hb : b.Made) (hr : Reachable b params r) {st : Steering α}
    {fieldParams : FieldParams α} (hst : Steering.ofBuilding b fieldParams = .ok st)
    (hgran : fieldParams.granularity ≠ .none)
    (hexit : r.findExit a time = (r', a', .ok door))
    (hroom : ∀ sub, b.subroom? a.subroom = some sub → sub.room = a.room) :
    ∃ f z field, st.fields = some f ∧ f.zone (f.zoneFor a.room a.subroom) = .ok z ∧
      z.fields.find? door = some field ∧ field.target = door ∧
      ∀ p : Pedestrian α, p.room = a.room → p.subroom = a.subroom →
        p.destination = some door →
        f.directionTo (f.zoneFor p.room p.subroom) door p.position =
            (z.grid.queryCell p.position).map (fun c => field.direction.getD c .zero) ∧
          f.costTo (f.zoneFor p.room p.subroom) door p.position =
            (z.grid.queryCell p.position).map (fun c => field.cost.getD c Scalar.infinity) ∧
          st.target b p =
            (f.directionTo (f.zoneFor p.room p.subroom) door p.position).map (p.position + ·) ∧
          st.remaining b p = f.costTo (f.zoneFor p.room p.subroom) door p.position ∧
          ∀ e, z.grid.queryCell p.position = .error e →
            e = .outsideGrid z.grid.zone p.position ∨ e = .noFreeCell z.grid.zone p.position := by
  have hopens := (hr.serves hb.wellFormed).opensFrom_of_findExit hb.wellFormed hexit
  obtain ⟨d, hd, -, hconn⟩ := id hopens
  obtain ⟨sub, hsub⟩ := hb.wellFormed.exists_side door d a.subroom hd hconn
  obtain ⟨f, hf, hfields⟩ := Steering.exists_fields_of_ofBuilding hst hgran
  obtain ⟨z, field, hz, hfield, htarget⟩ :=
    FloorFields.exists_field_of_ofBuilding hb hfields hsub hopens
  rw [hroom sub hsub] at hz
  refine ⟨f, z, field, hf, hz, hfield, htarget, fun p hproom hpsub hp => ?_⟩
  rw [← hproom, ← hpsub] at hz
  refine ⟨FloorFields.directionTo_eq hz hfield p.position,
    FloorFields.costTo_eq hz hfield p.position, Steering.target_eq hf hz hfield hp,
    Steering.remaining_eq hf hz hfield hp, fun e he => ZoneGrid.queryCell_eq_error he⟩

section
open Exact FloorPlan

/-- A square room without walls. -/
noncomputable def yard (side : ℝ) : SubRoom Exact where
  uid := 0
  room := 0
  kind := .entrance
  polygon := .rectangle ⟨real 0, real 0⟩ ⟨real side, real side⟩
  walls := []
  obstacles := []
  elevation := real 0
  doors := []

/-- A building that is one yard with a door along its whole lower side. -/
noncomputable def court (side : ℝ) : Building Exact where
  caption := "court"
  rooms := (OrderedMap.empty.insert 0 ⟨0, "", []⟩).insert 0 ⟨0, "", [0]⟩
  subrooms := (OrderedMap.empty.insert 0 (yard side)).insert 0 { yard side with doors := [0] }
  doors := OrderedMap.empty.insert 0
    ⟨0, .transition, ⟨⟨real 0, real 0⟩, ⟨real side, real 0⟩⟩, 0, none, true⟩

lemma made_court (side : ℝ) : (court side).Made := by
  have hroom : (Building.named "court" : Building Exact).addRoom 0 "" = .ok _ := rfl
  have hyard := Building.Made.addSubRoom (.addRoom (.named "court") hroom)
    (show Building.addSubRoom _ (yard side) = .ok _ from rfl)
  exact @Building.Made.addDoor Exact _ _ 0 .transition ⟨⟨real 0, real 0⟩, ⟨real side, real 0⟩⟩
    0 none hyard rfl

/-- Steering in rooms, on cells of one meter. -/
noncomputable def courtParams : FieldParams Exact :=
  ⟨real 1, real 0, .even, .centre, .room, 0⟩

lemma exists_steering_court : ∃ st, Steering.ofBuilding (court 2) courtParams = .ok st := by
  have hone : (0 : Exact) < real 1 := by
    rw [zero_eq, real_lt_real]
    exact one_pos
  have hsize : RectGrid.checkCellSize (real 1) = .ok () := if_pos ⟨hone, rfl⟩
  have hplans : FloorFields.plansOf (court 2) .room = .ok [square 2] := rfl
  obtain ⟨z, hz⟩ := exists_ofGrid rasterize_square courtParams
  have hfields : FloorFields.ofPlans [square 2] courtParams =
      .ok ⟨courtParams, .ofList [((square 2).zone, z)]⟩ := by
    simp only [FloorFields.ofPlans, courtParams, hsize, ok_bind, List.mapM_cons, List.mapM_nil,
      rasterize_square, pure_eq_ok] at hz ⊢
    rw [hz]
    rfl
  exact ⟨_, bind_eq_ok_iff.2 ⟨_, bind_eq_ok_iff.2 ⟨_, hplans, hfields⟩, rfl⟩⟩

/-- A person in the court is sent to its door and walks where the field of the court leads. -/
theorem findExit_court : ∃ (r r' : Router Exact) (a' : Pedestrian Exact) (st : Steering Exact),
    Reachable (court 2) .standard r ∧ Steering.ofBuilding (court 2) courtParams = .ok st ∧
      r.findExit (.standing 7 0 0 ⟨real 1, real 1⟩) (real 0) = (r', a', .ok 0) ∧
      ∃ f z field, st.fields = some f ∧ f.zone (f.zoneFor 0 0) = .ok z ∧
        z.fields.find? 0 = some field ∧
        ∀ p : Pedestrian Exact, p.room = 0 → p.subroom = 0 → p.destination = some 0 →
          st.remaining (court 2) p =
            (z.grid.queryCell p.position).map fun c => field.cost.getD c Scalar.infinity := by
  have hnew : Router.new (court 2) .standard = .ok _ := rfl
  have hreach : Reachable (court 2) .standard _ := ⟨_, hnew, .refl⟩
  have hopen : (court 2).OpensFrom 0 0 := ⟨_, rfl, rfl, rfl⟩
  obtain ⟨st, hst⟩ := exists_steering_court
  have hwf := (made_court 2).wellFormed
  rcases (hreach.serves hwf).findExit_spec hwf (a := .standing 7 0 0 ⟨real 1, real 1⟩) rfl
    (real 0) with ⟨r', a', door, hexit, hopens⟩ | ⟨r', e, -, hrefuses⟩
  · obtain ⟨d, hd, -⟩ := id hopens
    obtain rfl : door = 0 := by
      by_contra hne
      rw [Building.door?, court, OrderedMap.find?_insert_of_ne _ hne] at hd
      cases hd
    have hgran : courtParams.granularity ≠ .none := by decide
    have hroom : ∀ sub, (court 2).subroom? 0 = some sub → sub.room = 0 := by
      intro sub hsub
      rw [← Option.some.inj hsub]
      rfl
    obtain ⟨f, z, field, hf, hz, hfield, -, hsteer⟩ :=
      findExit_steered (made_court 2) hreach hst hgran hexit hroom
    refine ⟨_, r', a', st, hreach, hst, hexit, f, z, field, hf, hz, hfield, ?_⟩
    intro p hproom hpsub hp
    obtain ⟨-, hcost, -, hremaining, -⟩ := hsteer p hproom hpsub hp
    exact hremaining.trans hcost
  · refine absurd hopen ((hrefuses ⟨?_, _, rfl⟩).2 (.inl rfl) 0)
    intro f hf
    cases hf

end

end Egress.Router
