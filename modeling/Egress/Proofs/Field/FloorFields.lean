import Egress.Field.Steering
import Egress.Proofs.Building
import Egress.Proofs.Field.Workers
import Egress.Proofs.Grid.Query

/-!
# Floor fields for every open door

The plan of a zone has each open door of its subrooms as a target, laying it out keeps the targets,
and each of them gets a field whatever worker it is given to. So in floor fields that have been
built there is a field towards every open door of a subroom, in the zone in which people in that
subroom are steered, and steering towards such a door depends on nothing but the cell at which the
field is read.
-/
namespace Egress

variable {α : Type}

namespace FloorPlan

lemma withDoors_cons (plan : FloorPlan α) (d : Door α) (ds : List (Door α)) :
    plan.withDoors (d :: ds) = (plan.withDoors [d]).withDoors ds := rfl

@[simp] lemma zone_withDoors (plan : FloorPlan α) (ds : List (Door α)) :
    (plan.withDoors ds).zone = plan.zone := by
  induction ds generalizing plan with
  | nil => rfl
  | cons d ds ih =>
    rw [withDoors_cons, ih]
    simp only [withDoors, List.foldl_cons, List.foldl_nil]
    split <;> rfl

/-- An open door becomes a target, and no door takes a target away. -/
lemma exists_target_withDoors {plan : FloorPlan α} {ds : List (Door α)} {uid : DoorId}
    (h : (∃ line, plan.targets.find? uid = some line) ∨
      ∃ d ∈ ds, d.isOpen = true ∧ d.uid = uid) :
    ∃ line, (plan.withDoors ds).targets.find? uid = some line := by
  induction ds generalizing plan with
  | nil => exact h.resolve_right (by simp)
  | cons d ds ih =>
    rw [withDoors_cons]
    apply ih
    simp only [withDoors, List.foldl_cons, List.foldl_nil]
    split
    · rw [OrderedMap.find?_insert]
      by_cases huid : uid = d.uid
      · exact .inl ⟨d.line, if_pos huid⟩
      · rw [if_neg huid]
        refine h.imp_right fun hd => ?_
        obtain ⟨d', hd', hopen, heq⟩ := hd
        rcases List.mem_cons.1 hd' with rfl | hd'
        · exact absurd heq.symm huid
        · exact ⟨d', hd', hopen, heq⟩
    · refine h.imp_right fun hd => ?_
      obtain ⟨d', hd', hopen, heq⟩ := hd
      rcases List.mem_cons.1 hd' with rfl | hd'
      · exact absurd hopen ‹_›
      · exact ⟨d', hd', hopen, heq⟩

variable {b : Building α} {plan : FloorPlan α} {s : SubRoomId}

lemma ofSubRoom_spec (hb : b.WellFormed) (h : ofSubRoom b s = .ok plan) :
    plan.zone = .subroom s ∧
      ∀ uid, b.OpensFrom s uid → ∃ line, plan.targets.find? uid = some line := by
  obtain ⟨sub, -, h⟩ := bind_eq_ok_iff.1 h
  obtain rfl := Except.ok.inj h
  refine ⟨zone_withDoors _ _, fun uid hopens => exists_target_withDoors (.inr ?_)⟩
  obtain ⟨d, hd, hopen, hconn⟩ := hopens
  have huid := hb.door_uid uid d hd
  exact ⟨d, hb.mem_doorsOf.2 ⟨huid.symm ▸ hd, hconn⟩, hopen, huid⟩

lemma ofRoom_spec (hb : b.WellFormed) {id : RoomId} (h : ofRoom b id = .ok plan) :
    plan.zone = .room id ∧ ∀ r, b.room? id = some r → ∀ s ∈ r.subrooms, ∀ uid,
      b.OpensFrom s uid → ∃ line, plan.targets.find? uid = some line := by
  unfold ofRoom at h
  split at h
  · cases h
  · rename_i r hr
    obtain ⟨parts, -, h⟩ := bind_eq_ok_iff.1 h
    obtain rfl := Except.ok.inj h
    refine ⟨zone_withDoors _ _, fun r' hr' s hs uid hopens => exists_target_withDoors (.inr ?_)⟩
    obtain rfl := Option.some.inj (hr.symm.trans hr')
    obtain ⟨d, hd, hopen, hconn⟩ := hopens
    refine ⟨d, ?_, hopen, hb.door_uid uid d hd⟩
    simp only [Building.doorsOfRoom, hr, List.mem_filter, List.any_eq_true]
    exact ⟨OrderedMap.mem_values_iff.2 ⟨uid, hd⟩, s, hs, hconn⟩

end FloorPlan

variable [Scalar α]

namespace ZoneFields

variable {g : ZoneGrid α} {params : FieldParams α} {z : ZoneFields α}

lemma exists_field_of_ofGrid (h : ofGrid g params = .ok z) {d : DoorId}
    (hd : ∃ line, g.targets.find? d = some line) :
    ∃ field, z.fields.find? d = some field ∧ field.target = d := by
  obtain ⟨fields, hfields, h⟩ := bind_eq_ok_iff.1 h
  obtain rfl := Except.ok.inj h
  obtain ⟨field, hfield, hsolved⟩ :=
    exists_field_of_solveInTurn (solveFields_eq_ok_iff.1 hfields) (OrderedMap.mem_keys_iff.2 hd)
  exact ⟨field, hfield, target_of_solveTarget hsolved⟩

end ZoneFields

namespace FloorFields

variable {b : Building α} {params : FieldParams α} {f : FloorFields α} {s : SubRoomId}
  {uid : DoorId}

lemma params_of_ofPlans {plans : List (FloorPlan α)} (h : ofPlans plans params = .ok f) :
    f.params = params := by
  obtain ⟨-, -, h⟩ := bind_eq_ok_iff.1 h
  obtain ⟨zones, -, h⟩ := bind_eq_ok_iff.1 h
  rw [← Except.ok.inj h]

/-- The zone of each plan is solved, with a field towards every target that all plans of the zone
share. -/
theorem exists_field_of_ofPlans {plans : List (FloorPlan α)} (h : ofPlans plans params = .ok f)
    {plan : FloorPlan α} (hplan : plan ∈ plans)
    (htarget : ∀ plan' ∈ plans, plan'.zone = plan.zone →
      ∃ line, plan'.targets.find? uid = some line) :
    ∃ z field, f.zone plan.zone = .ok z ∧ z.fields.find? uid = some field ∧
      field.target = uid := by
  obtain ⟨-, -, h⟩ := bind_eq_ok_iff.1 h
  obtain ⟨zones, hzones, h⟩ := bind_eq_ok_iff.1 h
  obtain rfl := Except.ok.inj h
  have hcases {plan' : FloorPlan α} {entry : Zone × ZoneFields α}
      (h : (do
        let g ← plan'.rasterize params.cellSize
        return (plan'.zone, ← ZoneFields.ofGrid g params)) = Except.ok entry) :
      entry.1 = plan'.zone ∧ ∃ g, plan'.rasterize params.cellSize = .ok g ∧
        ZoneFields.ofGrid g params = .ok entry.2 := by
    obtain ⟨g, hg, h⟩ := bind_eq_ok_iff.1 h
    obtain ⟨z, hz, h⟩ := bind_eq_ok_iff.1 h
    obtain rfl := Except.ok.inj h
    exact ⟨rfl, g, hg, hz⟩
  obtain ⟨entry, hentry, hsolved⟩ := exists_mem_of_mapM hzones hplan
  obtain ⟨z, hz⟩ := OrderedMap.exists_find?_ofList
    (show (plan.zone, entry.2) ∈ zones from (hcases hsolved).1 ▸ hentry)
  obtain ⟨plan', hplan', hsolved'⟩ :=
    exists_of_mem_mapM hzones (OrderedMap.mem_of_find?_ofList hz)
  obtain ⟨hzone, g, hg, hgrid⟩ := hcases hsolved'
  obtain ⟨line, hline⟩ := htarget plan' hplan' hzone.symm
  obtain ⟨-, -, -, htargets⟩ := FloorPlan.rasterize_spec hg
  obtain ⟨field, hfield, heq⟩ := ZoneFields.exists_field_of_ofGrid hgrid ⟨line, htargets ▸ hline⟩
  exact ⟨z, field, by simp only [zone, hz], hfield, heq⟩

omit [Scalar α] in
/-- Among the plans of a building is one for the zone of each subroom, and whichever plan is for
that zone has the open doors of the subroom as targets. -/
lemma exists_plan_of_plansOf (hb : b.Made) {plans : List (FloorPlan α)}
    (h : plansOf b f.params.granularity = .ok plans) {sub : SubRoom α}
    (hs : b.subroom? s = some sub) (hopens : b.OpensFrom s uid) :
    ∃ plan ∈ plans, plan.zone = f.zoneFor sub.room s ∧ ∀ plan' ∈ plans, plan'.zone = plan.zone →
      ∃ line, plan'.targets.find? uid = some line := by
  have hwf := hb.wellFormed
  unfold zoneFor
  cases hgran : f.params.granularity with
  | none =>
    rw [hgran] at h
    cases h
  | room =>
    rw [hgran] at h
    obtain ⟨r, hr, hmem⟩ := hb.housed.exists_room s sub hs
    obtain ⟨plan, hplan, hof⟩ := exists_mem_of_mapM h (OrderedMap.mem_values_iff.2 ⟨_, hr⟩)
    have hid := hb.housed.room_id _ r hr
    have hzone := (FloorPlan.ofRoom_spec hwf hof).1
    refine ⟨plan, hplan, hid ▸ hzone, fun plan' hplan' hsame => ?_⟩
    obtain ⟨r', hr', hof'⟩ := exists_of_mem_mapM h hplan'
    obtain ⟨hzone', htargets⟩ := FloorPlan.ofRoom_spec hwf hof'
    have hid' := Zone.room.inj (hzone'.symm.trans (hsame.trans hzone))
    exact htargets r (by rw [hid', hid, hr]) s hmem uid hopens
  | subroom =>
    rw [hgran] at h
    obtain ⟨plan, hplan, hof⟩ := exists_mem_of_mapM h (OrderedMap.mem_values_iff.2 ⟨_, hs⟩)
    have huid := hwf.subroom_uid s sub hs
    have hzone := (FloorPlan.ofSubRoom_spec hwf hof).1
    refine ⟨plan, hplan, huid ▸ hzone, fun plan' hplan' hsame => ?_⟩
    obtain ⟨sub', -, hof'⟩ := exists_of_mem_mapM h hplan'
    obtain ⟨hzone', htargets⟩ := FloorPlan.ofSubRoom_spec hwf hof'
    have huid' := Zone.subroom.inj (hzone'.symm.trans (hsame.trans hzone))
    rw [huid', huid] at htargets
    exact htargets uid hopens

/-- In the floor fields of a building there is a field towards every open door of a subroom, in the
zone in which people in the subroom are steered. -/
theorem exists_field_of_ofBuilding (hb : b.Made) (h : ofBuilding b params = .ok f)
    {sub : SubRoom α} (hs : b.subroom? s = some sub) (hopens : b.OpensFrom s uid) :
    ∃ z field, f.zone (f.zoneFor sub.room s) = .ok z ∧ z.fields.find? uid = some field ∧
      field.target = uid := by
  obtain ⟨plans, hplans, h⟩ := bind_eq_ok_iff.1 h
  obtain rfl := params_of_ofPlans h
  obtain ⟨plan, hplan, hzone, htarget⟩ := exists_plan_of_plansOf hb hplans hs hopens
  rw [← hzone]
  exact exists_field_of_ofPlans h hplan htarget

variable {z : ZoneFields α} {field : DoorField α} {zone : Zone}

/-- A question about a door that has a field is answered at the cell where it is read. -/
lemma fieldAt_eq (hz : f.zone zone = .ok z) (hfield : z.fields.find? uid = some field)
    (p : Point α) : f.fieldAt zone uid p = (z.grid.queryCell p).map fun c => (field, c) := by
  simp only [fieldAt, hz, hfield, ok_bind, pure_eq_ok]
  cases z.grid.queryCell p <;> rfl

lemma directionTo_eq (hz : f.zone zone = .ok z) (hfield : z.fields.find? uid = some field)
    (p : Point α) : f.directionTo zone uid p =
      (z.grid.queryCell p).map fun c => field.direction.getD c .zero := by
  rw [directionTo, fieldAt_eq hz hfield]
  cases z.grid.queryCell p <;> rfl

lemma costTo_eq (hz : f.zone zone = .ok z) (hfield : z.fields.find? uid = some field)
    (p : Point α) : f.costTo zone uid p =
      (z.grid.queryCell p).map fun c => field.cost.getD c Scalar.infinity := by
  rw [costTo, fieldAt_eq hz hfield]
  cases z.grid.queryCell p <;> rfl

end FloorFields

namespace Steering

variable {b : Building α} {params : FieldParams α} {st : Steering α} {f : FloorFields α}
  {p : Pedestrian α} {uid : DoorId} {z : ZoneFields α} {field : DoorField α}

/-- Steering at a granularity other than none has the floor fields of the building. -/
lemma exists_fields_of_ofBuilding (h : ofBuilding b params = .ok st)
    (hgran : params.granularity ≠ .none) :
    ∃ f, st.fields = some f ∧ FloorFields.ofBuilding b params = .ok f := by
  unfold ofBuilding at h
  split at h
  · exact absurd ‹_› hgran
  · obtain ⟨f, hf, h⟩ := bind_eq_ok_iff.1 h
    obtain rfl := Except.ok.inj h
    exact ⟨f, rfl, hf⟩

/-- Where the floor fields fail for want of a cell only, they are all that steering asks. -/
lemma viaFields_eq {β : Type} (hf : st.fields = some f)
    {ask : FloorFields α → Zone → Except (FieldError α) β} {g : ZoneGrid α} {q : Point α}
    {read : Cell → β}
    (hask : ask f (f.zoneFor p.room p.subroom) = (g.queryCell q).map read) :
    st.viaFields p ask = (ask f (f.zoneFor p.room p.subroom)).map some := by
  simp only [viaFields, hf, hask]
  cases h : g.queryCell q with
  | ok c => rfl
  | error e =>
    rcases ZoneGrid.queryCell_eq_error h with rfl | rfl
    · rfl
    · rfl

/-- Towards a door that has a field, people walk in the direction that the field has for them. -/
theorem target_eq (hf : st.fields = some f) (hz : f.zone (f.zoneFor p.room p.subroom) = .ok z)
    (hfield : z.fields.find? uid = some field) (hp : p.destination = some uid) :
    st.target b p =
      (f.directionTo (f.zoneFor p.room p.subroom) uid p.position).map (p.position + ·) := by
  have hask := FloorFields.directionTo_eq hz hfield p.position
  simp only [target, destinationOf, hp, ok_bind]
  rw [viaFields_eq hf hask]
  cases f.directionTo (f.zoneFor p.room p.subroom) uid p.position <;> rfl

/-- Towards a door that has a field, what remains to be walked is what the field says. -/
theorem remaining_eq (hf : st.fields = some f) (hz : f.zone (f.zoneFor p.room p.subroom) = .ok z)
    (hfield : z.fields.find? uid = some field) (hp : p.destination = some uid) :
    st.remaining b p = f.costTo (f.zoneFor p.room p.subroom) uid p.position := by
  have hask := FloorFields.costTo_eq hz hfield p.position
  simp only [remaining, destinationOf, hp, ok_bind]
  rw [viaFields_eq hf hask]
  cases f.costTo (f.zoneFor p.room p.subroom) uid p.position <;> rfl

end Steering

end Egress
