import Egress.Proofs.Building.Edits
import Egress.Proofs.Scenario.Evacuation
import Egress.Scenario.Office

/-!
# Nobody is lost in the office

The office floor is a building like any other, and its crowd stands on its floor. So every run
accounts for everybody, with or without smoke and however people are steered.
-/
namespace Egress.Office

variable {α : Type} [Scalar α]

/-- Adds a room and the subroom that fills it. -/
def furnish (b : Building α) (room : RoomId × String × SubRoomKind × Point α × Point α) :
    Except BuildingError (Building α) := do
  let b ← b.addRoom room.1 room.2.1
  let s := SubRoom.ofPolygon room.1 room.1 room.2.2.1 (.rectangle room.2.2.2.1 room.2.2.2.2)
  b.addSubRoom { s with obstacles := obstacles room.1 }

/-- Adds a door that leads into another room or out. -/
def openUp (b : Building α) (door : DoorId × Segment α × SubRoomId × Option SubRoomId) :
    Except BuildingError (Building α) :=
  b.addDoor door.1 .transition door.2.1 door.2.2.1 door.2.2.2

lemma building_eq : (building : Except BuildingError (Building α)) =
    rooms.foldlM furnish (.named "office floor") >>= doors.foldlM openUp :=
  rfl

/-- A room with a new number can be added with its subroom, and takes no other number. -/
lemma exists_furnish {b : Building α} {room : RoomId × String × SubRoomKind × Point α × Point α}
    (hroom : b.room? room.1 = none) (hsub : b.subroom? room.1 = none) :
    ∃ b', furnish b room = .ok b' ∧ b.Extends b' ∧ b'.doors = b.doors ∧
      (∃ sub, b'.subroom? room.1 = some sub) ∧
      ∀ id, id ≠ room.1 → b'.room? id = b.room? id ∧ b'.subroom? id = b.subroom? id := by
  obtain ⟨b₁, h₁⟩ := Building.exists_addRoom hroom room.2.1
  have hextends := Building.extends_addRoom h₁
  obtain ⟨-, rfl⟩ := Building.addRoom_cases h₁
  let s := SubRoom.ofPolygon room.1 room.1 room.2.2.1 (.rectangle room.2.2.2.1 room.2.2.2.2)
  obtain ⟨b₂, h₂⟩ := Building.exists_addSubRoom
    (b := { b with rooms := b.rooms.insert room.1 ⟨room.1, room.2.1, []⟩ })
    (s := { s with obstacles := obstacles room.1 }) hsub ⟨_, OrderedMap.find?_insert_self _ _ _⟩
  have hextends' := hextends.trans (Building.extends_addSubRoom h₂)
  have hfurnish : furnish b room = .ok b₂ := bind_eq_ok_iff.2 ⟨_, h₁, h₂⟩
  obtain ⟨-, r, -, rfl⟩ := Building.addSubRoom_cases h₂
  refine ⟨_, hfurnish, hextends', rfl, ⟨_, OrderedMap.find?_insert_self _ _ _⟩, fun id hid => ?_⟩
  constructor
  · exact (OrderedMap.find?_insert_of_ne _ hid _).trans (OrderedMap.find?_insert_of_ne _ hid _)
  · exact OrderedMap.find?_insert_of_ne _ hid _

lemma exists_furnished (rooms : List (RoomId × String × SubRoomKind × Point α × Point α))
    (hids : (rooms.map Prod.fst).Nodup) {b : Building α}
    (hnew : ∀ id ∈ rooms.map Prod.fst, b.room? id = none ∧ b.subroom? id = none) :
    ∃ b', rooms.foldlM furnish b = .ok b' ∧ b.Extends b' ∧ b'.doors = b.doors ∧
      ∀ id ∈ rooms.map Prod.fst, ∃ sub, b'.subroom? id = some sub := by
  induction rooms generalizing b with
  | nil => exact ⟨b, rfl, .refl b, rfl, fun _ hid => absurd hid List.not_mem_nil⟩
  | cons room rooms ih =>
    obtain ⟨hnot, hids⟩ := List.nodup_cons.1 hids
    obtain ⟨⟨hroom, hsub⟩, hnew⟩ := List.forall_mem_cons.1 hnew
    obtain ⟨b₁, h₁, hextends, hdoors, ⟨sub, hfilled⟩, hothers⟩ := exists_furnish hroom hsub
    have hnew₁ (id : ℕ) (hid : id ∈ rooms.map Prod.fst) :
        b₁.room? id = none ∧ b₁.subroom? id = none := by
      have hne : id ≠ room.1 := fun heq => hnot (heq ▸ hid)
      obtain ⟨hsame, hsame'⟩ := hothers id hne
      rw [hsame, hsame']
      exact hnew id hid
    obtain ⟨b₂, h₂, hextends', hdoors', hall⟩ := ih hids hnew₁
    refine ⟨b₂, ?_, hextends.trans hextends', hdoors'.trans hdoors, ?_⟩
    · rw [List.foldlM_cons, h₁]
      exact h₂
    · refine List.forall_mem_cons.2 ⟨?_, hall⟩
      obtain ⟨more, hmore⟩ := hextends'.subroom _ _ hfilled
      exact ⟨_, hmore⟩

omit [Scalar α] in
/-- Doors with new numbers can be added between subrooms that exist. -/
lemma exists_openedUp (doors : List (DoorId × Segment α × SubRoomId × Option SubRoomId))
    (hids : (doors.map Prod.fst).Nodup) {b : Building α}
    (hnew : ∀ uid ∈ doors.map Prod.fst, b.door? uid = none)
    (hsides : ∀ door ∈ doors, ∀ s ∈ door.2.2.1 :: door.2.2.2.toList,
      ∃ sub, b.subroom? s = some sub) :
    ∃ b', doors.foldlM openUp b = .ok b' := by
  induction doors generalizing b with
  | nil => exact ⟨b, rfl⟩
  | cons door doors ih =>
    obtain ⟨hnot, hids⟩ := List.nodup_cons.1 hids
    obtain ⟨hdoor, hnew⟩ := List.forall_mem_cons.1 hnew
    obtain ⟨hside, hsides⟩ := List.forall_mem_cons.1 hsides
    have hother (t : SubRoomId) (ht : door.2.2.2 = some t) : ∃ sub, b.subroom? t = some sub := by
      refine hside t (List.mem_cons_of_mem _ ?_)
      rw [ht]
      exact List.mem_singleton_self t
    obtain ⟨b₁, h₁⟩ := Building.exists_addDoor hdoor door.2.1 (hside _ List.mem_cons_self) hother
    have hextends := Building.extends_addDoor h₁
    have hdoors : b₁.doors = b.doors.insert door.1
        ⟨door.1, .transition, door.2.1, door.2.2.1, door.2.2.2, true⟩ := by
      obtain ⟨-, -, -, -, -, rfl⟩ := Building.addDoor_cases h₁
      rfl
    have hnew₁ (uid : DoorId) (huid : uid ∈ doors.map Prod.fst) : b₁.door? uid = none := by
      have hne : uid ≠ door.1 := fun heq => hnot (heq ▸ huid)
      rw [Building.door?, hdoors, OrderedMap.find?_insert_of_ne _ hne]
      exact hnew uid huid
    have hsides₁ : ∀ door ∈ doors, ∀ s ∈ door.2.2.1 :: door.2.2.2.toList,
        ∃ sub, b₁.subroom? s = some sub := by
      intro door' hdoor' s hs
      obtain ⟨sub, hsub⟩ := hsides door' hdoor' s hs
      obtain ⟨more, hmore⟩ := hextends.subroom s sub hsub
      exact ⟨_, hmore⟩
    obtain ⟨b₂, h₂⟩ := ih hids hnew₁ hsides₁
    refine ⟨b₂, ?_⟩
    rw [List.foldlM_cons]
    exact bind_eq_ok_iff.2 ⟨b₁, h₁, h₂⟩

lemma exists_building : ∃ b : Building α, building = .ok b := by
  have hsides : ∀ door ∈ (doors : List (DoorId × Segment α × SubRoomId × Option SubRoomId)),
      ∀ s ∈ door.2.2.1 :: door.2.2.2.toList, s ∈ [0, 1, 2, 3, 4] := by
    simp [doors]
  obtain ⟨furnished, hfurnished, -, hnone, hsubs⟩ := exists_furnished rooms
    (show [0, 1, 2, 3, 4].Nodup by decide) (b := (.named "office floor" : Building α))
    fun _ _ => ⟨rfl, rfl⟩
  have hnew (uid : DoorId) : furnished.door? uid = none := by
    rw [Building.door?, hnone]
    rfl
  obtain ⟨b, hb⟩ := exists_openedUp doors (show [1, 2, 3, 4, 5, 6, 7].Nodup by decide)
    (fun uid _ => hnew uid) fun door hdoor s hs => hsubs s (hsides door hdoor s hs)
  exact ⟨b, building_eq.trans (bind_eq_ok_iff.2 ⟨furnished, hfurnished, hb⟩)⟩

lemma made_building {b : Building α} (h : building = .ok b) : b.Made := by
  obtain ⟨furnished, hrooms, hdoors⟩ := bind_eq_ok_iff.1 h
  refine foldlM_holds (fun b door b' hb hadd => ?_) hdoors ?_
  · exact .addDoor hb hadd
  · refine foldlM_holds (fun b room b' hb hadd => ?_) hrooms (.named _)
    obtain ⟨b₁, hroom, hsub⟩ := bind_eq_ok_iff.1 hadd
    exact .addSubRoom (.addRoom hb hroom) hsub

lemma assembled_crowd (b : Building α) (n : ℕ) : Evacuation.Assembled (crowd b n) b := by
  have hmem {a : Pedestrian α} (ha : a ∈ crowd b n) : ∃ k s, b.subroomAt (place k) = some s ∧
      a = { Pedestrian.standing k s.room s.uid (place k) with
        riskTolerance := ((k % 5 : ℕ) : α) * 0.25 } := by
    obtain ⟨k, -, hk⟩ := List.mem_filterMap.1 ha
    obtain ⟨s, hs, rfl⟩ := Option.map_eq_some_iff.1 hk
    exact ⟨k, s, hs, rfl⟩
  constructor
  · intro a ha
    obtain ⟨k, s, hs, rfl⟩ := hmem ha
    exact ⟨s, hs, rfl, rfl⟩
  · intro a ha
    obtain ⟨k, s, hs, rfl⟩ := hmem ha
    rfl
  · refine List.pairwise_map.2 (List.pairwise_filterMap.2 (List.pairwise_lt_range.imp ?_))
    intro k k' hlt a ha a' ha'
    obtain ⟨s, -, rfl⟩ := Option.map_eq_some_iff.1 ha
    obtain ⟨s', -, rfl⟩ := Option.map_eq_some_iff.1 ha'
    exact hlt

/-- Every run through the office ends with a report, whatever the parameters, with smoke or other
hazards or none, and however people are steered. The report has one entry for each of the people, by
ascending number. Those who have evacuated were sent to an exit last, and the unroutable ones are
those whom the router refuses. At every moment of the run, between intervals and between turns, the
people inside are in the room and the subroom of the floor that they stand on. -/
theorem simulate_accounts (params : RouterParams α) (hazard : Option (HazardStore α))
    (steering : Steering α) (agents n : ℕ) :
    ∃ b r, building = .ok b ∧ Router.new b params = .ok r ∧
      (∃ e intervals, intervals ≤ n ∧
        Evacuation.Course steering (.outset r hazard (crowd b agents)) intervals e ∧
        Evacuation.simulate (hazard.elim r fun store => r.withHazard store.field) steering
          (crowd b agents) n = .ok (e.report intervals) ∧
        (e.report intervals).agents.map (·.agent) = (crowd b agents).map (·.id) ∧
        ((crowd b agents).map (·.id)).Pairwise (· < ·) ∧
        ∀ report ∈ (e.report intervals).agents,
          (∀ time, report.fate = .evacuated time →
            ∃ door, report.doors.getLast? = some door ∧ b.IsExit door) ∧
          (report.fate = .unroutable ↔ e.router.isUnroutable report.agent = true)) ∧
      ∀ number e, Evacuation.Course steering (.outset r hazard (crowd b agents)) number e →
        (∀ a ∈ e.crowd, a.Located b) ∧
        ∀ turns, ∃ e', Evacuation.partway steering number e turns = .ok e' ∧
          ∀ a ∈ e'.crowd, e'.left.contains a.id = false → a.Located b := by
  obtain ⟨b, hbuilding⟩ : ∃ b : Building α, building = .ok b := exists_building
  have hb := (made_building hbuilding).wellFormed
  obtain ⟨r, hnew⟩ : ∃ r, Router.new b params = .ok r := by
    obtain ⟨g, hg, -⟩ := Network.ofBuilding_spec hb
    exact ⟨_, Router.new_eq_ok_iff.2 ⟨g, hg, rfl⟩⟩
  have hcrowd := assembled_crowd b agents
  have hids := hcrowd.ascending.imp ne_of_lt
  have hstart := Evacuation.settled_outset hnew hazard hcrowd
  refine ⟨b, r, hbuilding, hnew, ?_, ?_⟩
  · have houtset : Evacuation.Course steering (.outset r hazard (crowd b agents)) 0 _ := .start
    obtain ⟨e, intervals, hrun, hle, hcourse⟩ := houtset.run hstart hb hids n
    have hend := hcourse.settled hstart hb hids
    have hsimulate : Evacuation.simulate _ steering (crowd b agents) n =
      .ok (e.report intervals) := bind_eq_ok_iff.2 ⟨(e, intervals), hrun, rfl⟩
    refine ⟨e, intervals, by omega, hcourse, hsimulate,
      hend.map_agent_report hcrowd.ascending intervals, hcrowd.ascending, fun report hreport => ?_⟩
    exact hend.fate_cases hreport
  · intro number e hcourse
    have he := hcourse.settled hstart hb hids
    refine ⟨fun a ha => he.inside a ha (he.stayed a ha), fun turns => ?_⟩
    obtain ⟨e', he', hunderway⟩ := he.partway hb hids steering number turns
    exact ⟨e', he', hunderway.inside⟩

end Egress.Office
