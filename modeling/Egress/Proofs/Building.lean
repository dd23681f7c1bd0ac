import Egress.Building.Edit
import Egress.Proofs.OrderedMap
import Egress.Proofs.Outcome

/-!
# Buildings made step by step

However a building is made, subrooms and doors are known by their own numbers and a door is on the
boundary of subrooms that exist.
-/
namespace Egress.Building

variable {α : Type} {b b' : Building α}

/-- The buildings that are made from one with nothing in it by additions and by opening and closing
doors. -/
inductive Made : Building α → Prop
  | named (caption : String) : Made (named caption)
  | addRoom {b b' : Building α} {id : RoomId} {caption : String} :
    Made b → b.addRoom id caption = .ok b' → Made b'
  | addSubRoom {b b' : Building α} {s : SubRoom α} :
    Made b → b.addSubRoom s = .ok b' → Made b'
  | addDoor {b b' : Building α} {uid : DoorId} {kind : DoorKind} {line : Segment α}
    {a : SubRoomId} {side : Option SubRoomId} :
    Made b → b.addDoor uid kind line a side = .ok b' → Made b'
  | setDoorOpen {b b' : Building α} {uid : DoorId} {isOpen : Bool} :
    Made b → b.setDoorOpen uid isOpen = .ok b' → Made b'

/-- The door with the number is open and on the boundary of the subroom. -/
def OpensFrom (b : Building α) (s : SubRoomId) (uid : DoorId) : Prop :=
  ∃ d, b.door? uid = some d ∧ d.isOpen = true ∧ d.connects s = true

/-- Subrooms and doors are known by their own numbers, and doors join subrooms that exist. -/
structure WellFormed (b : Building α) : Prop where
  subroom_uid : ∀ s sub, b.subroom? s = some sub → sub.uid = s
  door_uid : ∀ uid d, b.door? uid = some d → d.uid = uid
  exists_side : ∀ uid d s, b.door? uid = some d → d.connects s = true →
    ∃ sub, b.subroom? s = some sub

theorem subroom_eq_ok_iff {s : SubRoomId} {sub : SubRoom α} :
    b.subroom s = .ok sub ↔ b.subroom? s = some sub := by
  unfold subroom
  split <;> simp [*]

theorem door_eq_ok_iff {uid : DoorId} {d : Door α} :
    b.door uid = .ok d ↔ b.door? uid = some d := by
  unfold door
  split <;> simp [*]

theorem connects_iff {d : Door α} {s : SubRoomId} :
    d.connects s = true ↔ d.sideA = s ∨ d.sideB = some s := by
  simp [Door.connects]

theorem connects_iff_otherSide {d : Door α} {s : SubRoomId} :
    d.connects s = true ↔ ∃ side, d.otherSide s = some side := by
  unfold Door.connects Door.otherSide
  by_cases ha : d.sideA = s
  · simp [ha]
  · by_cases hb : d.sideB = some s <;> simp [ha, hb]

/-- A door seen from one side is on the boundaries of that side and of what lies behind it. -/
theorem connects_iff_of_otherSide {d : Door α} {s t : SubRoomId} {side : Option SubRoomId}
    (h : d.otherSide s = some side) : d.connects t = true ↔ t = s ∨ side = some t := by
  unfold Door.otherSide at h
  rw [connects_iff]
  split at h
  · rename_i ha
    rw [← Option.some.inj h, ← beq_iff_eq.1 ha, eq_comm]
  · split at h
    · rename_i hb
      rw [← Option.some.inj h, beq_iff_eq.1 hb, Option.some.injEq, Option.some.injEq, or_comm,
        eq_comm]
    · cases h

theorem connects_of_otherSide {d : Door α} {s t : SubRoomId} (h : d.otherSide s = some (some t)) :
    d.connects t = true :=
  (connects_iff_of_otherSide h).2 (.inr rfl)

theorem WellFormed.mem_doorsOf (hb : b.WellFormed) {s : SubRoomId} {d : Door α} :
    d ∈ b.doorsOf s ↔ b.door? d.uid = some d ∧ d.connects s = true := by
  rw [doorsOf, List.mem_filter, OrderedMap.mem_values_iff]
  refine and_congr_left fun _ => ⟨?_, fun h => ⟨d.uid, h⟩⟩
  rintro ⟨uid, h⟩
  rwa [hb.door_uid uid d h]

lemma WellFormed.nodup_doorsOf (hb : b.WellFormed) (s : SubRoomId) :
    ((b.doorsOf s).map (·.uid)).Nodup := by
  have hkeys : b.doors.values.map (·.uid) = b.doors.keys := by
    rw [OrderedMap.values, OrderedMap.keys, List.map_map]
    exact List.map_congr_left fun e he =>
      hb.door_uid e.1 e.2 (OrderedMap.find?_eq_some_iff.2 he)
  have hnodup := b.doors.nodup_keys
  rw [← hkeys] at hnodup
  exact hnodup.sublist (List.filter_sublist.map _)

lemma WellFormed.mem_openDoors (hb : b.WellFormed) {s : SubRoomId} {uid : DoorId} :
    uid ∈ ((b.doorsOf s).filter (·.isOpen)).map (·.uid) ↔ b.OpensFrom s uid := by
  simp only [List.mem_map, List.mem_filter, hb.mem_doorsOf]
  constructor
  · intro hex
    obtain ⟨d, ⟨⟨hd, hconn⟩, hopen⟩, rfl⟩ := hex
    exact ⟨d, hd, hopen, hconn⟩
  · intro hex
    obtain ⟨d, hd, hopen, hconn⟩ := hex
    have huid := hb.door_uid uid d hd
    exact ⟨d, ⟨⟨huid.symm ▸ hd, hconn⟩, hopen⟩, huid⟩

lemma WellFormed.mem_subrooms (hb : b.WellFormed) {s : SubRoomId} :
    s ∈ b.subrooms.values.map (·.uid) ↔ ∃ sub, b.subroom? s = some sub := by
  simp only [List.mem_map, OrderedMap.mem_values_iff]
  constructor
  · intro hex
    obtain ⟨sub, ⟨s, hs⟩, rfl⟩ := hex
    exact ⟨sub, (hb.subroom_uid s sub hs).symm ▸ hs⟩
  · intro hex
    obtain ⟨sub, hs⟩ := hex
    exact ⟨sub, ⟨s, hs⟩, hb.subroom_uid s sub hs⟩

theorem find?_foldl_recordDoor (sides : List SubRoomId) (uid : DoorId)
    (m : OrderedMap SubRoomId (SubRoom α)) (s : SubRoomId) :
    (sides.foldl (recordDoor · uid) m).find? s = (m.find? s).map fun sub =>
      { sub with doors := sub.doors ++ List.replicate (sides.count s) uid } := by
  induction sides generalizing m with
  | nil => simp
  | cons t sides ih =>
    rw [List.foldl_cons, ih, recordDoor, OrderedMap.find?_modify, Option.map_map]
    congr 1
    funext sub
    by_cases h : s = t
    · simp [h, List.replicate_succ]
    · simp [h, Ne.symm h]

theorem addRoom_cases {id : RoomId} {caption : String} (h : b.addRoom id caption = .ok b') :
    b.room? id = none ∧ b' = { b with rooms := b.rooms.insert id ⟨id, caption, []⟩ } := by
  unfold addRoom at h
  split at h
  · cases h
  · rename_i hnew
    exact ⟨OrderedMap.contains_eq_false_iff.1 (by simpa using hnew), (Except.ok.inj h).symm⟩

theorem addSubRoom_cases {s : SubRoom α} (h : b.addSubRoom s = .ok b') :
    b.subroom? s.uid = none ∧ ∃ r, b.room? s.room = some r ∧ b' = { b with
      rooms := b.rooms.insert s.room { r with subrooms := r.subrooms ++ [s.uid] }
      subrooms := b.subrooms.insert s.uid s } := by
  unfold addSubRoom at h
  split at h
  · cases h
  · rename_i hnew
    refine ⟨OrderedMap.contains_eq_false_iff.1 (by simpa using hnew), ?_⟩
    split at h
    · cases h
    · rename_i r hr
      exact ⟨r, hr, (Except.ok.inj h).symm⟩

/-- The sides of a new door are subrooms that exist, of one room if the door is a crossing. -/
theorem addDoor_cases {uid : DoorId} {kind : DoorKind} {line : Segment α} {a : SubRoomId}
    {side : Option SubRoomId} (h : b.addDoor uid kind line a side = .ok b') :
    b.door? uid = none ∧ ∃ subA, b.subroom? a = some subA ∧
      (∀ t, side = some t → ∃ sub, b.subroom? t = some sub ∧
        (kind = .crossing → sub.room = subA.room)) ∧
      (kind = .crossing → side ≠ none) ∧
      b' = { b with
        subrooms := (a :: side.toList).foldl (recordDoor · uid) b.subrooms
        doors := b.doors.insert uid ⟨uid, kind, line, a, side, true⟩ } := by
  unfold addDoor at h
  cases hnew : b.doors.contains uid with
  | true => simp [hnew] at h
  | false =>
    refine ⟨OrderedMap.contains_eq_false_iff.1 hnew, ?_⟩
    cases hsub : b.subroom a with
    | error e => simp [hnew, hsub] at h
    | ok subA =>
      refine ⟨subA, subroom_eq_ok_iff.1 hsub, ?_⟩
      cases side with
      | none =>
        by_cases hkind : kind = .crossing
        · simp [hnew, hsub, hkind] at h
        · refine ⟨by simp, by simp [hkind], ?_⟩
          simpa [hnew, hsub, hkind] using h.symm
      | some t =>
        cases ht : b.subroom t with
        | error e => simp [hnew, hsub, ht] at h
        | ok sub =>
          by_cases hkind : kind = .crossing ∧ sub.room ≠ subA.room
          · simp [hnew, hsub, ht, hkind] at h
          · have hroom : kind = .crossing → sub.room = subA.room := by
              intro hc
              by_contra hne
              exact hkind ⟨hc, hne⟩
            refine ⟨?_, by simp, ?_⟩
            · intro t' ht'
              obtain rfl := Option.some.inj ht'
              exact ⟨sub, subroom_eq_ok_iff.1 ht, hroom⟩
            · have hkind' : ¬(kind = .crossing ∧ ¬sub.room = subA.room) := hkind
              simpa [hnew, hsub, ht, hkind'] using h.symm

theorem setDoorOpen_cases {uid : DoorId} {isOpen : Bool}
    (h : b.setDoorOpen uid isOpen = .ok b') :
    ∃ d, b.door? uid = some d ∧ b' = { b with doors := b.doors.insert uid { d with isOpen } } := by
  unfold setDoorOpen at h
  split at h
  · cases h
  · rename_i d hd
    exact ⟨d, hd, (Except.ok.inj h).symm⟩

lemma exists_addRoom {id : RoomId} (h : b.room? id = none) (caption : String) :
    ∃ b', b.addRoom id caption = .ok b' :=
  ⟨_, if_neg (by rw [OrderedMap.contains_eq_false_iff.2 h]; simp)⟩

lemma exists_addSubRoom {s : SubRoom α} (h : b.subroom? s.uid = none)
    (hroom : ∃ r, b.room? s.room = some r) : ∃ b', b.addSubRoom s = .ok b' := by
  obtain ⟨r, hr⟩ := hroom
  have hnew : b.subrooms.contains s.uid = false := OrderedMap.contains_eq_false_iff.2 h
  simp [addSubRoom, hnew, hr]

lemma exists_addDoor {uid : DoorId} (h : b.door? uid = none) (line : Segment α) {a : SubRoomId}
    {side : Option SubRoomId} (ha : ∃ sub, b.subroom? a = some sub)
    (hside : ∀ t, side = some t → ∃ sub, b.subroom? t = some sub) :
    ∃ b', b.addDoor uid .transition line a side = .ok b' := by
  obtain ⟨subA, ha⟩ := ha
  have hnew : b.doors.contains uid = false := OrderedMap.contains_eq_false_iff.2 h
  cases side with
  | none => simp [addDoor, hnew, subroom_eq_ok_iff.2 ha]
  | some t =>
    obtain ⟨sub, ht⟩ := hside t rfl
    simp [addDoor, hnew, subroom_eq_ok_iff.2 ha, subroom_eq_ok_iff.2 ht]

theorem wellFormed_named (caption : String) : (named caption : Building α).WellFormed :=
  ⟨nofun, nofun, nofun⟩

theorem WellFormed.addRoom (hb : b.WellFormed) {id : RoomId} {caption : String}
    (h : b.addRoom id caption = .ok b') : b'.WellFormed := by
  obtain ⟨-, rfl⟩ := addRoom_cases h
  exact ⟨hb.subroom_uid, hb.door_uid, hb.exists_side⟩

theorem WellFormed.addSubRoom (hb : b.WellFormed) {s : SubRoom α}
    (h : b.addSubRoom s = .ok b') : b'.WellFormed := by
  obtain ⟨-, r, -, rfl⟩ := addSubRoom_cases h
  have hget (t : SubRoomId) : (b.subrooms.insert s.uid s).find? t =
      if t = s.uid then some s else b.subroom? t := OrderedMap.find?_insert _ _ _ _
  refine ⟨?_, hb.door_uid, ?_⟩
  · intro t sub ht
    rw [subroom?, hget] at ht
    split at ht
    · rw [← Option.some.inj ht]
      exact ‹t = s.uid›.symm
    · exact hb.subroom_uid t sub ht
  · intro uid d t hd ht
    obtain ⟨sub, hsub⟩ := hb.exists_side uid d t hd ht
    rw [subroom?, hget]
    split
    · exact ⟨s, rfl⟩
    · exact ⟨sub, hsub⟩

theorem WellFormed.addDoor (hb : b.WellFormed) {uid : DoorId} {kind : DoorKind}
    {line : Segment α} {a : SubRoomId} {side : Option SubRoomId}
    (h : b.addDoor uid kind line a side = .ok b') : b'.WellFormed := by
  obtain ⟨-, subA, ha, hside, -, rfl⟩ := addDoor_cases h
  have hsub (s : SubRoomId) := find?_foldl_recordDoor (a :: side.toList) uid b.subrooms s
  have hexists {s : SubRoomId} (hs : ∃ sub, b.subroom? s = some sub) :
      ∃ sub, ((a :: side.toList).foldl (recordDoor · uid) b.subrooms).find? s = some sub := by
    obtain ⟨sub, hs⟩ := hs
    rw [subroom?] at hs
    rw [hsub, hs]
    exact ⟨_, rfl⟩
  constructor
  · intro s sub hs
    rw [subroom?, hsub, Option.map_eq_some_iff] at hs
    obtain ⟨old, hold, rfl⟩ := hs
    exact hb.subroom_uid s old hold
  · intro uid' d hd
    rw [door?, OrderedMap.find?_insert] at hd
    split at hd
    · rw [← Option.some.inj hd]
      exact ‹uid' = uid›.symm
    · exact hb.door_uid uid' d hd
  · intro uid' d s hd hs
    apply hexists
    rw [door?, OrderedMap.find?_insert] at hd
    split at hd
    · rw [← Option.some.inj hd, connects_iff] at hs
      rcases hs with rfl | hs
      · exact ⟨subA, ha⟩
      · obtain ⟨sub, hsub, -⟩ := hside s hs
        exact ⟨sub, hsub⟩
    · exact hb.exists_side uid' d s hd hs

theorem WellFormed.setDoorOpen (hb : b.WellFormed) {uid : DoorId} {isOpen : Bool}
    (h : b.setDoorOpen uid isOpen = .ok b') : b'.WellFormed := by
  obtain ⟨d, hd, rfl⟩ := setDoorOpen_cases h
  refine ⟨hb.subroom_uid, ?_, ?_⟩
  · intro uid' d' hd'
    rw [door?, OrderedMap.find?_insert] at hd'
    split at hd'
    · rw [← Option.some.inj hd', ‹uid' = uid›]
      exact hb.door_uid uid d hd
    · exact hb.door_uid uid' d' hd'
  · intro uid' d' s hd' hs
    rw [door?, OrderedMap.find?_insert] at hd'
    split at hd'
    · rw [← Option.some.inj hd'] at hs
      exact hb.exists_side uid d s hd hs
    · exact hb.exists_side uid' d' s hd' hs

theorem Made.wellFormed (hb : b.Made) : b.WellFormed := by
  induction hb with
  | named caption => exact wellFormed_named caption
  | addRoom _ h ih => exact ih.addRoom h
  | addSubRoom _ h ih => exact ih.addSubRoom h
  | addDoor _ h ih => exact ih.addDoor h
  | setDoorOpen _ h ih => exact ih.setDoorOpen h

/-- Rooms are known by their own numbers, and every subroom is listed by the room it belongs to. -/
structure Housed (b : Building α) : Prop where
  room_id : ∀ id r, b.room? id = some r → r.id = id
  exists_room : ∀ s sub, b.subroom? s = some sub →
    ∃ r, b.room? sub.room = some r ∧ s ∈ r.subrooms

theorem Housed.addRoom (hb : b.Housed) {id : RoomId} {caption : String}
    (h : b.addRoom id caption = .ok b') : b'.Housed := by
  obtain ⟨hnone, rfl⟩ := addRoom_cases h
  have hget (id' : RoomId) : (b.rooms.insert id ⟨id, caption, []⟩).find? id' =
      if id' = id then some ⟨id, caption, []⟩ else b.room? id' := OrderedMap.find?_insert _ _ _ _
  constructor
  · intro id' r hr
    rw [room?, hget] at hr
    split at hr
    · rw [← Option.some.inj hr]
      exact ‹id' = id›.symm
    · exact hb.room_id id' r hr
  · intro s sub hs
    obtain ⟨r, hr, hmem⟩ := hb.exists_room s sub hs
    refine ⟨r, ?_, hmem⟩
    have hne : sub.room ≠ id := by
      intro heq
      rw [heq, hnone] at hr
      cases hr
    rw [room?, hget, if_neg hne, hr]

theorem Housed.addSubRoom (hb : b.Housed) {s : SubRoom α}
    (h : b.addSubRoom s = .ok b') : b'.Housed := by
  obtain ⟨-, r, hr, rfl⟩ := addSubRoom_cases h
  have hroom (id : RoomId) : (b.rooms.insert s.room { r with
      subrooms := r.subrooms ++ [s.uid] }).find? id =
      if id = s.room then some { r with subrooms := r.subrooms ++ [s.uid] }
      else b.room? id := OrderedMap.find?_insert _ _ _ _
  have hsub (t : SubRoomId) : (b.subrooms.insert s.uid s).find? t =
      if t = s.uid then some s else b.subroom? t := OrderedMap.find?_insert _ _ _ _
  constructor
  · intro id r' hr'
    rw [room?, hroom] at hr'
    split at hr'
    · rw [← Option.some.inj hr', ‹id = s.room›]
      exact hb.room_id s.room r hr
    · exact hb.room_id id r' hr'
  · intro t sub ht
    rw [subroom?, hsub] at ht
    rw [room?, hroom]
    split at ht
    · rw [← Option.some.inj ht, if_pos rfl]
      exact ⟨_, rfl, by simp [‹t = s.uid›]⟩
    · obtain ⟨r', hr', hmem⟩ := hb.exists_room t sub ht
      by_cases heq : sub.room = s.room
      · rw [if_pos heq]
        rw [heq, hr] at hr'
        obtain rfl := Option.some.inj hr'
        exact ⟨_, rfl, List.mem_append_left _ hmem⟩
      · rw [if_neg heq]
        exact ⟨r', hr', hmem⟩

theorem Made.housed (hb : b.Made) : b.Housed := by
  induction hb with
  | named caption => exact ⟨nofun, nofun⟩
  | addRoom _ h ih => exact ih.addRoom h
  | addSubRoom _ h ih => exact ih.addSubRoom h
  | addDoor _ h ih =>
    obtain ⟨-, -, -, -, -, rfl⟩ := addDoor_cases h
    refine ⟨ih.room_id, fun s sub hs => ?_⟩
    rw [subroom?, find?_foldl_recordDoor, Option.map_eq_some_iff] at hs
    obtain ⟨old, hold, rfl⟩ := hs
    exact ih.exists_room s old hold
  | setDoorOpen _ h ih =>
    obtain ⟨d, -, rfl⟩ := setDoorOpen_cases h
    exact ⟨ih.room_id, ih.exists_room⟩

end Egress.Building
