import Egress.Proofs.Building

/-!
# Edits of a building

However a building has been edited, rooms and their subrooms refer to each other, and so do
subrooms and their doors, and nothing that is there is lost. An edit writes a building piece by
piece, but looks at all that could keep it from being made before it writes the first: one that is
refused changes nothing.
-/
namespace Egress.Building

variable {α : Type} {b b' b'' : Building α}

/-- The second building has what the first has. Its rooms may list more subrooms and its subrooms
more doors, and doors may have been opened or closed. -/
structure Extends (b b' : Building α) : Prop where
  room : ∀ id r, b.room? id = some r →
    ∃ more, b'.room? id = some { r with subrooms := r.subrooms ++ more }
  subroom : ∀ s sub, b.subroom? s = some sub →
    ∃ more, b'.subroom? s = some { sub with doors := sub.doors ++ more }
  door : ∀ uid d, b.door? uid = some d → ∃ isOpen, b'.door? uid = some { d with isOpen }

theorem Extends.refl (b : Building α) : b.Extends b := by
  refine ⟨fun id r h => ⟨[], ?_⟩, fun s sub h => ⟨[], ?_⟩, fun uid d h => ⟨d.isOpen, h⟩⟩
  · rw [List.append_nil, h]
  · rw [List.append_nil, h]

theorem Extends.trans (h : b.Extends b') (h' : b'.Extends b'') : b.Extends b'' := by
  constructor
  · intro id r hr
    obtain ⟨more, hr'⟩ := h.room id r hr
    obtain ⟨more', hr''⟩ := h'.room id _ hr'
    exact ⟨more ++ more', by rw [hr'', List.append_assoc]⟩
  · intro s sub hs
    obtain ⟨more, hs'⟩ := h.subroom s sub hs
    obtain ⟨more', hs''⟩ := h'.subroom s _ hs'
    exact ⟨more ++ more', by rw [hs'', List.append_assoc]⟩
  · intro uid d hd
    obtain ⟨_, hd'⟩ := h.door uid d hd
    obtain ⟨isOpen, hd''⟩ := h'.door uid _ hd'
    exact ⟨isOpen, hd''⟩

theorem extends_addRoom {id : RoomId} {caption : String} (h : b.addRoom id caption = .ok b') :
    b.Extends b' := by
  obtain ⟨hnew, rfl⟩ := addRoom_cases h
  refine { Extends.refl b with room := fun id' r hr => ⟨[], ?_⟩ }
  have hne : id' ≠ id := by
    rintro rfl
    cases hnew.symm.trans hr
  rw [room?, OrderedMap.find?_insert_of_ne _ hne, List.append_nil, ← hr, room?]

theorem extends_addSubRoom {s : SubRoom α} (h : b.addSubRoom s = .ok b') : b.Extends b' := by
  obtain ⟨hnew, r, hr, rfl⟩ := addSubRoom_cases h
  refine { Extends.refl b with room := fun id r' hr' => ?_, subroom := fun t sub ht => ⟨[], ?_⟩ }
  · by_cases hid : id = s.room
    · subst hid
      obtain rfl := Option.some.inj (hr.symm.trans hr')
      exact ⟨[s.uid], OrderedMap.find?_insert_self _ _ _⟩
    · exact ⟨[], by rw [room?, OrderedMap.find?_insert_of_ne _ hid, List.append_nil, ← hr', room?]⟩
  · have hne : t ≠ s.uid := by
      rintro rfl
      cases hnew.symm.trans ht
    rw [subroom?, OrderedMap.find?_insert_of_ne _ hne, List.append_nil, ← ht, subroom?]

theorem extends_addDoor {uid : DoorId} {kind : DoorKind} {line : Segment α} {a : SubRoomId}
    {side : Option SubRoomId} (h : b.addDoor uid kind line a side = .ok b') : b.Extends b' := by
  obtain ⟨hnew, -, -, -, -, rfl⟩ := addDoor_cases h
  refine { Extends.refl b with subroom := fun s sub hs => ?_, door := fun uid' d hd => ?_ }
  · rw [subroom?] at hs
    rw [subroom?, find?_foldl_recordDoor, hs]
    exact ⟨_, rfl⟩
  · have hne : uid' ≠ uid := by
      rintro rfl
      cases hnew.symm.trans hd
    exact ⟨d.isOpen, by rw [door?, OrderedMap.find?_insert_of_ne _ hne, ← hd, door?]⟩

theorem extends_setDoorOpen {uid : DoorId} {isOpen : Bool}
    (h : b.setDoorOpen uid isOpen = .ok b') : b.Extends b' := by
  obtain ⟨d, hd, rfl⟩ := setDoorOpen_cases h
  refine { Extends.refl b with door := fun uid' d' hd' => ?_ }
  by_cases huid : uid' = uid
  · subst huid
    obtain rfl := Option.some.inj (hd.symm.trans hd')
    exact ⟨isOpen, OrderedMap.find?_insert_self _ _ _⟩
  · exact ⟨d'.isOpen, by rw [door?, OrderedMap.find?_insert_of_ne _ huid, ← hd', door?]⟩

/-- Rooms and their subrooms list each other, and so do subrooms and their doors. -/
structure CrossReferenced (b : Building α) : Prop where
  listed_once : ∀ s sub, b.subroom? s = some sub →
    ∃ r, b.room? sub.room = some r ∧ r.subrooms.count s = 1
  of_listed : ∀ id r s, b.room? id = some r → s ∈ r.subrooms →
    ∃ sub, b.subroom? s = some sub ∧ sub.room = id
  /-- A crossing stays within a room. -/
  crossing : ∀ uid d, b.door? uid = some d → d.kind = .crossing →
    ∃ t subA subB, d.sideB = some t ∧ b.subroom? d.sideA = some subA ∧
      b.subroom? t = some subB ∧ subA.room = subB.room
  mem_doors_iff : ∀ s sub uid, b.subroom? s = some sub →
    (uid ∈ sub.doors ↔ ∃ d, b.door? uid = some d ∧ d.connects s = true)

theorem crossReferenced_named (caption : String) :
    (named caption : Building α).CrossReferenced :=
  ⟨nofun, nofun, nofun, nofun⟩

lemma CrossReferenced.crossing_extends (hb : b.CrossReferenced) (hext : b.Extends b') {uid : DoorId}
    {d : Door α} (hd : b.door? uid = some d) (hkind : d.kind = .crossing) :
    ∃ t subA subB, d.sideB = some t ∧ b'.subroom? d.sideA = some subA ∧
      b'.subroom? t = some subB ∧ subA.room = subB.room := by
  obtain ⟨t, subA, subB, ht, hA, hB, hroom⟩ := hb.crossing uid d hd hkind
  obtain ⟨_, hA'⟩ := hext.subroom _ _ hA
  obtain ⟨_, hB'⟩ := hext.subroom _ _ hB
  exact ⟨t, _, _, ht, hA', hB', hroom⟩

theorem CrossReferenced.addRoom (hb : b.CrossReferenced) {id : RoomId} {caption : String}
    (h : b.addRoom id caption = .ok b') : b'.CrossReferenced := by
  have hext := extends_addRoom h
  obtain ⟨hnew, rfl⟩ := addRoom_cases h
  refine ⟨?_, ?_, fun _ _ => hb.crossing_extends hext, hb.mem_doors_iff⟩
  · intro s sub hs
    obtain ⟨r, hr, hcount⟩ := hb.listed_once s sub hs
    have hne : sub.room ≠ id := by
      intro heq
      rw [heq, hnew] at hr
      cases hr
    exact ⟨r, (OrderedMap.find?_insert_of_ne _ hne _).trans hr, hcount⟩
  · intro id' r s hr hmem
    rw [room?, OrderedMap.find?_insert] at hr
    split at hr
    · rw [← Option.some.inj hr] at hmem
      cases hmem
    · exact hb.of_listed id' r s hr hmem

theorem CrossReferenced.addSubRoom (hb : b.CrossReferenced) (hwf : b.WellFormed) {s : SubRoom α}
    (bare : s.doors = []) (h : b.addSubRoom s = .ok b') : b'.CrossReferenced := by
  have hext := extends_addSubRoom h
  obtain ⟨hnew, r, hr, rfl⟩ := addSubRoom_cases h
  -- nothing refers to a subroom that does not exist
  have hunlisted (id : RoomId) (r' : Room) (hr' : b.room? id = some r') : s.uid ∉ r'.subrooms := by
    intro hmem
    obtain ⟨sub, hsub, -⟩ := hb.of_listed id r' s.uid hr' hmem
    cases hnew.symm.trans hsub
  refine ⟨?_, ?_, fun _ _ => hb.crossing_extends hext, ?_⟩
  · intro t sub ht
    rw [subroom?, OrderedMap.find?_insert] at ht
    split at ht
    · rw [← Option.some.inj ht, ‹t = s.uid›]
      refine ⟨_, OrderedMap.find?_insert_self _ _ _, ?_⟩
      rw [List.count_append, List.count_eq_zero.2 (hunlisted _ r hr), List.count_singleton_self]
    · rename_i hne
      obtain ⟨r', hr', hcount⟩ := hb.listed_once t sub ht
      by_cases hroom : sub.room = s.room
      · rw [hroom, hr] at hr'
        obtain rfl := Option.some.inj hr'
        rw [room?, hroom]
        refine ⟨_, OrderedMap.find?_insert_self _ _ _, ?_⟩
        rw [List.count_append, hcount, List.count_singleton, if_neg (by simpa using Ne.symm hne)]
      · exact ⟨r', (OrderedMap.find?_insert_of_ne _ hroom _).trans hr', hcount⟩
  · intro id r' t hr' hmem
    have hold (r₀ : Room) (h₀ : b.room? id = some r₀) (ht : t ∈ r₀.subrooms) :
        ∃ sub, (b.subrooms.insert s.uid s).find? t = some sub ∧ sub.room = id := by
      obtain ⟨sub, hsub, hroom⟩ := hb.of_listed id r₀ t h₀ ht
      have hne : t ≠ s.uid := by
        rintro rfl
        exact hunlisted id r₀ h₀ ht
      exact ⟨sub, (OrderedMap.find?_insert_of_ne _ hne _).trans hsub, hroom⟩
    rw [room?, OrderedMap.find?_insert] at hr'
    split at hr'
    · rename_i hid
      rw [← Option.some.inj hr'] at hmem
      rcases List.mem_append.1 hmem with hmem | hmem
      · exact hold r (hid ▸ hr) hmem
      · rw [List.mem_singleton.1 hmem, hid]
        exact ⟨s, OrderedMap.find?_insert_self _ _ _, rfl⟩
    · exact hold r' hr' hmem
  · intro t sub uid ht
    rw [subroom?, OrderedMap.find?_insert] at ht
    split at ht
    · rw [← Option.some.inj ht, bare, ‹t = s.uid›]
      refine ⟨fun hmem => absurd hmem List.not_mem_nil, ?_⟩
      rintro ⟨d, hd, hconn⟩
      obtain ⟨sub, hsub⟩ := hwf.exists_side uid d s.uid hd hconn
      cases hnew.symm.trans hsub
    · exact hb.mem_doors_iff t sub uid ht

theorem CrossReferenced.addDoor (hb : b.CrossReferenced) {uid : DoorId} {kind : DoorKind}
    {line : Segment α} {a : SubRoomId} {side : Option SubRoomId}
    (h : b.addDoor uid kind line a side = .ok b') : b'.CrossReferenced := by
  have hext := extends_addDoor h
  obtain ⟨hnew, subA, ha, hside, hinside, rfl⟩ := addDoor_cases h
  have hsub (s : SubRoomId) := find?_foldl_recordDoor (a :: side.toList) uid b.subrooms s
  refine ⟨?_, ?_, ?_, ?_⟩
  · intro s sub hs
    rw [subroom?, hsub, Option.map_eq_some_iff] at hs
    obtain ⟨old, hold, rfl⟩ := hs
    exact hb.listed_once s old hold
  · intro id r s hr hmem
    obtain ⟨sub, hs, hroom⟩ := hb.of_listed id r s hr hmem
    obtain ⟨_, hs'⟩ := hext.subroom s sub hs
    exact ⟨_, hs', hroom⟩
  · intro uid' d hd hkind
    rw [door?, OrderedMap.find?_insert] at hd
    split at hd
    · obtain rfl := Option.some.inj hd
      obtain ⟨t, rfl⟩ := Option.ne_none_iff_exists'.1 (hinside hkind)
      obtain ⟨subB, hB, hroom⟩ := hside t rfl
      obtain ⟨_, hA'⟩ := hext.subroom _ _ ha
      obtain ⟨_, hB'⟩ := hext.subroom _ _ hB
      exact ⟨t, _, _, rfl, hA', hB', (hroom hkind).symm⟩
    · exact hb.crossing_extends hext hd hkind
  · intro s sub uid' hs
    rw [subroom?, hsub, Option.map_eq_some_iff] at hs
    obtain ⟨old, hold, rfl⟩ := hs
    have hmem := hb.mem_doors_iff s old uid' hold
    have hcount : (a :: side.toList).count s ≠ 0 ↔ a = s ∨ side = some s := by
      rw [Ne, List.count_eq_zero, not_not]
      cases side <;> simp [eq_comm]
    have hdoor (uid' : DoorId) : (b.doors.insert uid ⟨uid, kind, line, a, side, true⟩).find? uid' =
        if uid' = uid then some ⟨uid, kind, line, a, side, true⟩ else b.doors.find? uid' :=
      OrderedMap.find?_insert _ _ _ _
    rw [List.mem_append, List.mem_replicate, hmem, hcount]
    simp only [door?, hdoor] at hnew ⊢
    split
    · subst uid'
      simp [hnew, connects_iff]
    · rename_i hne
      simp [hne]

theorem CrossReferenced.setDoorOpen (hb : b.CrossReferenced) {uid : DoorId} {isOpen : Bool}
    (h : b.setDoorOpen uid isOpen = .ok b') : b'.CrossReferenced := by
  obtain ⟨d, hd, rfl⟩ := setDoorOpen_cases h
  have hdoor (uid' : DoorId) (P : Door α → Prop) (hP : ∀ d isOpen, P { d with isOpen } ↔ P d) :
      (∃ d', (b.doors.insert uid { d with isOpen }).find? uid' = some d' ∧ P d') ↔
        ∃ d', b.door? uid' = some d' ∧ P d' := by
    rw [OrderedMap.find?_insert]
    split
    · simp [‹uid' = uid›, hd, hP]
    · rfl
  refine ⟨hb.listed_once, hb.of_listed, ?_, ?_⟩
  · intro uid' d' hd' hkind
    rw [door?, OrderedMap.find?_insert] at hd'
    split at hd'
    · obtain rfl := Option.some.inj hd'
      exact hb.crossing uid d hd hkind
    · exact hb.crossing uid' d' hd' hkind
  · intro s sub uid' hs
    rw [hb.mem_doors_iff s sub uid' hs]
    exact (hdoor uid' (·.connects s = true) fun _ _ => Iff.rfl).symm

/-- What can be done to a building. A subroom that is added has no doors yet, as is the case for
`SubRoom.ofPolygon`. -/
inductive Edit (α : Type) where
  | addRoom (id : RoomId) (caption : String)
  | addSubRoom (s : SubRoom α) (bare : s.doors = [])
  | addDoor (uid : DoorId) (kind : DoorKind) (line : Segment α) (a : SubRoomId)
    (side : Option SubRoomId)
  | setDoorOpen (uid : DoorId) (isOpen : Bool)

def edit (b : Building α) : Edit α → Except BuildingError (Building α)
  | .addRoom id caption => b.addRoom id caption
  | .addSubRoom s _ => b.addSubRoom s
  | .addDoor uid kind line a side => b.addDoor uid kind line a side
  | .setDoorOpen uid isOpen => b.setDoorOpen uid isOpen

/-- The edit as it is made in a building, each table of which is written by itself. -/
def Edit.inPlace : Edit α → ExceptT BuildingError (StateM (Building α)) Unit
  | .addRoom id caption => do
    if (← get).rooms.contains id then throw (.duplicateRoom id)
    modify fun b => { b with rooms := b.rooms.insert id ⟨id, caption, []⟩ }
  | .addSubRoom s _ => do
    if (← get).subrooms.contains s.uid then throw (.duplicateSubRoom s.uid)
    let some r := (← get).room? s.room | throw (.unknownRoom s.room)
    modify fun b => { b with
      rooms := b.rooms.insert s.room { r with subrooms := r.subrooms ++ [s.uid] } }
    modify fun b => { b with subrooms := b.subrooms.insert s.uid s }
  | .addDoor uid kind line a side => do
    if (← get).doors.contains uid then throw (.duplicateDoor uid)
    let roomA := (← MonadExcept.ofExcept ((← get).subroom a)).room
    let roomB ← match side with
      | some s => do pure (some (← MonadExcept.ofExcept ((← get).subroom s)).room)
      | none => pure none
    if kind = .crossing ∧ roomB ≠ some roomA then throw (.invalidCrossing uid)
    for s in a :: side.toList do
      modify fun b => { b with subrooms := recordDoor b.subrooms uid s }
    modify fun b => { b with doors := b.doors.insert uid ⟨uid, kind, line, a, side, true⟩ }
  | .setDoorOpen uid isOpen => do
    let some d := (← get).door? uid | throw (.unknownDoor uid)
    modify fun b => { b with doors := b.doors.insert uid { d with isOpen } }

/-- All is looked at before the first table is written. -/
theorem Edit.run_inPlace (edit : Edit α) (b : Building α) :
    edit.inPlace.run b = match b.edit edit with
      | .ok b' => (.ok (), b')
      | .error e => (.error e, b) := by
  cases edit with
  | addRoom id caption =>
    simp only [inPlace, Building.edit, Building.addRoom, run_get_bind]
    split <;> simp
  | addSubRoom s bare =>
    simp only [inPlace, Building.edit, Building.addSubRoom, run_get_bind]
    split
    · simp
    · cases hr : b.room? s.room <;> simp [hr]
  | addDoor uid kind line a side =>
    simp only [inPlace, Building.edit, Building.addDoor, run_get_bind]
    cases hnew : b.doors.contains uid with
    | true => simp
    | false =>
      cases ha : b.subroom a with
      | error e => simp [ha]
      | ok subA =>
        cases side with
        | none => by_cases hkind : kind = .crossing <;> simp [ha, hkind]
        | some t =>
          cases ht : b.subroom t with
          | error e => simp [ha, ht]
          | ok subB =>
            by_cases hkind : kind = .crossing ∧ ¬subB.room = subA.room <;> simp [ha, ht, hkind]
  | setDoorOpen uid isOpen =>
    simp only [inPlace, Building.edit, Building.setDoorOpen, run_get_bind]
    cases hd : b.door? uid <;> simp

theorem Edit.run_inPlace_cases (edit : Edit α) (b : Building α) :
    (∃ b', b.edit edit = .ok b' ∧ edit.inPlace.run b = (.ok (), b')) ∨
      ∃ e, b.edit edit = .error e ∧ edit.inPlace.run b = (.error e, b) := by
  rw [edit.run_inPlace]
  cases h : b.edit edit with
  | ok b' => exact .inl ⟨b', rfl, rfl⟩
  | error e => exact .inr ⟨e, rfl, rfl⟩

theorem extends_edit {edit : Edit α} (h : b.edit edit = .ok b') : b.Extends b' := by
  cases edit with
  | addRoom id caption => exact extends_addRoom h
  | addSubRoom s bare => exact extends_addSubRoom h
  | addDoor uid kind line a side => exact extends_addDoor h
  | setDoorOpen uid isOpen => exact extends_setDoorOpen h

theorem Made.edit (hb : b.Made) {edit : Edit α} (h : b.edit edit = .ok b') : b'.Made := by
  cases edit with
  | addRoom id caption => exact hb.addRoom h
  | addSubRoom s bare => exact hb.addSubRoom h
  | addDoor uid kind line a side => exact hb.addDoor h
  | setDoorOpen uid isOpen => exact hb.setDoorOpen h

theorem CrossReferenced.edit (hb : b.CrossReferenced) (hwf : b.WellFormed) {edit : Edit α}
    (h : b.edit edit = .ok b') : b'.CrossReferenced := by
  cases edit with
  | addRoom id caption => exact hb.addRoom h
  | addSubRoom s bare => exact hb.addSubRoom hwf bare h
  | addDoor uid kind line a side => exact hb.addDoor h
  | setDoorOpen uid isOpen => exact hb.setDoorOpen h

def editAll (b : Building α) (edits : List (Edit α)) : Building α :=
  edits.foldl (fun b edit => (edit.inPlace.run b).2) b

/-- What holds of a building and is kept by every edit that is made holds after any edits. -/
theorem editAll_induction {P : Building α → Prop}
    (hkept : ∀ b b' : Building α, ∀ edit, P b → b.edit edit = .ok b' → P b') (hb : P b)
    (edits : List (Edit α)) : P (b.editAll edits) := by
  induction edits generalizing b with
  | nil => exact hb
  | cons edit edits ih =>
    rw [editAll, List.foldl_cons]
    obtain ⟨b', h, hrun⟩ | ⟨e, -, hrun⟩ := edit.run_inPlace_cases b
    · rw [hrun]
      exact ih (hkept b b' edit hb h)
    · rw [hrun]
      exact ih hb

theorem extends_editAll (edits : List (Edit α)) (b : Building α) : b.Extends (b.editAll edits) :=
  editAll_induction (fun _ _ _ hext h => hext.trans (extends_edit h)) (.refl b) edits

theorem made_editAll (hb : b.Made) (hrefs : b.CrossReferenced) (edits : List (Edit α)) :
    (b.editAll edits).Made ∧ (b.editAll edits).CrossReferenced :=
  editAll_induction (P := fun b => b.Made ∧ b.CrossReferenced)
    (fun _ _ _ hb h => ⟨hb.1.edit h, hb.2.edit hb.1.wellFormed h⟩) ⟨hb, hrefs⟩ edits

/-- After any edits, accepted or refused, rooms, subrooms and doors are known by their own numbers
and refer to each other in both directions. Further edits take nothing away, and one that is refused
leaves the building exactly as it is. -/
theorem editAll_integrity (caption : String) (edits : List (Edit α)) :
    let b := (named caption).editAll edits
    b.WellFormed ∧ b.Housed ∧ b.CrossReferenced ∧
    (∀ more, b.Extends (b.editAll more)) ∧
    ∀ edit : Edit α, (∃ b', b.edit edit = .ok b' ∧ edit.inPlace.run b = (.ok (), b')) ∨
      ∃ e, b.edit edit = .error e ∧ edit.inPlace.run b = (.error e, b) := by
  intro b
  obtain ⟨hmade, hrefs⟩ := made_editAll (.named caption) (crossReferenced_named caption) edits
  exact ⟨hmade.wellFormed, hmade.housed, hrefs, fun more => extends_editAll more b,
    fun edit => edit.run_inPlace_cases b⟩

end Egress.Building
