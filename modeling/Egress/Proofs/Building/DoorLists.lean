import Egress.Proofs.Exact
import Egress.Proofs.Building.Edits

/-!
# The doors that a subroom lists

The doors on the boundary of a subroom can be found by going through all doors. The subroom also
lists them: a new door is appended once for each of its two sides. So the list has the doors that
are found, each once, except that a door with the subroom on both sides is in it twice.
-/
namespace Egress

namespace Door

variable {α : Type}

/-- The subrooms that the door joins: one if it leads out, and one twice if it leads from a subroom
into itself. -/
def sides (d : Door α) : List SubRoomId := d.sideA :: d.sideB.toList

lemma count_sides_of_connects {d : Door α} {s : SubRoomId} (h : d.connects s = true) :
    d.sides.count s = if d.sideB = some d.sideA then 2 else 1 := by
  obtain ⟨uid, kind, line, a, side, isOpen⟩ := d
  rcases Building.connects_iff.1 h with ha | hside
  · obtain rfl : a = s := ha
    cases side with
    | none => simp [sides]
    | some t => by_cases ht : t = a <;> simp [sides, ht]
  · obtain rfl : side = some s := hside
    by_cases ha : a = s
    · simp [sides, ha]
    · simp [sides, ha, Ne.symm ha]

lemma count_sides_of_not_connects {d : Door α} {s : SubRoomId} (h : d.connects s = false) :
    d.sides.count s = 0 := by
  have hsides : ¬(d.sideA = s ∨ d.sideB = some s) := by simp [← Building.connects_iff, h]
  rw [not_or] at hsides
  refine List.count_eq_zero.2 fun hmem => ?_
  rcases List.mem_cons.1 hmem with ha | hside
  · exact hsides.1 ha.symm
  · exact hsides.2 (Option.mem_toList.1 hside)

end Door

namespace Building

variable {α : Type} {b b' : Building α}

/-- How many sides of the door with the number are the subroom. -/
def sidesAt (b : Building α) (s : SubRoomId) (uid : DoorId) : Nat :=
  ((b.door? uid).map fun d => d.sides.count s).getD 0

lemma sidesAt_of_door {d : Door α} {uid : DoorId} (hd : b.door? uid = some d) (s : SubRoomId) :
    b.sidesAt s uid = d.sides.count s := by
  rw [sidesAt, hd, Option.map_some, Option.getD_some]

lemma sidesAt_of_unknown {uid : DoorId} (hd : b.door? uid = none) (s : SubRoomId) :
    b.sidesAt s uid = 0 := by
  rw [sidesAt, hd, Option.map_none, Option.getD_none]

lemma WellFormed.sidesAt_of_new (hwf : b.WellFormed) {s : SubRoomId} (hnew : b.subroom? s = none)
    (uid : DoorId) : b.sidesAt s uid = 0 := by
  cases hd : b.door? uid with
  | none => exact sidesAt_of_unknown hd s
  | some d =>
    rw [sidesAt_of_door hd]
    apply Door.count_sides_of_not_connects
    cases hconn : d.connects s with
    | false => rfl
    | true =>
      obtain ⟨sub, hsub⟩ := hwf.exists_side uid d s hd hconn
      cases hnew.symm.trans hsub

/-- Each subroom lists a door once for each side of the door that it is. -/
def Tallied (b : Building α) : Prop :=
  ∀ s sub uid, b.subroom? s = some sub → sub.doors.count uid = b.sidesAt s uid

theorem tallied_named (caption : String) : (named caption : Building α).Tallied := nofun

theorem Tallied.addRoom (hb : b.Tallied) {id : RoomId} {caption : String}
    (h : b.addRoom id caption = .ok b') : b'.Tallied := by
  obtain ⟨-, rfl⟩ := addRoom_cases h
  exact hb

theorem Tallied.addSubRoom (hb : b.Tallied) (hwf : b.WellFormed) {s : SubRoom α}
    (bare : s.doors = []) (h : b.addSubRoom s = .ok b') : b'.Tallied := by
  obtain ⟨hnew, r, -, rfl⟩ := addSubRoom_cases h
  intro t sub uid ht
  rw [subroom?, OrderedMap.find?_insert] at ht
  split at ht
  · rw [← Option.some.inj ht, bare, ‹t = s.uid›]
    exact (hwf.sidesAt_of_new hnew uid).symm
  · exact hb t sub uid ht

theorem Tallied.addDoor (hb : b.Tallied) {uid : DoorId} {kind : DoorKind} {line : Segment α}
    {a : SubRoomId} {side : Option SubRoomId} (h : b.addDoor uid kind line a side = .ok b') :
    b'.Tallied := by
  obtain ⟨hnew, -, -, -, -, rfl⟩ := addDoor_cases h
  intro s sub uid' hs
  rw [subroom?, find?_foldl_recordDoor, Option.map_eq_some_iff] at hs
  obtain ⟨old, hold, rfl⟩ := hs
  have hcount := hb s old uid' hold
  rw [List.count_append, hcount, List.count_replicate]
  simp only [sidesAt, door?, OrderedMap.find?_insert]
  by_cases huid : uid' = uid
  · subst huid
    rw [door?] at hnew
    simp [hnew, Door.sides]
  · simp [huid, Ne.symm huid]

theorem Tallied.setDoorOpen (hb : b.Tallied) {uid : DoorId} {isOpen : Bool}
    (h : b.setDoorOpen uid isOpen = .ok b') : b'.Tallied := by
  obtain ⟨d, hd, rfl⟩ := setDoorOpen_cases h
  intro s sub uid' hs
  rw [hb s sub uid' hs]
  simp only [sidesAt, door?, OrderedMap.find?_insert]
  by_cases huid : uid' = uid
  · subst huid
    rw [door?] at hd
    simp [hd, Door.sides]
  · simp [huid]

theorem Tallied.edit (hb : b.Tallied) (hwf : b.WellFormed) {edit : Edit α}
    (h : b.edit edit = .ok b') : b'.Tallied := by
  cases edit with
  | addRoom id caption => exact hb.addRoom h
  | addSubRoom s bare => exact hb.addSubRoom hwf bare h
  | addDoor uid kind line a side => exact hb.addDoor h
  | setDoorOpen uid isOpen => exact hb.setDoorOpen h

lemma Tallied.count_doors (hb : b.Tallied) (hwf : b.WellFormed) {s : SubRoomId} {sub : SubRoom α}
    (hs : b.subroom? s = some sub) {d : Door α} (hd : d ∈ b.doorsOf s) :
    sub.doors.count d.uid = if d.sideB = some d.sideA then 2 else 1 := by
  obtain ⟨hget, hconn⟩ := hwf.mem_doorsOf.1 hd
  rw [hb s sub d.uid hs, sidesAt_of_door hget, Door.count_sides_of_connects hconn]

lemma Tallied.mem_doors (hb : b.Tallied) (hwf : b.WellFormed) {s : SubRoomId} {sub : SubRoom α}
    (hs : b.subroom? s = some sub) {uid : DoorId} :
    uid ∈ sub.doors ↔ uid ∈ (b.doorsOf s).map (·.uid) := by
  constructor
  · intro hmem
    have hpos := List.count_pos_iff.2 hmem
    rw [hb s sub uid hs] at hpos
    cases hd : b.door? uid with
    | none =>
      rw [sidesAt_of_unknown hd] at hpos
      exact absurd hpos (lt_irrefl 0)
    | some d =>
      rw [sidesAt_of_door hd] at hpos
      have huid := hwf.door_uid uid d hd
      refine List.mem_map.2 ⟨d, hwf.mem_doorsOf.2 ⟨huid.symm ▸ hd, ?_⟩, huid⟩
      cases hconn : d.connects s with
      | true => rfl
      | false => simp [Door.count_sides_of_not_connects hconn] at hpos
  · intro hmem
    obtain ⟨d, hd, rfl⟩ := List.mem_map.1 hmem
    have hcount := hb.count_doors hwf hs hd
    apply List.count_pos_iff.1
    rw [hcount]
    split <;> decide

/-- The list is that of the doors on the boundary unless one of them leads from the subroom into
itself. -/
lemma Tallied.perm_doors_iff (hb : b.Tallied) (hwf : b.WellFormed) {s : SubRoomId}
    {sub : SubRoom α} (hs : b.subroom? s = some sub) :
    sub.doors.Perm ((b.doorsOf s).map (·.uid)) ↔
      ∀ d ∈ b.doorsOf s, d.sideB ≠ some d.sideA := by
  have hnodup := hwf.nodup_doorsOf s
  constructor
  · intro hperm d hd hself
    have hcount := hb.count_doors hwf hs hd
    rw [hperm.count_eq, hnodup.count, if_pos (List.mem_map_of_mem hd), if_pos hself] at hcount
    cases hcount
  · intro hsides
    have honce : sub.doors.Nodup := by
      refine List.nodup_iff_count_le_one.2 fun uid => ?_
      by_cases hmem : uid ∈ sub.doors
      · obtain ⟨d, hd, rfl⟩ := List.mem_map.1 ((hb.mem_doors hwf hs).1 hmem)
        rw [hb.count_doors hwf hs hd, if_neg (hsides d hd)]
      · rw [List.count_eq_zero.2 hmem]
        exact Nat.zero_le 1
    exact (List.perm_ext_iff_of_nodup honce hnodup).2 fun uid => hb.mem_doors hwf hs

/-- After any edits, accepted or refused, a subroom lists the doors on its boundary and no others,
once each, but twice if the subroom is on both sides of the door. -/
theorem editAll_doors (caption : String) (edits : List (Edit α)) {s : SubRoomId} {sub : SubRoom α}
    (hs : ((named caption).editAll edits).subroom? s = some sub) :
    let doors := ((named caption).editAll edits).doorsOf s
    (doors.map (·.uid)).Nodup ∧
    (∀ uid, uid ∈ sub.doors ↔ uid ∈ doors.map (·.uid)) ∧
    (∀ d ∈ doors, sub.doors.count d.uid = if d.sideB = some d.sideA then 2 else 1) ∧
    (sub.doors.Perm (doors.map (·.uid)) ↔ ∀ d ∈ doors, d.sideB ≠ some d.sideA) := by
  intro doors
  have hkept : ((named caption).editAll edits).Made ∧ ((named caption).editAll edits).Tallied :=
    editAll_induction (P := fun b : Building α => b.Made ∧ b.Tallied)
      (fun _ _ _ hb h => ⟨hb.1.edit h, hb.2.edit hb.1.wellFormed h⟩)
      ⟨.named caption, tallied_named caption⟩ edits
  obtain ⟨hmade, htally⟩ := hkept
  have hwf := hmade.wellFormed
  exact ⟨hwf.nodup_doorsOf s, fun _ => htally.mem_doors hwf hs, fun _ => htally.count_doors hwf hs,
    htally.perm_doors_iff hwf hs⟩

section
open Exact

/-- A hall with a door that leads from it into itself. -/
noncomputable def turnstile : List (Edit Exact) :=
  [.addRoom 0 "hall",
    .addSubRoom (.ofPolygon 5 0 .entrance (.rectangle ⟨real 0, real 0⟩ ⟨real 1, real 1⟩)) rfl,
    .addDoor 3 .crossing ⟨⟨real 0, real 0⟩, ⟨real 1, real 1⟩⟩ 5 (some 5)]

/-- The hall lists its door on the side where it goes in and on the side where it comes out. -/
theorem editAll_doors_turnstile : ∃ sub,
    ((named "turnstile").editAll turnstile).subroom? 5 = some sub ∧ sub.doors = [3, 3] ∧
    sub.doors.count 3 = 2 := by
  obtain ⟨sub, hs, hdoors⟩ : ∃ sub,
      ((named "turnstile").editAll turnstile).subroom? 5 = some sub ∧ sub.doors = [3, 3] :=
    ⟨_, rfl, rfl⟩
  obtain ⟨-, -, hcount, -⟩ := editAll_doors "turnstile" turnstile hs
  exact ⟨sub, hs, hdoors, hcount
    ⟨3, .crossing, ⟨⟨real 0, real 0⟩, ⟨real 1, real 1⟩⟩, 5, some 5, true⟩ List.mem_cons_self⟩

/-- Its list is not that of the doors on its boundary in any order. -/
theorem not_perm_doors_turnstile : ∃ sub,
    ((named "turnstile").editAll turnstile).subroom? 5 = some sub ∧
    ¬sub.doors.Perm ((((named "turnstile").editAll turnstile).doorsOf 5).map (·.uid)) := by
  refine ⟨_, rfl, fun hperm => ?_⟩
  have hlength := hperm.length_eq
  cases hlength

end

end Building

end Egress
