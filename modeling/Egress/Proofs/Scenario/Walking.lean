import Egress.Proofs.Building
import Egress.Scenario.Walking

/-!
# Where people are

People are in the room and the subroom of the floor that they stand on, however they walk. Only a
person who leaves the building steps off its floor, and heads for an exit then.
-/
namespace Egress

variable {α : Type} {b : Building α}

def Building.IsExit (b : Building α) (door : DoorId) : Prop :=
  ∃ d, b.door? door = some d ∧ d.isExit = true

variable [Scalar α] {a : Pedestrian α}

lemma Building.WellFormed.subroom?_of_subroomAt (hb : b.WellFormed) {p : Point α} {s : SubRoom α}
    (h : b.subroomAt p = some s) : b.subroom? s.uid = some s := by
  obtain ⟨uid, hs⟩ := OrderedMap.mem_values_iff.1 (List.mem_of_find?_eq_some h)
  have huid : s.uid = uid := hb.subroom_uid uid s hs
  rw [huid]
  exact hs

namespace Pedestrian

/-- The person is in the room and the subroom that are found at the person's position. -/
def Located (b : Building α) (a : Pedestrian α) : Prop :=
  ∃ s, b.subroomAt a.position = some s ∧ a.room = s.room ∧ a.subroom = s.uid

lemma Located.exists_subroom (h : a.Located b) (hb : b.WellFormed) :
    ∃ sub, b.subroom? a.subroom = some sub := by
  obtain ⟨s, hs, -, huid⟩ := h
  rw [huid]
  exact ⟨s, hb.subroom?_of_subroomAt hs⟩

lemma exists_exit_of_isLeaving {p : Point α} (h : a.isLeaving b p = true) :
    ∃ door, a.destination = some door ∧ b.IsExit door := by
  unfold isLeaving at h
  split at h
  · rename_i d hd
    obtain ⟨door, hdoor, hd⟩ := Option.bind_eq_some_iff.1 hd
    exact ⟨door, hdoor, d, hd, (Bool.and_eq_true_iff.1 h).1⟩
  · cases h

/-- A step keeps who takes it and where to, and leaves the person on the floor or at an exit. -/
theorem step_cases (b : Building α) (a : Pedestrian α) (target : Point α) (dt : α) :
    (a.step b target dt).1.id = a.id ∧ (a.step b target dt).1.destination = a.destination ∧
      ((a.step b target dt).2 ≠ .evacuated ∧ (a.Located b → (a.step b target dt).1.Located b) ∨
        (a.step b target dt).2 = .evacuated ∧
          ∃ door, a.destination = some door ∧ b.IsExit door) := by
  unfold step
  cases a.heading? target with
  | none => exact ⟨rfl, rfl, .inl ⟨by simp, fun h => h⟩⟩
  | some heading =>
    simp only
    cases hnext : b.subroomAt (a.position + (heading.scale walkingSpeed).scale dt) with
    | some s => exact ⟨rfl, rfl, .inl ⟨by simp, fun _ => ⟨s, hnext, rfl, rfl⟩⟩⟩
    | none =>
      simp only
      split
      · rename_i hleaving
        exact ⟨rfl, rfl, .inr ⟨rfl, exists_exit_of_isLeaving hleaving⟩⟩
      · exact ⟨rfl, rfl, .inl ⟨by simp, fun h => h⟩⟩

end Pedestrian

end Egress
