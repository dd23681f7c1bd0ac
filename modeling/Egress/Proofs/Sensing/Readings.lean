import Egress.Proofs.Exact
import Egress.Proofs.Sensing.Suite

/-!
# Readings that cannot be used

A source of hazard intensities may know nothing about a question or answer it with what is no
intensity. People take such a reading for zero, and so sensing makes no difference between sources
that give the same readings otherwise.
-/
namespace Egress

variable {α : Type} [Scalar α]

/-- What there is to be read for a question: zero without a source. -/
def reading (hazard : Option (HazardField α)) (q : HazardQuery α) : Except (HazardError α) α :=
  match hazard with
  | none => .ok 0
  | some field => field.lookup q

/-- The reading with zero in place of what is unknown, no number, infinite or negative. -/
def usable : Except (HazardError α) α → Except (HazardError α) α
  | .ok v => .ok (if Scalar.isNaN v ∨ ¬Scalar.isFinite v ∨ v < 0 then 0 else v)
  | .error (.notFound _) => .ok 0
  | .error e => .error e

/-- The two sources give the same usable readings. -/
def ReadAlike (hazard hazard' : Option (HazardField α)) : Prop :=
  ∀ q, usable (reading hazard q) = usable (reading hazard' q)

namespace Scalar

@[simp] lemma sanitize_zero : sanitize (0 : α) = 0 := by
  simp [sanitize, finiteOr, larger]

/-- What cannot be used is taken for zero already, if zero is a number. -/
theorem sanitize_usable (hzero : isNaN (0 : α) = false) (v : α) :
    sanitize (if isNaN v ∨ ¬isFinite v ∨ v < 0 then 0 else v) = sanitize v := by
  split
  · rename_i hbad
    rw [sanitize_zero, sanitize, finiteOr]
    split
    · rename_i hfinite
      rcases hbad with hnan | hinf | hneg
      · simp [larger, hnan]
      · exact absurd hfinite hinf
      · by_cases hnan : isNaN v = true
        · simp [larger, hnan]
        · simp [larger, hnan, hzero, hneg]
    · simp [larger]
  · rfl

end Scalar

namespace Danger

variable {quantity : HazardQuantity} {a : Pedestrian α} {env : Surroundings α}
  {hazard' : Option (HazardField α)}

/-- The factor of an edge comes of the usable reading at its door. -/
lemma edgeFactor_eq (hzero : Scalar.isNaN (0 : α) = false) (quantity : HazardQuantity)
    (a : Pedestrian α) (env : Surroundings α) (e : EdgeId × Edge α) :
    edgeFactor quantity a env e =
      (usable (reading env.hazard
        ⟨e.2.line.centre, a.elevation, env.time, quantity, some e.2.door⟩)
        |>.mapError SensorError.hazard).map fun v => (e.1, factor v a.riskTolerance) := by
  unfold edgeFactor intensityAt
  cases env.hazard with
  | none => simp [reading, usable, Except.map, Except.mapError]
  | some field =>
    simp only [reading]
    rcases field.lookup _ with error | v
    · cases error <;> rfl
    · have hfactor := Scalar.sanitize_usable hzero v
      simp only [usable, Except.mapError, Except.map, factor, hfactor]
      rfl

lemma edgeFactor_alike (hzero : Scalar.isNaN (0 : α) = false)
    (h : ReadAlike env.hazard hazard') (e : EdgeId × Edge α) :
    edgeFactor quantity a { env with hazard := hazard' } e = edgeFactor quantity a env e := by
  rw [edgeFactor_eq hzero, edgeFactor_eq hzero, h]

end Danger

variable {a : Pedestrian α} {env : Surroundings α} {hazard' : Option (HazardField α)}

/-- Sensing makes no difference between sources that read alike. -/
theorem Sensor.run_alike (hzero : Scalar.isNaN (0 : α) = false)
    (h : ReadAlike env.hazard hazard') (s : Sensor α) (m : CognitiveMap α) :
    s.run a m { env with hazard := hazard' } = s.run a m env := by
  cases s with
  | danger quantity =>
    have hrun : Danger.run quantity a m { env with hazard := hazard' } =
        Danger.run quantity a m env := by
      unfold Danger.run
      rw [funext (Danger.edgeFactor_alike hzero h)]
    simp only [Sensor.run, hrun]
  | _ => rfl

theorem SensorSuite.fire_alike (hzero : Scalar.isNaN (0 : α) = false)
    (h : ReadAlike env.hazard hazard') (events : Events) (suite : SensorSuite α)
    (m : CognitiveMap α) :
    fire events a { env with hazard := hazard' } suite m = fire events a env suite m := by
  induction suite generalizing m with
  | nil => rfl
  | cons entry suite ih => simp only [fire, Sensor.run_alike hzero h, ih]

end Egress
