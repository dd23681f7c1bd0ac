import Egress.Word

/-!
# Scalars

All coordinates, costs and times are values of one scalar type. The class lists what the rest of
the library needs of it: field operations, a decidable order, a square root, an exponential and
rounding. Double precision is the scalar that programs run on; nothing below this module mentions
it, so the same definitions can be read over any other scalar.
-/
namespace Egress

/-- A number type for coordinates, costs and times. It has an infinity for what cannot be reached,
and may have values that are not numbers, which compare false with everything. -/
class Scalar (α : Type) extends Add α, Sub α, Mul α, Div α, Neg α, LT α, LE α, BEq α,
    NatCast α, OfScientific α where
  /-- Larger than every finite value. -/
  infinity : α
  /-- True of the values that are not numbers. -/
  isNaN : α → Bool
  /-- True of the values that are numbers and not infinite. -/
  isFinite : α → Bool
  /-- Square root. -/
  sqrt : α → α
  /-- Exponential. -/
  exp : α → α
  /-- Nearest whole number, halves going away from zero. -/
  round : α → α
  /-- Largest whole number not above. -/
  floor : α → α
  /-- Smallest whole number not below. -/
  ceil : α → α
  /-- Whole part as a count below `2 ^ 64`: negative values and what is no number count as zero,
  larger values as `2 ^ 64 - 1`. -/
  toCount : α → Nat
  decidableLT : DecidableLT α
  decidableLE : DecidableLE α

namespace Scalar

instance (priority := low) {α : Type} [s : Scalar α] : DecidableLT α := s.decidableLT

instance (priority := low) {α : Type} [s : Scalar α] : DecidableLE α := s.decidableLE

instance (priority := low) {α : Type} [Scalar α] (n : Nat) : OfNat α n := ⟨(n : α)⟩

instance : Scalar Float where
  natCast := Float.ofNat
  infinity := 1.0 / 0.0
  isNaN := Float.isNaN
  isFinite := Float.isFinite
  sqrt := Float.sqrt
  exp := Float.exp
  round := Float.round
  floor := Float.floor
  ceil := Float.ceil
  toCount x := x.toUInt64.toNat
  decidableLT := inferInstance
  decidableLE := inferInstance

variable {α : Type} [Scalar α]

/-- The larger of two values. A value that is no number is ignored. -/
@[specialize] def larger (a b : α) : α :=
  if isNaN a then b else if isNaN b then a else if a < b then b else a

/-- The smaller of two values. A value that is no number is ignored. -/
@[specialize] def smaller (a b : α) : α :=
  if isNaN a then b else if isNaN b then a else if b < a then b else a

/-- Strict order in which a value that is no number comes after every number. -/
@[specialize] def precedes (a b : α) : Bool :=
  decide (a < b) || (!isNaN a && isNaN b)

/-- Image of `value` under the linear map that sends `s₀` to `t₀` and `s₁` to `t₁`. -/
def linMap (s₀ s₁ t₀ t₁ value : α) : α :=
  t₀ + ((value - s₀) * (t₁ - t₀) / (s₁ - s₀))

/-- `value` held between `low` and `high`. What is no number passes unchanged, and `low` wins where
the two bounds cross. -/
def clamp (value low high : α) : α :=
  let held := if high < value then high else value
  if held < low then low else held

/-- `value` where it is finite, and `fallback` elsewhere. -/
def finiteOr (value fallback : α) : α :=
  if isFinite value then value else fallback

/-- A reading made safe to use as an intensity: zero in place of what is negative, infinite or no
number. -/
def sanitize (value : α) : α :=
  larger (finiteOr value 0) 0

/-- Whole part as a signed count of 32 bits, held at the ends of their range. -/
def toInt32 (x : α) : Int :=
  if x < 0 then -(min (toCount (-x)) (wordCount 31) : Nat)
  else (min (toCount x) (wordCount 31 - 1) : Nat)

/-- Whole part as an unsigned count of 32 bits, held at the ends of their range. -/
def toCount32 (x : α) : Nat :=
  min (toCount x) (wordCount 32 - 1)

/-- Sum from the left. -/
def sum (xs : List α) : α :=
  xs.foldl (· + ·) 0

end Scalar

end Egress
