import Egress.Scalar

/-!
# Durations

Stretches of time counted in nanoseconds, in 64 bits with a sign.
-/
namespace Egress

inductive TimeUnit where
  | nanosecond
  | microsecond
  | millisecond
  deriving DecidableEq, Repr

def TimeUnit.nanoseconds : TimeUnit → Int
  | .nanosecond => 1
  | .microsecond => 1000
  | .millisecond => 1000000

/-- Seconds in `n` units of time, `none` if the nanoseconds in it do not fit into 64 bits. -/
def durationSeconds {α : Type} [Scalar α] (n : Int) (unit : TimeUnit) : Option α :=
  let ns := n * unit.nanoseconds
  if fitsWord ns then
    let whole : α := (ns.natAbs : α)
    some ((if ns < 0 then -whole else whole) / 1e9)
  else none

end Egress
