/-!
# Routing events

What happens to a person on the way out, as sets of events. Sets are kept as eight bits, of which
five have a name.
-/
namespace Egress

/-- A set of routing events. -/
structure Events where
  bits : UInt8
  deriving DecidableEq, Repr

namespace Events

def none : Events := ⟨0⟩
/-- The person has never had a destination. -/
def init : Events := ⟨1⟩
/-- Some time has passed. -/
def periodic : Events := ⟨2⟩
/-- No way out is known. -/
def noRouteKnown : Events := ⟨4⟩
/-- The person is in another subroom than before. -/
def changedSubRoom : Events := ⟨8⟩
/-- A destination has been chosen. -/
def newDestination : Events := ⟨16⟩

/-- The events that have a name. -/
def named : List (Events × String) :=
  [(init, "INIT"), (periodic, "PERIODIC"), (noRouteKnown, "NO_ROUTE_KNOWN"),
    (changedSubRoom, "CHANGED_SUBROOM"), (newDestination, "NEW_DESTINATION")]

def union (a b : Events) : Events := ⟨a.bits ||| b.bits⟩

def isEmpty (a : Events) : Bool := a.bits == 0

/-- True if all events of `b` are in `a`. -/
def contains (a b : Events) : Bool := a.bits &&& b.bits == b.bits

/-- True if some event is in both sets. -/
def intersects (a b : Events) : Bool := a.bits &&& b.bits != 0

/-- The names of the events in the set. -/
def text (a : Events) : String :=
  if a.isEmpty then "NONE"
  else " | ".intercalate ((named.filter fun e => a.contains e.1).map Prod.snd)

end Events

end Egress
