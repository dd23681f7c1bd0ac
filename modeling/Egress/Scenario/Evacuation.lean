import Egress.Field.Steering
import Egress.Router
import Egress.Scenario.Walking

/-!
# Evacuations

A crowd on its way out of a building, in control intervals of a tenth of a second. In each, every
person asks the router for a door and the steering for a point, and takes a step. The run ends when
nobody is left who could still get out, or after a given number of intervals, with a report.
-/
namespace Egress

/-- How a person has fared. -/
inductive Fate (α : Type) where
  | evacuated (time : α)
  | unroutable
  | stillInside

structure AgentReport (α : Type) where
  agent : AgentId
  /-- Doors headed for, oldest first. -/
  doors : List DoorId
  fate : Fate α

structure Report (α : Type) where
  /-- Control intervals begun. -/
  intervals : Nat
  /-- Time of the last one. -/
  finalTime : α
  /-- People by ascending number. -/
  agents : List (AgentReport α)

/-- What a person's turn comes to. -/
inductive Turn (α : Type) where
  /-- The router knows no door. -/
  | refused (error : RouterError α)
  /-- There is no point to walk to. -/
  | unguided (error : FieldError α)
  | walked (door : DoorId) (step : Step)

/-- A crowd on its way out. -/
structure Evacuation (α : Type) where
  router : Router α
  /-- The people inside. -/
  crowd : List (Pedestrian α)
  /-- When people left. -/
  left : OrderedMap AgentId α
  /-- Reports on people who have left, in the order in which they were made. -/
  reports : List (AgentReport α)

namespace Evacuation

variable {α : Type} [Scalar α]

/-- Length of a control interval in seconds. -/
def interval : α := 0.1

/-- Control intervals from one periodic update to the next. -/
def periodicIntervals : Nat := 10

/-- One person's turn: chooses a door, looks for a point to walk to, and walks for `dt` seconds.
The answer comes with the router and the person as they have become. -/
def takeTurn (router : Router α) (steering : Steering α) (a : Pedestrian α) (time dt : α) :
    Router α × Pedestrian α × Turn α :=
  match router.findExit a time with
  | (router, a, .error e) => (router, a, .refused e)
  | (router, a, .ok door) =>
    match steering.target router.building a with
    | .error e => (router, a, .unguided e)
    | .ok p =>
      let (a, step) := a.step router.building p dt
      (router, a, .walked door step)

/-- What one person does in a control interval. A person who is refused as unroutable, or has no
point to walk to, stays where they are. -/
def moveAgent (steering : Steering α) (time : α) (e : Evacuation α) (a : Pedestrian α) :
    Except (RouterError α) (Evacuation α × Pedestrian α) :=
  match takeTurn e.router steering a time interval with
  | (router, a, .refused (.unroutable _)) => .ok ({ e with router }, a)
  | (_, _, .refused error) => .error error
  | (router, a, .unguided _) => .ok ({ e with router }, a)
  | (router, a, .walked _ step) =>
    let left := if step = .evacuated then e.left.insert a.id time else e.left
    .ok ({ e with router, left }, a)

/-- What a list of people do one after the other. -/
def moveAll (steering : Steering α) (time : α) :
    List (Pedestrian α) → Evacuation α → Except (RouterError α) (Evacuation α × List (Pedestrian α))
  | [], e => .ok (e, [])
  | a :: rest, e => do
    let (e, a) ← moveAgent steering time e a
    let (e, rest) ← moveAll steering time rest e
    return (e, a :: rest)

/-- Reports on the people who have left and whom the router still remembers, and forgets them. -/
def handOver (e : Evacuation α) : Evacuation α :=
  let e := e.left.entries.foldl (fun e (id, time) =>
    match e.router.removeAgent id with
    | (router, some m) =>
      { e with router, reports := e.reports ++ [⟨id, m.historyDoors, .evacuated time⟩] }
    | (router, none) => { e with router }) e
  { e with crowd := e.crowd.filter fun a => !e.left.contains a.id }

/-- One control interval. -/
def cycle (steering : Steering α) (number : Nat) (e : Evacuation α) :
    Except (RouterError α) (Evacuation α) := do
  let time := (number : α) * interval
  let router :=
    if number % periodicIntervals = 0 then (e.router.periodic e.crowd time).1 else e.router
  let (e, crowd) ← moveAll steering time e.crowd { e with router }
  return handOver { e with crowd }

/-- True if everybody inside is refused by the router. -/
def isOver (e : Evacuation α) : Bool := e.crowd.all fun a => e.router.isUnroutable a.id

/-- Up to `n` control intervals from number `number` on, and how many have begun then. -/
def run (steering : Steering α) :
    Nat → Nat → Evacuation α → Except (RouterError α) (Evacuation α × Nat)
  | 0, number, e => .ok (e, number)
  | n + 1, number, e => do
    let e ← cycle steering number e
    if e.isOver then return (e, number + 1) else run steering n (number + 1) e

/-- Reports on the people who are still inside. -/
def remaining (e : Evacuation α) : List (AgentReport α) :=
  e.crowd.map fun a =>
    ⟨a.id, ((e.router.maps.find? a.id).map (·.historyDoors)).getD [],
      if e.router.isUnroutable a.id then .unroutable else .stillInside⟩

def report (e : Evacuation α) (intervals : Nat) : Report α where
  intervals
  finalTime := ((intervals - 1 : Nat) : α) * interval
  agents := (e.reports ++ e.remaining).mergeSort fun a b => decide (a.agent ≤ b.agent)

/-- The report on a crowd's way out of a building in at most `n` control intervals. -/
def simulate (router : Router α) (steering : Steering α) (crowd : List (Pedestrian α)) (n : Nat) :
    Except (RouterError α) (Report α) := do
  let (e, intervals) ← run steering n 0 ⟨router, crowd, .empty, []⟩
  return e.report intervals

end Evacuation

end Egress
