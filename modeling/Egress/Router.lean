import Egress.Sensing.Sensor

/-!
# The router

Chooses the door that each person heads for. Everybody gets a map on the first question, and the
router runs the sensors on it as things happen: until a first destination has been found, when the
person is in another subroom, when no way out is known, when a door has been chosen, and from time
to time. A choice is kept until the subroom changes.

A person who knows no way out even after looking around heads for the cheapest door at hand. One
without any usable door is refused, then and ever after.
-/
namespace Egress

structure RouterParams (α : Type) where
  /-- What people know at first. -/
  mapMode : MapMode
  sensors : SensorParams α

def RouterParams.standard {α : Type} [Scalar α] : RouterParams α := ⟨.complete, .standard⟩

inductive RouterError (α : Type) where
  /-- The person has no usable door. -/
  | unroutable (agent : AgentId)
  | network (error : NetworkError)
  | sensor (error : SensorError α)
  | building (error : BuildingError)

def RouterError.message : RouterError Float → String
  | .unroutable a => s!"Agent {a} has no route out of the building"
  | .network e => s!"Graph error: {e.message}"
  | .sensor e => s!"Sensor error: {e.message}"
  | .building e => s!"Building error: {e.message}"

structure Router (α : Type) where
  building : Building α
  params : RouterParams α
  suite : SensorSuite α
  /-- The complete network of the building. -/
  network : Network α
  maps : OrderedMap AgentId (CognitiveMap α)
  hazard : Option (HazardField α)
  /-- Who headed for which door at the last periodic update. -/
  traffic : Traffic α
  /-- The people who are refused. -/
  unroutable : OrderedMap AgentId Unit

/-- Steps that change one person's map and may fail. What was changed before a failure stays. -/
abbrev Routing (α : Type) := ExceptT (RouterError α) (StateM (CognitiveMap α))

namespace Router

variable {α : Type} [Scalar α]

/-- A router that knows nobody yet. -/
def new (b : Building α) (params : RouterParams α) : Except (RouterError α) (Router α) :=
  match Network.ofBuilding b with
  | .error e => .error (.network e)
  | .ok network =>
    .ok ⟨b, params, .ofParams params.sensors, network, .empty, none, .empty, .empty⟩

/-- The router with a hazard for people to perceive. -/
def withHazard (r : Router α) (hazard : HazardField α) : Router α :=
  { r with hazard := some hazard }

def removeAgent (r : Router α) (id : AgentId) : Router α × Option (CognitiveMap α) :=
  ({ r with maps := r.maps.erase id }, r.maps.find? id)

def isUnroutable (r : Router α) (id : AgentId) : Bool := r.unroutable.contains id

def surroundings (r : Router α) (time : α) : Surroundings α :=
  ⟨r.building, time, r.traffic, r.hazard⟩

/-- Runs the sensors that are registered for the events. -/
def sense (r : Router α) (events : Events) (a : Pedestrian α) (time : α) : Routing α Unit :=
  ExceptT.mk fun m =>
    match SensorSuite.fire events a (r.surroundings time) r.suite m with
    | (m', .ok _) => (.ok (), m')
    | (m', .error e) => (.error (.sensor e), m')

/-- The cheapest door at hand, for a person who has found no way out because of `cause`. -/
def fallback (a : Pedestrian α) (m : CognitiveMap α) (cause : NetworkError) :
    Except (RouterError α) (Destination α) :=
  let atHand (s : SubRoomId) :=
    match m.network.localDestination s a.position with
    | .ok d => .ok d
    | .error (.noVertex _) | .error (.noOutEdges _) => .error (.unroutable a.id)
    | .error e => .error (.network e)
  match cause with
  | .noVertex s => atHand s
  | .noRouteKnown s => atHand s
  | e => .error (.network e)

/-- The cheapest way out, after looking around if none is known at first, or the cheapest door at
hand. -/
def choose (r : Router α) (a : Pedestrian α) (time : α) : Routing α (Destination α) := do
  match (← get).network.cheapestDestination a.subroom a.position with
  | .ok d => return d
  | .error _ =>
    r.sense .noRouteKnown a time
    let m ← get
    match m.network.cheapestDestination a.subroom a.position with
    | .ok d => return d
    | .error cause => liftExcept (fallback a m cause)
where
  /-- A result as a step that changes nothing. -/
  liftExcept {β : Type} (e : Except (RouterError α) β) : Routing α β := ExceptT.mk (pure e)

/-- The door chosen last, if that was in the subroom where the person is. -/
def keptDoor? (m : CognitiveMap α) (subroom : SubRoomId) : Option DoorId :=
  if m.lastSubRoom = some subroom then
    m.lastDestination?.bind fun e => (m.network.edge? e).map (·.door)
  else none

/-- Searches for a new door and makes the person head for it. -/
def redirect (r : Router α) (a : Pedestrian α) (time : α) :
    Routing α (DoorId × Pedestrian α) := do
  let d ← r.choose a time
  match (← get).network.edge? d.edge with
  | none => throw (.network (.noOutEdges a.subroom))
  | some edge =>
    modify fun m => m.addDestination d.edge
    r.sense .newDestination a time
    modify fun m => { m with lastSubRoom := some a.subroom }
    return (edge.door, a.headFor edge.door edge.line)

/-- The door that a person who is not refused heads for, and the person heading for it. -/
def route (r : Router α) (a : Pedestrian α) (time : α) :
    Routing α (DoorId × Pedestrian α) := do
  if !(← get).hasDestination then r.sense .init a time
  let m ← get
  match keptDoor? m a.subroom with
  | some door => return (door, a)
  | none =>
    if m.lastSubRoom ≠ some a.subroom then r.sense .changedSubRoom a time
    r.redirect a time

/-- The map of a person, a new one if there is none. -/
def mapOf (r : Router α) (id : AgentId) : CognitiveMap α :=
  (r.maps.find? id).getD
    ((CognitiveMap.new id r.params.mapMode r.network).withDepth r.params.sensors.recencyDepth)

/-- Chooses the door that a person heads for. The answer comes with the router and the person as
they have become. -/
def findExit (r : Router α) (a : Pedestrian α) (time : α) :
    Router α × Pedestrian α × Except (RouterError α) DoorId :=
  if r.isUnroutable a.id then (r, a, .error (.unroutable a.id))
  else
    let (result, m) := (r.route a time).run (r.mapOf a.id)
    let r := { r with maps := r.maps.insert a.id m }
    match result with
    | .ok (door, a') => (r, a', .ok door)
    | .error (.unroutable id) =>
      ({ r with unroutable := r.unroutable.insert a.id () }, a, .error (.unroutable id))
    | .error e => (r, a, .error e)

/-- Runs the periodic sensors for one person with a map. The answer is whether they all
finished. -/
def periodicFor (r : Router α) (a : Pedestrian α) (time : α) : Router α × Bool :=
  if r.isUnroutable a.id then (r, false)
  else match r.maps.find? a.id with
    | none => (r, false)
    | some m =>
      let (result, m') := (r.sense .periodic a time).run m
      ({ r with maps := r.maps.insert a.id m' }, result.isOk)

/-- Takes note of who heads for which door and runs the periodic sensors for everybody with a map.
The answer is for how many people they all finished. -/
def periodic (r : Router α) (agents : List (Pedestrian α)) (time : α) : Router α × Nat :=
  agents.foldl (fun (r, n) a =>
    let (r', done) := r.periodicFor a time
    (r', if done then n + 1 else n)) ({ r with traffic := .ofAgents agents }, 0)

end Router

end Egress
