import Egress.Main
import Egress.Duration
import Egress.Snapshot
import Egress.Proofs.Field.Upwind
import Egress.Proofs.Field.Arrival
import Egress.Proofs.MinHeap
import Egress.Proofs.Field.Front
import Egress.Proofs.Field.Solve
import Egress.Proofs.Grid.FloorPlan
import Egress.Proofs.Field.Descent
import Egress.Proofs.Field.Reach
import Egress.Proofs.Field.PathCosts
import Egress.Proofs.Field.Monotone
import Egress.Proofs.Field.Walls
import Egress.Proofs.Field.Labels
import Egress.Proofs.Field.NearestWall
import Egress.Proofs.Field.Target
import Egress.Proofs.Network.Growth
import Egress.Proofs.Network.Rewriting
import Egress.Proofs.Network.Route
import Egress.Proofs.Network.Trail
import Egress.Proofs.Network.Search
import Egress.Proofs.Geometry
import Egress.Proofs.Network.Weight
import Egress.Proofs.Network.Cheapest
import Egress.Proofs.Network.Detours
import Egress.Proofs.Laws
import Egress.Proofs.Network.Scan
import Egress.Proofs.Building
import Egress.Proofs.Building.DoorLists
import Egress.Proofs.Building.Edits
import Egress.Proofs.Network.Building
import Egress.Proofs.Network.Edits
import Egress.Proofs.Network.Factors
import Egress.Proofs.Sensing.Discovery
import Egress.Proofs.Sensing.Findings
import Egress.Proofs.Sensing.Learning
import Egress.Proofs.Sensing.Suite
import Egress.Proofs.Sensing.Firing
import Egress.Proofs.Sensing.Circulation
import Egress.Proofs.Router.Choice
import Egress.Proofs.Router.Runs
import Egress.Proofs.Router.Answers
import Egress.Proofs.Router.Responses
import Egress.Proofs.Router.States
import Egress.Proofs.Router.Periodic
import Egress.Proofs.Field.Workers
import Egress.Proofs.Field.FloorFields
import Egress.Proofs.Router.Steering
import Egress.Proofs.Network.Discovery
import Egress.Proofs.Network.Coverage
import Egress.Proofs.Network.Renumbering
import Egress.Proofs.Sensing.Traffic
import Egress.Proofs.Router.Independence
import Egress.Proofs.Router.Keeping
import Egress.Proofs.Router.Service
import Egress.Proofs.Sensing.Readings
import Egress.Proofs.Router.Readings
import Egress.Proofs.Sensing.Commuting
import Egress.Proofs.Sensing.Forgetting
import Egress.Proofs.Router.Failures
import Egress.Proofs.Router.Forgetting
import Egress.Proofs.Router.Chosen
import Egress.Proofs.Router.Knowledge
import Egress.Proofs.Router.Circulation
import Egress.Proofs.Sensing.Congestion
import Egress.Proofs.Router.Congestion
import Egress.Proofs.Sensing.Crowds
import Egress.Proofs.Sensing.Bounds
import Egress.Proofs.Router.Multipliers
import Egress.Proofs.Scenario.Walking
import Egress.Proofs.Scenario.Turns
import Egress.Proofs.Scenario.Evacuation
import Egress.Proofs.Scenario.Office
import Egress.Proofs.Scenario.Smoke
import Egress.Proofs.Field.StraightLine
import Egress.Proofs.Field.Barrier
import Egress.Proofs.Geometry.Polygon
import Egress.Proofs.Geometry.Chord
import Egress.Proofs.Geometry.Segment
import Egress.Proofs.Grid.Covering
import Egress.Proofs.Grid.Layout
import Egress.Proofs.Grid.Query
import Egress.Proofs.Grid.Addressing
import Egress.Proofs.Hazard.Store
import Egress.Proofs.Hazard.Reading
import Egress.Proofs.Hazard.Knots
