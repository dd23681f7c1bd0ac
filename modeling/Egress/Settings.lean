import Egress.Field.Params
import Egress.Hazard.Basic
import Egress.Router
import Egress.Text.Toml.Document

/-!
# Settings

Parameters as they are written in the parameter files below the software root. A parameter that a
file does not mention keeps its standard value, one that is unknown is skipped, and one that is
given twice or has a value of the wrong kind makes the file unreadable. A group of parameters may
also be written as a list of values in the order of the parameters.
-/
namespace Egress

open Text (Toml.Value Toml.Entries)

/-- Why parameters could not be loaded. -/
inductive SettingsError where
  /-- There is no software root. -/
  | noRoot
  | unopened
  | malformed
  deriving DecidableEq, Repr

def SettingsError.message : SettingsError → String
  | .noRoot => "The software root environment variable (EVAC_NAV_ROOT) is not set"
  | .unopened => "Cannot load the parameter file"
  | .malformed => "Cannot read the parameter file"

def SpeedMode.names : List (String × SpeedMode) :=
  [("Homogeneous", .even), ("WallAvoid", .wallAvoid)]

def SeedMode.names : List (String × SeedMode) :=
  [("LineSegment", .wholeLine), ("CentrePoint", .centre)]

def Granularity.names : List (String × Granularity) :=
  [("None", .none), ("Room", .room), ("SubRoom", .subroom)]

def MapMode.names : List (String × MapMode) :=
  [("Complete", .complete), ("Progressive", .progressive)]

def HazardQuantity.names : List (String × HazardQuantity) :=
  [("SmokeDensity", .smokeDensity), ("Temperature", .temperature), ("Toxicity", .toxicity)]

namespace Settings

/-- A number. -/
def scalar? : Toml.Value → Option Float
  | .decimal x => some x
  | .integer n => some (Text.Decimal.toFloat (decide (n < 0)) n.natAbs 0)
  | _ => none

/-- A whole number that is not negative. -/
def count? : Toml.Value → Option Nat
  | .integer n => if 0 ≤ n then some n.toNat else none
  | _ => none

def flag? : Toml.Value → Option Bool
  | .boolean b => some b
  | _ => none

/-- One of the named values: its name as a text, as the only key of a table in braces that holds an
empty such table, or as the last part of the header that the file consists of. -/
def choice? {β : Type} (names : List (String × β)) : Toml.Value → Option β
  | .text name => names.lookup name
  | .table .inline [(name, .table .inline [])] => names.lookup name
  | .table (.headed (some name)) _ => names.lookup name
  | _ => none

/-- A parameter of a group `ρ`: its name, and how its value changes the group. -/
abbrev Parameter (ρ : Type) := String × (ρ → Toml.Value → Option ρ)

variable {ρ : Type}

/-- A parameter whose value is read by `read` and put in place by `store`. -/
def parameter {β : Type} (name : String) (read : Toml.Value → Option β) (store : ρ → β → ρ) :
    Parameter ρ :=
  (name, fun r v => (read v).map (store r))

/-- Takes over the entries of a table. `given` are the names of the parameters before. -/
def ofEntries? (parameters : List (Parameter ρ)) :
    Toml.Entries → List String → ρ → Option ρ
  | [], _, r => some r
  | (name, v) :: rest, given, r =>
    match parameters.lookup name with
    | none => ofEntries? parameters rest given r
    | some change =>
      if name ∈ given then none
      else (change r v).bind (ofEntries? parameters rest (name :: given))

/-- Takes over the values of a list in the order of the parameters. -/
def ofList? : List (Parameter ρ) → List Toml.Value → ρ → Option ρ
  | _, [], r => some r
  | [], _ :: _, _ => none
  | (_, change) :: parameters, v :: rest, r => (change r v).bind (ofList? parameters rest)

/-- A group of parameters, from its standard values. A date sets none of them. -/
def group? (parameters : List (Parameter ρ)) (standard : ρ) : Toml.Value → Option ρ
  | .table _ entries => ofEntries? parameters entries [] standard
  | .list values => ofList? parameters values standard
  | .date => some standard
  | _ => none

def fieldParameters : List (Parameter (FieldParams Float)) :=
  [parameter "cell_size_m" scalar? fun p v => { p with cellSize := v },
    parameter "wall_avoid_distance_m" scalar? fun p v => { p with wallAvoidDistance := v },
    parameter "speed_mode" (choice? SpeedMode.names) fun p v => { p with speedMode := v },
    parameter "target_mode" (choice? SeedMode.names) fun p v => { p with seedMode := v },
    parameter "granularity" (choice? Granularity.names) fun p v => { p with granularity := v },
    parameter "num_solver_threads" count? fun p v => { p with workers := v }]

def fieldParams? : Toml.Value → Option (FieldParams Float) := group? fieldParameters .standard

def sensorParameters : List (Parameter (SensorParams Float)) :=
  [parameter "discover_doors" flag? fun p v => { p with discovery := v },
    parameter "room_to_floor" flag? fun p v => { p with circulation := v },
    parameter "jam" flag? fun p v => { p with congestion := v },
    parameter "last_destinations" flag? fun p v => { p with recency := v },
    parameter "hazard" flag? fun p v => { p with danger := v },
    parameter "jam_threshold" scalar? fun p v => { p with congestionThreshold := v },
    parameter "jam_stationary_weight" scalar? fun p v => { p with stationaryWeight := v },
    parameter "last_destinations_depth" count? fun p v => { p with recencyDepth := v },
    parameter "last_destinations_penalty" scalar? fun p v => { p with recencyPenalty := v },
    parameter "hazard_quantity" (choice? HazardQuantity.names) fun p v =>
      { p with dangerQuantity := v }]

def sensorParams? : Toml.Value → Option (SensorParams Float) := group? sensorParameters .standard

def routerParameters : List (Parameter (RouterParams Float)) :=
  [parameter "cognitive_map_mode" (choice? MapMode.names) fun p v => { p with mapMode := v },
    parameter "sensors" sensorParams? fun p v => { p with sensors := v }]

def routerParams? : Toml.Value → Option (RouterParams Float) := group? routerParameters .standard

def hazardParameters : List (Parameter (HazardParams Float)) :=
  [parameter "update_interval_s" scalar? fun p v => { p with updateInterval := v },
    parameter "final_time_s" scalar? fun p v => { p with finalTime := v },
    parameter "eye_height_m" scalar? fun p v => { p with eyeHeight := v },
    parameter "elevation_bucket_m" scalar? fun p v => { p with elevationBucket := v }]

def hazardParams? : Toml.Value → Option (HazardParams Float) := group? hazardParameters .standard

/-- The parameter files by name, `none` if there is no software root. -/
abbrev Files := Option (String → Option String)

/-- The parameters written in a text. -/
def ofText (read : Toml.Value → Option ρ) (text : String) : Except SettingsError ρ :=
  match (Text.Toml.read? text).bind read with
  | some r => .ok r
  | none => .error .malformed

/-- The parameters written in a file. -/
def load (files : Files) (read : Toml.Value → Option ρ) (name : String) :
    Except SettingsError ρ :=
  match files with
  | none => .error .noRoot
  | some contents =>
    match contents name with
    | none => .error .unopened
    | some text => ofText read text

end Settings

end Egress
