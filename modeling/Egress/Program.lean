import Egress.CommandLine
import Egress.Field.Dump
import Egress.Scenario.Evacuation
import Egress.Scenario.Office
import Egress.Settings
import Egress.Text.Json

/-!
# The program

Routes a crowd out of the office floor. From the arguments and the parameter files follow the dumps
of the floor fields, the report on how everybody has fared, and the exit code.
-/
namespace Egress

/-- What a run leaves behind. -/
structure Outcome where
  exitCode : Nat
  /-- What is said about it. -/
  message : String
  report : Option (Report Float)
  /-- The dumped files, each with its name and lines. -/
  dumps : List (String × List String)

namespace Fate

def toJson : Fate Float → Text.Json
  | .evacuated t => .object [("Evacuated", .object [("time_s", .decimal t)])]
  | .unroutable => .text "Unroutable"
  | .stillInside => .text "StillInside"

end Fate

def AgentReport.toJson (r : AgentReport Float) : Text.Json :=
  .object [("agent", .integer r.agent), ("doors", .list (r.doors.map fun (d : Nat) => .integer d)),
    ("status", r.fate.toJson)]

def Report.toJson (r : Report Float) : Text.Json :=
  .object [("num_steps", .integer r.intervals), ("final_time_s", .decimal r.finalTime),
    ("agents", .list (r.agents.map (·.toJson)))]

namespace Program

def usage : String :=
  "Routes a crowd out of an office floor.\n\n" ++
  "  -l, --log-level LEVEL   trace, debug or info\n" ++
  "  -s, --steps N           most control intervals, 1200 unless given\n" ++
  "  -n, --num-agents N      number of people up to 32, 20 unless given\n" ++
  "      --smoke             fill the building with smoke\n" ++
  "      --dump              write the floor fields\n" ++
  "  -h, --help\n" ++
  "  -V, --version\n"

def version : String := "0.1.0"

/-- A run that has ended early. -/
def failed (message : String) (dumps : List (String × List String)) : Outcome :=
  ⟨1, message, none, dumps⟩

/-- The parameters in a file, or the standard ones if they cannot be loaded. -/
def parameters {ρ : Type} (files : Settings.Files) (read : Text.Toml.Value → Option ρ)
    (name : String) (standard : ρ) : ρ :=
  match Settings.load files read name with
  | .ok r => r
  | .error _ => standard

/-- Name of the file that a zone is dumped to. -/
def dumpName : Zone → String
  | .room id => s!"floor_field_room_{id}.csv"
  | .subroom uid => s!"floor_field_subroom_{uid}.csv"

/-- The dump of a zone with all its fields. -/
def dumpZone (f : FloorFields Float) (z : Zone) :
    Except (FieldError Float) (String × List String) := do
  return (dumpName z, ← f.dump z (← f.knownTargets z))

/-- The dumps of all zones, none without floor fields. -/
def dumpAll (s : Steering Float) : Except (FieldError Float) (List (String × List String)) :=
  match s.fields with
  | none => .ok []
  | some f => f.zones.keys.mapM (dumpZone f)

/-- The source of hazards of a run, none without smoke. -/
def hazard (options : Options) (params : HazardParams Float) :
    Except (HazardError Float) (Option (HazardField Float)) := do
  if options.smoke then return some (← Office.smoke params).field else return none

/-- The way out of a building, from its floor fields on. -/
def evacuate (options : Options) (files : Settings.Files) (b : Building Float) : Outcome :=
  let fieldParams := parameters files Settings.fieldParams? "floor_field.toml" .standard
  let routerParams := parameters files Settings.routerParams? "router.toml" .standard
  let hazardParams := parameters files Settings.hazardParams? "hazard.toml" .standard
  match Steering.ofBuilding b fieldParams with
  | .error e => failed s!"Failed to build the floor fields: {e.message}" []
  | .ok steering =>
    match if options.dump then dumpAll steering else .ok [] with
    | .error e => failed s!"Failed to dump the floor fields: {e.message}" []
    | .ok dumps =>
      match Router.new b routerParams, hazard options hazardParams with
      | .error e, _ => failed s!"Failed to initialise the router: {e.message}" dumps
      | _, .error e => failed s!"Failed to generate the smoke: {e.message}" dumps
      | .ok router, .ok hazard =>
        let router := match hazard with
          | some field => router.withHazard field
          | none => router
        let crowd := Office.crowd b options.agents
        match Evacuation.simulate router steering crowd options.steps with
        | .error e => failed s!"Routing failed: {e.message}" dumps
        | .ok report => ⟨0, "", some report, dumps⟩

/-- What the arguments and parameter files lead to. -/
def run (args : List String) (files : Settings.Files) : Outcome :=
  match CommandLine.read args with
  | .error .help => ⟨0, usage, none, []⟩
  | .error .version => ⟨0, version, none, []⟩
  | .error .misuse => failed usage []
  | .ok options =>
    if files.isNone then failed SettingsError.noRoot.message []
    else
      match (Office.building : Except BuildingError (Building Float)) with
      | .error e => failed s!"Failed to build the building: {e.message}" []
      | .ok b => evacuate options files b

end Program

end Egress
