import Egress.Program

/-!
# Command line program

Reads the parameter files below the software root, runs the program and writes the report and the
dumps into a new directory for the session.
-/
namespace Egress.Session

/-- The text of a file, `none` if it cannot be read. -/
def readText? (path : String) : IO (Option String) := do
  try return some (← IO.FS.readFile path) catch _ => return none

/-- The parameter files below the software root. -/
def readSettings (root : String) : IO Settings.Files := do
  let names := ["floor_field.toml", "router.toml", "hazard.toml"]
  let texts ← names.mapM fun name => do return (name, ← readText? s!"{root}/params/{name}")
  return some fun name => (texts.lookup name).join

/-- Writes the report and the dumps of a run, if it has left any. -/
def writeOutcome (root : String) (outcome : Outcome) : IO Unit := do
  if outcome.report.isNone && outcome.dumps.isEmpty then return
  let now ← IO.monoMsNow
  let session := s!"{root}/sessions/egress_{now}"
  IO.FS.createDirAll s!"{session}/dumps"
  for (name, lines) in outcome.dumps do
    IO.FS.writeFile s!"{session}/dumps/{name}" (String.join (lines.map (· ++ "\n")))
  if let some report := outcome.report then
    IO.FS.writeFile s!"{session}/routing_report.json" report.toJson.indented

/-- Runs the program with the given arguments. The answer is the exit code. -/
def run (args : List String) : IO UInt32 := do
  let root ← IO.getEnv "EVAC_NAV_ROOT"
  let files ← match root with
    | some root => readSettings root
    | none => pure none
  let outcome := Program.run args files
  if let some root := root then writeOutcome root outcome
  if outcome.exitCode = 0 then IO.print outcome.message else IO.eprintln outcome.message
  return outcome.exitCode.toUInt32

end Egress.Session

def main (args : List String) : IO UInt32 := Egress.Session.run args
