import Egress.LogLevel
import Egress.Word

/-!
# Command line

Arguments are read from left to right. Options take a value from the same argument or from the
next one, unless that looks like an option itself; an option without any value keeps its standard
value. Nothing may be given twice, and there are no arguments but options.
-/
namespace Egress

/-- What a run is asked to do. -/
structure Options where
  logLevel : LogLevel
  /-- Most control intervals that are simulated. -/
  steps : Nat
  /-- Number of people. -/
  agents : Nat
  /-- Whether there is smoke. -/
  smoke : Bool
  /-- Whether the floor fields are dumped. -/
  dump : Bool

namespace CommandLine

/-- Why there is nothing to run. -/
inductive Stop where
  | help
  | version
  | misuse
  deriving DecidableEq, Repr

inductive OptionName where
  | logLevel
  | steps
  | agents
  | smoke
  | dump
  | help
  | version
  deriving DecidableEq, Repr

/-- True of the options that take a value. -/
def OptionName.takesValue : OptionName → Bool
  | .logLevel | .steps | .agents => true
  | .smoke | .dump | .help | .version => false

def longNames : List (List Char × OptionName) :=
  [("log-level", .logLevel), ("steps", .steps), ("num-agents", .agents), ("smoke", .smoke),
    ("dump", .dump), ("help", .help), ("version", .version)].map fun (s, o) => (s.toList, o)

def shortNames : List (Char × OptionName) :=
  [('l', .logLevel), ('s', .steps), ('n', .agents), ('h', .help), ('V', .version)]

/-- An option that was given, with its value if it has one. -/
structure Given where
  option : OptionName
  value : Option (List Char)

/-- A value without the equals signs in front of it. -/
def strip (value : List Char) : List Char := value.dropWhile (· = '=')

/-- The option that an argument names, and the value in the same argument. -/
def named? : List Char → Option Given
  | '-' :: '-' :: cs =>
    let body := cs.dropWhile (· = '-')
    let name := body.takeWhile (· ≠ '=')
    (longNames.lookup name).map fun option =>
      ⟨option, if name.length = body.length then none else some (strip (body.drop name.length))⟩
  | '-' :: c :: cs =>
    (shortNames.lookup c).map fun option => ⟨option, if cs.isEmpty then none else some (strip cs)⟩
  | _ => none

/-- True of arguments that are not taken as the value of the option before them. -/
def isOption : List Char → Bool
  | '-' :: _ :: _ => true
  | _ => false

/-- The options in a list of arguments, up to the first that asks for help or for the version. -/
def given : List (List Char) → Except Stop (List Given)
  | [] => .ok []
  | ['-', '-'] :: rest => if rest.isEmpty then .ok [] else .error .misuse
  | arg :: rest => do
    match named? arg with
    | none => throw .misuse
    | some ⟨.help, _⟩ => throw .help
    | some ⟨.version, _⟩ => throw .version
    | some ⟨option, value⟩ =>
      match rest with
      | next :: after =>
        if option.takesValue && value.isNone && !isOption next then
          return ⟨option, some next⟩ :: (← given after)
        else return ⟨option, value⟩ :: (← given (next :: after))
      | [] => return [⟨option, value⟩]
termination_by args => args.length

/-- A count below `2 ^ 64` in decimal digits, which may have a plus sign. -/
def count? (text : List Char) : Option Nat :=
  let digits := match text with
    | '+' :: cs => cs
    | cs => cs
  let n : Nat := digits.foldl (fun n c => 10 * n + (c.toNat - '0'.toNat)) 0
  if !digits.isEmpty && digits.all Char.isDigit && decide (n < wordCount 64) then some n else none

/-- The value of a count among the given options. -/
def countOf (gs : List Given) (option : OptionName) (standard : Nat) : Except Stop Nat :=
  match (gs.find? (·.option = option)).bind (·.value) with
  | none => .ok standard
  | some text =>
    match count? text with
    | some n => .ok n
    | none => .error .misuse

/-- The log level among the given options. One that is unknown counts as `info`. -/
def logLevelOf (gs : List Given) : LogLevel :=
  (((gs.find? (·.option = .logLevel)).bind (·.value)).bind fun text =>
    LogLevel.ofText? (.ofList text)).getD .info

/-- What a list of arguments asks for. -/
def read (args : List String) : Except Stop Options := do
  let gs ← given (args.map String.toList)
  if !decide (gs.map (·.option)).Nodup then throw .misuse
  return {
    logLevel := logLevelOf gs
    steps := ← countOf gs .steps 1200
    agents := ← countOf gs .agents 20
    smoke := gs.any (·.option = .smoke)
    dump := gs.any (·.option = .dump) }

end CommandLine

end Egress
