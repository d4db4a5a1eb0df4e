import ExecutionControl.CommandLine.Console
import ExecutionControl.Simulation.World

/-! # The operator tool as a program

    Reads the command line and the settings in the environment, carries the command out
    in a world of its own, and prints the answer.
-/

namespace ExecutionControl.CommandLine

/-- The names of all settings that the tool looks at. -/
def settingNames : List String :=
  ["DOCFLOW_DEFAULT_ORG_LIMIT", "DOCFLOW_GLOBAL_LIMIT", "DOCFLOW_SLOT_RETENTION_SECS",
    "DOCFLOW_ADMISSION_LOCK_TTL_MS", "DOCFLOW_ADMISSION_LOCK_WAIT_MS",
    "DOCFLOW_ADMISSION_LOCK_POLL_MS", "DOCFLOW_LIMIT_CACHE_TTL_SECS"]

/-- The console that some settings ask for. -/
def consoleOf (s : Settings) (json : Bool) : Console :=
  let config := AdmissionConfig.ofSettings s
  { operator := ⟨⟨config, .ofDefault config.defaultOrgLimit config.limitCacheTtl⟩⟩
    json }

/-- What is wrong with a command line, in words. -/
def UsageError.message : UsageError → String
  | .helpRequested => "Operator tool for admission limits and caches"
  | .nothingGiven => "a command is needed"
  | .unknownArgument => "unexpected argument"
  | .unknownCommand => "unrecognized subcommand"
  | .missingCommand => "a subcommand is needed"
  | .missingValue => "an option lacks its value"
  | .unwantedValue => "an option takes no value"
  | .unusableValue => "the value of an option cannot be used"
  | .conflict => "options cannot be used together or repeated"
  | .missingOption => "a required option is missing"

/-- Read the settings from the environment. -/
def environment : IO Settings := do
  let mut pairs : List (String × String) := []
  for name in settingNames do
    if let some value ← IO.getEnv name then pairs := (name, value) :: pairs
  let found := pairs
  return fun name => found.lookup name

/-- Print the answer of a command; gives back the exit code. -/
def Printed.emit : Printed → IO UInt32
  | .success text => do
    IO.print text
    return 0
  | .failure text => do
    IO.eprint text
    return 1

end ExecutionControl.CommandLine

open ExecutionControl CommandLine in
/-- Run the operator tool. -/
def main (words : List String) : IO UInt32 := do
  match OperatorArgs.parse ("operator" :: words) with
  | .error .helpRequested =>
    IO.println UsageError.helpRequested.message
    return 0
  | .error e =>
    IO.eprintln ("error: " ++ e.message)
    return 2
  | .ok args =>
    let console := consoleOf (← environment) args.json
    match (World.run {} (console.perform args.command)).1 with
    | .ok (.ok printed) => printed.emit
    | .ok (.error e) => (Printed.ofError e.message).emit
    | .error e => (Printed.ofError e.message).emit
