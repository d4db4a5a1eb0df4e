import ExecutionControl.CommandLine.Grammar

/-! # The command line of the operator tool -/

namespace ExecutionControl.CommandLine

/-- Which cached limits to drop. -/
inductive ClearTarget where
  /-- That of one organisation. -/
  | org (orgId : String)
  /-- All. -/
  | all
  /-- Those of the organisations with a ceiling of their own. -/
  | custom
  deriving DecidableEq, Repr

/-- What the operator wants done. -/
inductive OperatorCommand where
  | clearCache (target : ClearTarget)
  | listLimits
  | setLimit (orgId : String) (limit : Nat)
  | deleteLimit (orgId : String)
  | usage (orgId : String)
  | status (workflowId executionId : String)
  | sweep
  deriving DecidableEq, Repr

/-- A whole command line of the operator tool. -/
structure OperatorArgs where
  coordEndpoint : String
  databaseUrl : String
  /-- Whether to print JSON. -/
  json : Bool
  command : OperatorCommand
  deriving DecidableEq, Repr

namespace OperatorArgs

/-- The option to print JSON, which every command takes. -/
def jsonOption : LongOption := ⟨"json", .flag, false⟩

/-- An option that a command needs. -/
def needed (name : String) (takes : ValueKind := .text) : LongOption := ⟨name, takes, true⟩

/-- A command without subcommands. -/
def leaf (options : List LongOption) (oneOf : List String := []) : Grammar :=
  .command (options ++ [jsonOption]) oneOf []

/-- The grammar of the tool. -/
def grammar : Grammar :=
  .command [⟨"etcd-endpoint", .text, false⟩, needed "database-url", jsonOption] []
    [("cache", .command [jsonOption] []
        [("clear", leaf [⟨"org", .text, false⟩, ⟨"all", .flag, false⟩, ⟨"custom", .flag, false⟩]
          ["org", "all", "custom"])]),
      ("limit", .command [jsonOption] []
        [("list", leaf []),
          ("set", leaf [needed "org", needed "limit" (.number 1 Text.maxWord32)]),
          ("delete", leaf [needed "org"])]),
      ("usage", leaf [needed "org"]),
      ("status", leaf [needed "workflow", needed "execution"]),
      ("sweep", leaf [])]

/-- Where the coordination store is unless another place is given. -/
def defaultCoordEndpoint : String := "http://127.0.0.1:2379"

/-- The target of a command to drop cached limits. -/
def targetOf (given : Given) : ClearTarget :=
  match given.text? "org" with
  | some orgId => .org orgId
  | none => if given.has "all" then .all else .custom

/-- The command that the names of some subcommands and the options of the last stand
    for. -/
def commandOf? (path : List String) (given : Given) : Option OperatorCommand :=
  match path with
  | ["cache", "clear"] => some (.clearCache (targetOf given))
  | ["limit", "list"] => some .listLimits
  | ["limit", "set"] => do some (.setLimit (← given.text? "org") (← given.number? "limit"))
  | ["limit", "delete"] => do some (.deleteLimit (← given.text? "org"))
  | ["usage"] => do some (.usage (← given.text? "org"))
  | ["status"] => do some (.status (← given.text? "workflow") (← given.text? "execution"))
  | ["sweep"] => some .sweep
  | _ => none

/-- The command line that some levels stand for. -/
def ofLevels? : List Level → Option OperatorArgs
  | [] => none
  | top :: subs => do
    let last ← subs.getLast?
    some
      { coordEndpoint := (top.given.text? "etcd-endpoint").getD defaultCoordEndpoint
        databaseUrl := ← top.given.text? "database-url"
        json := (top :: subs).any fun level => level.given.has "json"
        command := ← commandOf? (subs.map (·.command)) last.given }

/-- Read a whole command line, of which the first word names the program. -/
def parse (words : List String) : Except UsageError OperatorArgs := do
  match ofLevels? (← grammar.readAll words) with
  | some args => return args
  | none => throw .missingOption

end OperatorArgs

end ExecutionControl.CommandLine
