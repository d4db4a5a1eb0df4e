import ExecutionControl.Text.Numeral

/-! # Command line grammars

    A command takes long options and may have subcommands, each with a grammar of its
    own. A command line is read from left to right, and what is wrong is reported for
    the first place where it is noticed; what is missing is noticed at the end of each
    command, the innermost first.

    The value of an option is either attached with `=`, and then looked at on the spot,
    or it is the next argument, and then looked at only when the next option or the end
    of the command is met.
-/

namespace ExecutionControl.CommandLine

/-- What is wrong with a command line. -/
inductive UsageError where
  /-- Help is asked for. -/
  | helpRequested
  /-- Nothing is given to a command that has subcommands. -/
  | nothingGiven
  /-- There is no such option, or no place for an argument. -/
  | unknownArgument
  /-- There is no such subcommand. -/
  | unknownCommand
  /-- A subcommand is needed. -/
  | missingCommand
  /-- An option is given without the value that it takes. -/
  | missingValue
  /-- An option is given with a value that it does not take. -/
  | unwantedValue
  /-- The value of an option cannot be used. -/
  | unusableValue
  /-- An option is given twice, or together with one that it excludes. -/
  | conflict
  /-- An option is needed. -/
  | missingOption
  deriving DecidableEq, Repr

/-! ### Grammars -/

/-- What an option takes. -/
inductive ValueKind where
  /-- Nothing. -/
  | flag
  /-- A text. -/
  | text
  /-- A number in a range. -/
  | number (low high : Nat)
  deriving DecidableEq, Repr

/-- The value of an option that is given. -/
inductive OptionValue where
  | flag
  | text (s : String)
  | number (n : Nat)
  deriving DecidableEq, Repr

/-- A long option. -/
structure LongOption where
  /-- The name without its dashes. -/
  name : String
  takes : ValueKind
  /-- Whether the command needs the option. -/
  required : Bool := false
  deriving DecidableEq, Repr

/-- What a command takes. -/
inductive Grammar where
  /-- The options, the names of options of which exactly one must be given if there are
      any, and the subcommands, of which one must be given if there are any. -/
  | command (options : List LongOption) (oneOf : List String)
      (subcommands : List (String × Grammar))

namespace Grammar

/-- The options of a command. -/
def options : Grammar → List LongOption
  | command os _ _ => os

/-- The options of which exactly one must be given, if there are any. -/
def oneOf : Grammar → List String
  | command _ names _ => names

/-- The subcommands of a command. -/
def subcommands : Grammar → List (String × Grammar)
  | command _ _ cs => cs

/-- Whether a command has subcommands. -/
def isBranching (g : Grammar) : Bool := !g.subcommands.isEmpty

/-- The subcommand that prints help. It has no grammar of its own. -/
def helpName : String := "help"

/-- Whether an argument names a subcommand. Wherever there are others, there is one that
    prints help. -/
def names (g : Grammar) (arg : String) : Bool :=
  g.isBranching && (arg == helpName || (g.subcommands.lookup arg).isSome)

end Grammar

/-- The options that are given to a command, by name. -/
abbrev Given := List (String × OptionValue)

/-- A command with the options that are given to it. -/
structure Level where
  command : String
  given : Given
  deriving DecidableEq, Repr

/-! ### Options -/

/-- The value that a text stands for. -/
def ValueKind.read : ValueKind → String → Except UsageError OptionValue
  | .flag, _ => .error .unwantedValue
  | .text, s => .ok (.text s)
  | .number low high, s =>
    match Text.readNat high s with
    | .ok n => if low ≤ n then .ok (.number n) else .error .unusableValue
    | .error _ => .error .unusableValue

/-- Whether an option is given. -/
def Given.has (g : Given) (name : String) : Bool := (g.lookup name).isSome

/-- Add an option with its value, which it must not have already. -/
def Given.accept (g : Given) (o : LongOption) (raw : String) : Except UsageError Given :=
  if g.has o.name then .error .conflict
  else (o.takes.read raw).map fun v => (o.name, v) :: g

/-- Add an option that takes nothing. -/
def Given.acceptFlag (g : Given) (name : String) : Except UsageError Given :=
  if g.has name then .error .conflict else .ok ((name, .flag) :: g)

/-- An option whose value is not attached, with the next argument once it is there. -/
abbrev Waiting := Option (LongOption × Option String)

/-- Whether the next argument is the value of an option. -/
def Waiting.wantsValue : Waiting → Bool
  | some (_, none) => true
  | _ => false

/-- Look at the value of the option before. -/
def Given.resolve (g : Given) : Waiting → Except UsageError Given
  | none => .ok g
  | some (_, none) => .error .missingValue
  | some (o, some raw) => g.accept o raw

/-! ### Arguments -/

/-- What the form of an argument says. -/
inductive Form where
  /-- Two dashes alone: only plain arguments follow. -/
  | divider
  /-- A long option with the value attached to it, if there is one. -/
  | long (name : String) (attached : Option String)
  /-- Short options, of which this is the first. -/
  | short (first : Char)
  /-- Anything else. -/
  | plain

/-- The name of a long option and the value attached to it. -/
def splitLong (cs : List Char) : Form :=
  match cs.dropWhile (· != '=') with
  | [] => .long (String.ofList cs) none
  | _ :: value => .long (String.ofList (cs.takeWhile (· != '='))) (some (String.ofList value))

/-- The form of an argument. -/
def Form.of (arg : String) : Form :=
  match arg.toList with
  | ['-', '-'] => .divider
  | '-' :: '-' :: cs => splitLong cs
  | '-' :: c :: _ => .short c
  | _ => .plain

/-- What is wrong with an argument for which there is no place. -/
def Grammar.misplaced (g : Grammar) : UsageError :=
  if g.isBranching then .unknownCommand else .unknownArgument

/-- What is wrong with the arguments after a divider: a subcommand cannot stand there. -/
def Grammar.afterDivider (g : Grammar) (arg : String) : UsageError :=
  if g.names arg then .unknownArgument else g.misplaced

/-- The answer to a request for help with the arguments after it, which must lead to a
    subcommand. -/
def Grammar.help (g : Grammar) : List String → UsageError
  | [] => .helpRequested
  | arg :: rest =>
    match g.isBranching, g.subcommands.lookup arg with
    | true, some sub => sub.help rest
    | true, none => if arg = helpName ∧ rest = [] then .helpRequested else .unknownCommand
    | false, _ => .unknownCommand

/-- A long option at a place where the option before may still wait for its value. -/
def Grammar.takeLong (g : Grammar) (name : String) (attached : Option String) (given : Given)
    (waiting : Waiting) : Except UsageError (Given × Waiting) :=
  match g.options.find? fun o => o.name == name with
  | some o =>
    match o.takes, attached with
    | .flag, some _ => .error .unwantedValue
    | .flag, none => do
      let given ← given.resolve waiting
      return (← given.acceptFlag name, none)
    | _, some raw => do
      let given ← given.resolve waiting
      return (← given.accept o raw, none)
    | _, none => do
      let given ← given.resolve waiting
      return (given, some (o, none))
  | none =>
    if name = helpName then
      match attached with
      | some _ => .error .unwantedValue
      | none => do
        let _ ← given.resolve waiting
        .error .helpRequested
    else .error .unknownArgument

/-- What must hold at the end of a command. -/
def Grammar.check (g : Grammar) (hasCommand : Bool) (given : Given) : Except UsageError Unit :=
  let chosen := g.oneOf.filter given.has
  if !hasCommand && g.isBranching && given.isEmpty then .error .nothingGiven
  else if !hasCommand && g.isBranching then .error .missingCommand
  else if chosen.length > 1 then .error .conflict
  else if g.options.any (fun o => o.required && !given.has o.name) then .error .missingOption
  else if chosen.isEmpty && !g.oneOf.isEmpty then .error .missingOption
  else .ok ()

/-- The end of a command. -/
def Grammar.close (g : Grammar) (hasCommand : Bool) (given : Given) (waiting : Waiting) :
    Except UsageError Given := do
  let given ← given.resolve waiting
  g.check hasCommand given
  return given

/-- Read the arguments of a command from a place on. Gives back the levels of the command
    line, the outermost first. -/
def Grammar.read (g : Grammar) (command : String) (given : Given) (waiting : Waiting) :
    List String → Except UsageError (List Level)
  | [] => do
    let given ← g.close false given waiting
    return [⟨command, given⟩]
  | arg :: rest =>
    if !waiting.wantsValue && g.names arg then
      match g.subcommands.lookup arg with
      | none => .error (g.help rest)
      | some sub => do
        let levels ← sub.read arg [] none rest
        let given ← g.close true given waiting
        return ⟨command, given⟩ :: levels
    else
      match Form.of arg with
      | .divider =>
        match rest with
        | [] => do
          let given ← g.close false given waiting
          return [⟨command, given⟩]
        | next :: _ => .error (g.afterDivider next)
      | .long name attached => do
        let (given, waiting) ← g.takeLong name attached given waiting
        g.read command given waiting rest
      | .short first =>
        if first = 'h' then do
          let _ ← given.resolve waiting
          .error .helpRequested
        else .error .unknownArgument
      | .plain =>
        match waiting with
        | some (o, none) => g.read command given (some (o, some arg)) rest
        | _ => .error g.misplaced

/-- Read a whole command line, of which the first word names the program. -/
def Grammar.readAll (g : Grammar) (words : List String) : Except UsageError (List Level) :=
  g.read "" [] none (words.drop 1)

/-! ### Looking options up -/

/-- The text of an option, if it is given. -/
def Given.text? (g : Given) (name : String) : Option String :=
  match g.lookup name with
  | some (.text s) => some s
  | _ => none

/-- The number of an option, if it is given. -/
def Given.number? (g : Given) (name : String) : Option Nat :=
  match g.lookup name with
  | some (.number n) => some n
  | _ => none

end ExecutionControl.CommandLine
