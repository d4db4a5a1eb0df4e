import ExecutionControl.CommandLine.Grammar

/-! # The command line of the sweeper -/

namespace ExecutionControl.CommandLine

/-- A whole command line of the sweeper. -/
structure SweeperArgs where
  /-- Where the coordination store is. -/
  coordEndpoint : String := "http://127.0.0.1:2379"
  /-- Where the durable store is, if there is one. -/
  databaseUrl : Option String := none
  /-- Where metrics are served. -/
  listenAddr : String := "0.0.0.0:9310"
  /-- The time between two sweeps. -/
  intervalSecs : Nat := 300
  /-- Where traces are sent, if anywhere. -/
  otlpEndpoint : Option String := none
  /-- What traces are sent with. -/
  otlpToken : Option String := none
  deriving DecidableEq, Repr

namespace SweeperArgs

/-- The grammar of the sweeper. -/
def grammar : Grammar :=
  .command
    [⟨"etcd-endpoint", .text, false⟩, ⟨"database-url", .text, false⟩,
      ⟨"listen-addr", .text, false⟩, ⟨"interval-secs", .number 0 Text.maxWord64, false⟩,
      ⟨"otlp-endpoint", .text, false⟩, ⟨"otlp-token", .text, false⟩] [] []

/-- The command line that some options stand for. -/
def ofGiven (given : Given) : SweeperArgs :=
  let d : SweeperArgs := {}
  { coordEndpoint := (given.text? "etcd-endpoint").getD d.coordEndpoint
    databaseUrl := given.text? "database-url"
    listenAddr := (given.text? "listen-addr").getD d.listenAddr
    intervalSecs := (given.number? "interval-secs").getD d.intervalSecs
    otlpEndpoint := given.text? "otlp-endpoint"
    otlpToken := given.text? "otlp-token" }

/-- Read a whole command line, of which the first word names the program. -/
def parse (words : List String) : Except UsageError SweeperArgs := do
  let levels ← grammar.readAll words
  return ofGiven ((levels.head?.map (·.given)).getD [])

end SweeperArgs

end ExecutionControl.CommandLine
