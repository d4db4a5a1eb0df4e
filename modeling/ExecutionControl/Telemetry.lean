import ExecutionControl.Text.Blank

/-! # Telemetry options

    How a process wants its logs and traces.
-/

namespace ExecutionControl

/-- How a process wants its logs and traces. -/
structure TelemetryOptions where
  serviceName : String
  /-- Where traces are sent, if anywhere. -/
  otlpEndpoint : Option String := none
  /-- What traces are sent with. -/
  otlpToken : Option String := none
  /-- What is logged unless the environment says otherwise. -/
  defaultFilter : String := "info"
  /-- Whether logs go to standard error, so that standard output stays free. -/
  stderr : Bool := false
  deriving DecidableEq, Repr

/-- Send traces to an endpoint with a token. A blank endpoint and an empty token are
    none. -/
def TelemetryOptions.withOtlp (o : TelemetryOptions) (endpoint token : Option String) :
    TelemetryOptions :=
  { o with
    otlpEndpoint := endpoint.filter fun e => !(Text.trim e).isEmpty
    otlpToken := token.filter fun t => !t.isEmpty }

end ExecutionControl
