import ExecutionControl.Execution.Status
import ExecutionControl.Settings

/-! # Settings of tracking -/

namespace ExecutionControl

/-- How long status records live. -/
structure TrackerConfig where
  /-- The time to live after each change while the execution runs. -/
  activeTtl : Duration := .seconds 21600
  /-- The time to live once the status is terminal. -/
  terminalTtl : Duration := .seconds 3600
  deriving DecidableEq

namespace TrackerConfig

/-- The configuration that some settings ask for. -/
def ofSettings (s : Settings) : TrackerConfig :=
  let d : TrackerConfig := {}
  { activeTtl := s.secs "DOCFLOW_STATUS_TTL_SECS" d.activeTtl
    terminalTtl := s.secs "DOCFLOW_STATUS_TERMINAL_TTL_SECS" d.terminalTtl }

/-- The time to live of a record in a status. -/
def ttl (c : TrackerConfig) (status : ExecutionStatus) : Duration :=
  if status.isTerminal then c.terminalTtl else c.activeTtl

end TrackerConfig

end ExecutionControl
