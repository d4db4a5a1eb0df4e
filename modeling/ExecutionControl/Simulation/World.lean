import ExecutionControl.Program
import ExecutionControl.Simulation.Fault

/-! # A simulated world

    Everything that programs need, kept in memory: the stores, switches and rules that
    make them fail, two clocks, a source of identities, and the log of what was
    reported. The monotonic clock moves only when a program sleeps or the world is told
    to; the wall clock ticks with every reading.
-/

namespace ExecutionControl

/-- The world around a program. -/
structure World where
  coord : CoordStore := {}
  /-- The rules by which calls to the coordination store fail. -/
  faults : List FaultRule := []
  limits : LimitTable := {}
  /-- Whether every call to the table of limits fails. -/
  limitsOffline : Bool := false
  /-- Ceilings that stand in for the rows of some organisations when these are read. -/
  rawLimits : Std.ExtTreeMap String Nat := {}
  files : FileTable := {}
  /-- Whether every call to the table of files fails. -/
  filesOffline : Bool := false
  /-- The monotonic clock, which starts a day after the machine. -/
  now : Moment := 86400000000000
  /-- The wall clock, which starts at the beginning of 2050. -/
  wall : Timestamp := .ofMillis 2524608000000
  /-- How many identities were drawn. -/
  drawn : Nat := 0
  /-- What was reported, the latest first. -/
  reported : List Event := []

namespace World

/-! ### Clocks and identities -/

/-- Let time pass. -/
def advance (w : World) (span : Duration) : World := { w with now := w.now + span.nanos }

/-- Read the wall clock. -/
def readWall (w : World) : Timestamp × World := (w.wall, { w with wall := w.wall.addNanos 1 })

/-- Twelve hexadecimal digits of a number. -/
def hexDigits (n : Nat) : String :=
  let digits := Nat.toDigits 16 n
  String.ofList (List.replicate (12 - digits.length) '0' ++ digits)

/-- The identity of a number, in the form of a random UUID. -/
def identity (n : Nat) : String := "00000000-0000-4000-8000-" ++ hexDigits n

/-- Draw an identity that was not drawn before. -/
def draw (w : World) : String × World := (identity w.drawn, { w with drawn := w.drawn + 1 })

/-! ### Stores -/

/-- A call to the coordination store, unless a rule makes it fail. -/
def serveCoord (w : World) (call : CoordCall) :
    Checked (Except CoordError call.Result) × World :=
  let (kind, faults) := FaultRule.fire call.method w.faults
  let w := { w with faults }
  match kind with
  | some kind => (.ok (.error (kind.error call)), w)
  | none =>
    match w.coord.perform w.now call with
    | .error e => (.error e, w)
    | .ok (answer, coord) => (.ok answer, { w with coord })

/-- The error of a store that is offline. -/
def offline : StoreError := .corrupt "store offline"

/-- A ceiling that stands in for the row of an organisation when it is read. -/
def rawRow? (w : World) : (call : LimitCall) → Option call.Result
  | .get orgId => w.rawLimits[orgId]?.map fun limit => some ⟨orgId, limit, w.wall⟩
  | _ => none

/-- A call to the table of limits. -/
def serveLimits (w : World) (call : LimitCall) : Except StoreError call.Result × World :=
  if w.limitsOffline then (.error offline, w)
  else
    match w.rawRow? call with
    | some row => (.ok row, w)
    | none =>
      let (time, w) := w.readWall
      let (answer, limits) := w.limits.perform time call
      (answer, { w with limits })

/-- A call to the table of files. -/
def serveFiles (w : World) (call : FileCall) : Except StoreError call.Result × World :=
  if w.filesOffline then (.error offline, w)
  else
    let (time, w) := w.readWall
    let (id, w) := w.draw
    let (answer, files) := w.files.perform id time call
    (answer, { w with files })

/-! ### Programs -/

/-- Answer a request. -/
def serve : Program.Services World
  | .coord call, w => w.serveCoord call
  | .limits call, w => let (answer, w) := w.serveLimits call; (.ok answer, w)
  | .files call, w => let (answer, w) := w.serveFiles call; (.ok answer, w)
  | .clock, w => (.ok w.now, w)
  | .sleep span, w => (.ok (), w.advance span)
  | .time, w => let (time, w) := w.readWall; (.ok time, w)
  | .token, w => let (token, w) := w.draw; (.ok token, w)
  | .report event, w => (.ok (), { w with reported := event :: w.reported })
  | .stop overflow, w => (.error overflow, w)

/-- Run a program. -/
def run {α : Type} (w : World) (p : Program α) : Checked α × World := p.run serve w

/-- Take what was reported, the earliest first. -/
def takeReports (w : World) : List Event × World :=
  (w.reported.reverse, { w with reported := [] })

/-! ### Looking inside -/

/-- A call to the coordination store that no rule can make fail. -/
def direct (w : World) (call : CoordCall) : Checked (Except CoordError call.Result) × World :=
  match w.coord.perform w.now call with
  | .error e => (.error e, w)
  | .ok (answer, coord) => (.ok answer, { w with coord })

/-- The live keys of the coordination store with what they hold, in ascending order. -/
def contents (w : World) : Except CoordError (List (String × Datum)) :=
  (w.coord.scan w.now "").1.map fun keys =>
    keys.filterMap fun key => (w.coord.datum? w.now key).map fun d => (key, d)

end World

end ExecutionControl
