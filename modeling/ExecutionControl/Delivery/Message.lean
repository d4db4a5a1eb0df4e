import ExecutionControl.Execution.Context
import ExecutionControl.Json.Writer
import ExecutionControl.Overflow

/-! # Task messages

    What travels through a queue: which task is to be done, with what, and for which
    execution.
-/

namespace ExecutionControl

/-- A task to be done. -/
structure TaskMessage where
  id : String
  task : String
  payload : Json
  /-- The execution that the task is part of, if it is part of one. -/
  context : Option ExecutionContext := none
  /-- How many attempts at the task have failed. -/
  failures : Nat := 0

namespace TaskMessage

/-- The same message with one more failure, which must fit in 32 bits. -/
def failedOnce (m : TaskMessage) : Checked TaskMessage :=
  if m.failures < Text.maxWord32 then .ok { m with failures := m.failures + 1 } else .error .count

/-! ### JSON -/

/-- The fields of a message that have been read. -/
structure Draft where
  id : Option String := none
  task : Option String := none
  payload : Option Json := none
  context : Option (Option ExecutionContext) := none
  failures : Option Nat := none

/-- The fields of a message in order, within `depth` further levels of nesting; context
    and failures have defaults. -/
def fields (depth : Nat) : List (Json.Field Draft) :=
  [{ name := "id", given := (·.id.isSome),
     read := fun d => (fun s => { d with id := some s }) <$> Json.readText },
   { name := "task", given := (·.task.isSome),
     read := fun d => (fun s => { d with task := some s }) <$> Json.readText },
   { name := "payload", given := (·.payload.isSome),
     read := fun d => (fun j => { d with payload := some j }) <$> Json.readValue depth },
   { name := "context", given := (·.context.isSome), optional := true,
     read := fun d => (fun c => { d with context := some c }) <$>
       Json.readOption (ExecutionContext.reader depth) },
   { name := "failures", given := (·.failures.isSome), optional := true,
     read := fun d => (fun n => { d with failures := some n }) <$>
       Json.readNatUpTo Text.maxWord32 }]

/-- The message of a draft that has every field without a default. -/
def Draft.finish (d : Draft) : Option TaskMessage := do
  some ⟨← d.id, ← d.task, ← d.payload, d.context.getD none, d.failures.getD 0⟩

/-- Read a message from JSON text. -/
def reader (depth : Nat) : Json.Reader TaskMessage :=
  Json.readRecord (fields (depth - 1)) false {} Draft.finish depth

/-- Read a whole text as a message. -/
def parse (s : String) : Except Json.Fault TaskMessage :=
  Json.readWhole (reader Json.maxDepth) s

/-- A message as a JSON object; a context that is absent is left out. -/
def toJson (m : TaskMessage) : Json :=
  .obj ([("id", .str m.id), ("task", .str m.task), ("payload", m.payload)] ++
    m.context.toList.map (fun c => ("context", c.toJson)) ++ [("failures", Json.nat m.failures)])

/-- The text of a message in a queue. -/
def text (m : TaskMessage) : String := m.toJson.text

/-! ### From values -/

/-- The context in a field that may be absent or `null`. -/
def contextOf? : Option Json → Option (Option ExecutionContext)
  | none => some none
  | some .null => some none
  | some j => (ExecutionContext.ofJson? j).map some

/-- The number of failures in a field that may be absent. -/
def failuresOf? : Option Json → Option Nat
  | none => some 0
  | some (.num (.int n)) => if 0 ≤ n ∧ n ≤ Text.maxWord32 then some n.toNat else none
  | some _ => none

/-- A text in a field. -/
def textOf? : Option Json → Option String
  | some (.str s) => some s
  | _ => none

/-- A message from a JSON value: an object, or an array of its fields that may lack the
    last two. -/
def ofJson? : Json → Option TaskMessage
  | .arr items =>
    if items.length > 5 then none
    else do
      some ⟨← textOf? items[0]?, ← textOf? items[1]?, ← items[2]?, ← contextOf? items[3]?,
        ← failuresOf? items[4]?⟩
  | .obj fields => do
    let j := Json.obj fields
    some ⟨← textOf? (j.field? "id"), ← textOf? (j.field? "task"), ← j.field? "payload",
      ← contextOf? (j.field? "context"), ← failuresOf? (j.field? "failures")⟩
  | _ => none

end TaskMessage

end ExecutionControl
