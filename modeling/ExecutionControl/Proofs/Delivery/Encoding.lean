import ExecutionControl.Delivery.Message
import ExecutionControl.Proofs.Json.Records

/-! # Task messages that are written and read

    A message travels through a queue as the compact text of its object. Each of its fields is
    read back from its place in that text: texts whatever characters they hold, the payload as
    a value that may be nested one level less than the message, and a context, if it has one,
    as a record of its own. A context that is absent is not written at all, and the draft keeps
    its default. So the text of a message is read as that message.
-/

namespace ExecutionControl

open Json Text

variable {depth : Nat}

/-- A context is read from the object of its four texts. -/
theorem ExecutionContext.reads_chars (c : ExecutionContext) (depth : Nat) (rest : List Char) :
    Reads (reader (depth + 1)) (c.toJson.chars ++ rest) c rest := by
  have horg : Takes fields {} ("org_id", .str c.orgId) { orgId := some c.orgId } :=
    ⟨_, rfl, rfl, fun rest _ => (reads_text c.orgId rest).map _⟩
  have hworkflow : Takes fields { orgId := some c.orgId } ("workflow_id", .str c.workflowId)
      { orgId := some c.orgId, workflowId := some c.workflowId } :=
    ⟨_, rfl, rfl, fun rest _ => (reads_text c.workflowId rest).map _⟩
  have hexecution : Takes fields { orgId := some c.orgId, workflowId := some c.workflowId }
      ("execution_id", .str c.executionId)
      { orgId := some c.orgId, workflowId := some c.workflowId,
        executionId := some c.executionId } :=
    ⟨_, rfl, rfl, fun rest _ => (reads_text c.executionId rest).map _⟩
  have hcorrelation : Takes fields
      { orgId := some c.orgId, workflowId := some c.workflowId, executionId := some c.executionId }
      ("correlation_id", .str c.correlationId)
      ⟨some c.orgId, some c.workflowId, some c.executionId, some c.correlationId⟩ :=
    ⟨_, rfl, rfl, fun rest _ => (reads_text c.correlationId rest).map _⟩
  have hfills :=
    Fills.field horg (.field hworkflow (.field hexecution (.field hcorrelation (.done _))))
  have hfinish : Draft.finish ⟨some c.orgId, some c.workflowId, some c.executionId,
    some c.correlationId⟩ = some c := rfl
  rw [toJson]
  exact reads_record hfills hfinish depth rest

namespace TaskMessage

/-! ### Single fields -/

theorem takes_payload {payload : Json} (h : Within depth payload) {draft : Draft}
    (hnew : draft.payload = none) :
    Takes (fields depth) draft ("payload", payload) { draft with payload := some payload } := by
  refine ⟨_, rfl, ?_, fun rest hrest => (reads_value h rest hrest).map _⟩
  show draft.payload.isSome = false
  rw [hnew]
  rfl

/-- A context is never mistaken for one that is absent. -/
theorem takes_context (c : ExecutionContext) {draft : Draft} (hnew : draft.context = none) :
    Takes (fields (depth + 1)) draft ("context", c.toJson)
      { draft with context := some (some c) } := by
  refine ⟨_, rfl, ?_, fun rest _ => (reads_some rfl (by decide) (c.reads_chars depth rest)).map _⟩
  show draft.context.isSome = false
  rw [hnew]
  rfl

theorem takes_failures {n : Nat} (h : n ≤ maxWord32) {draft : Draft}
    (hnew : draft.failures = none) :
    Takes (fields depth) draft ("failures", nat n) { draft with failures := some n } := by
  have hfits : n ≤ maxWord64 := Nat.le_trans h (by decide)
  refine ⟨_, rfl, ?_, fun rest hrest => (reads_natUpTo h hfits hrest).map _⟩
  show draft.failures.isSome = false
  rw [hnew]
  rfl

/-! ### Whole messages -/

/-- The fields of a message, as they are written, fill a draft that is complete. -/
theorem exists_fills (m : TaskMessage) (hpayload : Within (depth + 1) m.payload)
    (hfailures : m.failures ≤ maxWord32) :
    ∃ parts draft, m.toJson = .obj parts ∧ Fills (fields (depth + 1)) {} parts draft ∧
      draft.finish = some m := by
  obtain ⟨id, task, payload, context, failures⟩ := m
  -- Each field fills one more part of the draft. A message without a context is written without
  -- that field.
  have hid : Takes (fields (depth + 1)) {} ("id", .str id) { id := some id } :=
    ⟨_, rfl, rfl, fun rest _ => (reads_text id rest).map _⟩
  have htask : Takes (fields (depth + 1)) { id := some id } ("task", .str task)
      { id := some id, task := some task } :=
    ⟨_, rfl, rfl, fun rest _ => (reads_text task rest).map _⟩
  have hrest : Takes (fields (depth + 1)) { id := some id, task := some task }
      ("payload", payload) { id := some id, task := some task, payload := some payload } :=
    takes_payload hpayload rfl
  cases context with
  | none =>
    have hlast : Takes (fields (depth + 1))
        { id := some id, task := some task, payload := some payload }
        ("failures", nat failures) _ :=
      takes_failures hfailures rfl
    exact ⟨_, _, rfl, .field hid (.field htask (.field hrest (.field hlast (.done _)))), rfl⟩
  | some c =>
    have hcontext : Takes (fields (depth + 1))
        { id := some id, task := some task, payload := some payload } ("context", c.toJson) _ :=
      takes_context c rfl
    have hlast : Takes (fields (depth + 1)) ⟨some id, some task, some payload, some (some c), none⟩
        ("failures", nat failures) _ :=
      takes_failures hfailures rfl
    exact ⟨_, _, rfl, .field hid (.field htask (.field hrest (.field hcontext
      (.field hlast (.done _))))), rfl⟩

/-- Task messages survive the queue encoding. The text of any message is read as that message
    and nothing else, if its payload is nested at most 126 levels deep and holds whole numbers
    of 64 bits for numbers, and its failures fit in 32 bits. The text has a context if and only
    if the message has one, so that nothing is lost with one that is left out. -/
theorem encoding_lossless (m : TaskMessage) (hpayload : Within 126 m.payload)
    (hfailures : m.failures ≤ maxWord32) :
    TaskMessage.parse m.text = .ok m ∧
      m.toJson.field? "context" = m.context.map ExecutionContext.toJson := by
  obtain ⟨parts, draft, hparts, hfills, hfinish⟩ := m.exists_fills hpayload hfailures
  have hread : Reads (reader maxDepth) (chars (.obj parts) ++ []) m [] :=
    reads_record hfills hfinish 126 []
  constructor
  · refine readWhole_of_reads ?_
    rw [text, Json.text, String.toList_ofList, hparts, ← List.append_nil (chars (.obj parts))]
    exact hread
  · obtain ⟨id, task, payload, context, failures⟩ := m
    cases context with
    | none => rfl
    | some c => rfl

/-- A message with texts that need escapes, and with the least and the greatest number. -/
def awkward (context : Option ExecutionContext) : TaskMessage where
  id := "\"\\/\x00\n\x1f"
  task := "\x7f\u2028😀"
  payload := .obj [("", .arr [.num (.int (-9223372036854775808)), .obj []]),
    ("a\tb", .num (.int 18446744073709551615))]
  context := context
  failures := 4294967295

theorem within_awkward (context : Option ExecutionContext) :
    Within 126 (awkward context).payload := by
  have hinner : Within 125 (.arr [.num (.int (-9223372036854775808)), .obj []]) := by
    refine .arr (List.forall_mem_cons.mpr ⟨.int (by decide) (by decide), ?_⟩)
    exact List.forall_mem_singleton.mpr (.obj .nil nofun)
  refine .obj (by decide) (List.forall_mem_cons.mpr ⟨hinner, ?_⟩)
  exact List.forall_mem_singleton.mpr (.int (by decide) (by decide))

/-- The same message with a context and without one. -/
theorem encoding_lossless_awkward :
    (awkward none).failures ≤ maxWord32 ∧ Within 126 (awkward none).payload ∧
      TaskMessage.parse (awkward none).text = .ok (awkward none) ∧
      TaskMessage.parse (awkward (some ⟨"o", "", "\"", "é"⟩)).text =
        .ok (awkward (some ⟨"o", "", "\"", "é"⟩)) := by
  have hfailures : ∀ context, (awkward context).failures ≤ maxWord32 := by
    intro context
    show 4294967295 ≤ maxWord32
    decide
  have hparse := fun context =>
    (encoding_lossless (awkward context) (within_awkward context) (hfailures context)).1
  exact ⟨hfailures none, within_awkward none, hparse none, hparse _⟩

end TaskMessage

end ExecutionControl
