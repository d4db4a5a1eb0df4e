import ExecutionControl.Execution.FileRecord

/-! # The life of a file record

    A record that calls try to move, one after another, with whatever targets, error texts
    and times they are given. `attempt_cases` says all that one call can do: it moves the
    record to a status of higher rank, or it leaves the whole record alone. What holds of
    the record after any number of calls follows by induction on the calls; the rank of its
    status counts the calls that moved it (`movers_length_le_rank`).
-/

namespace ExecutionControl

namespace ExecutionStatus

theorem rank_le (s : ExecutionStatus) : s.rank ≤ 5 := by cases s <;> decide

theorem isTerminal_iff_rank {s : ExecutionStatus} : s.isTerminal = true ↔ s.rank = 5 := by
  cases s <;> decide

end ExecutionStatus

/-- A call to move a record. -/
structure TransitionCall where
  target : ExecutionStatus
  error : Option String
  executionTime : Option Float
  now : Timestamp

namespace FileRecord

/-- What a call answers, and the record after it. A call that is refused gives no record
    back; the old one stays. -/
def attempt (r : FileRecord) (c : TransitionCall) : Except InvalidTransition Bool × FileRecord :=
  match r.transition c.target c.error c.executionTime c.now with
  | .ok (moved, r') => (.ok moved, r')
  | .error e => (.error e, r)

/-- The record after calls, the latest first. -/
def after (start : FileRecord) : List TransitionCall → FileRecord
  | [] => start
  | c :: past => ((start.after past).attempt c).2

/-- The calls that moved a record, the latest first. -/
def movers (start : FileRecord) : List TransitionCall → List TransitionCall
  | [] => []
  | c :: past =>
    match ((start.after past).attempt c).1 with
    | .ok true => c :: start.movers past
    | _ => start.movers past

/-- What holds of a record after calls, the latest first. -/
structure Lives (start : FileRecord) (calls : List TransitionCall) : Prop where
  /-- From one moment to a later one the status stays or moves forward. -/
  forward : ∀ past, past <:+ calls →
    (start.after past).status = (start.after calls).status ∨
      (start.after past).status.rank < (start.after calls).status.rank
  /-- A call for a later status moves the record there. -/
  moves : ∀ c : TransitionCall, (start.after calls).status.rank < c.target.rank →
    ((start.after calls).attempt c).1 = .ok true ∧
      ((start.after calls).attempt c).2.status = c.target
  /-- At most five calls moved the record. -/
  movers_le : (start.movers calls).length ≤ 5
  /-- A terminal status is never left. -/
  final : (start.after calls).status.isTerminal = true → ∀ c : TransitionCall,
    c.target ≠ (start.after calls).status →
      ((start.after calls).attempt c).1 = .error ⟨(start.after calls).status, c.target⟩
  /-- An error text is there for a file that failed, and for no other. -/
  error_iff : (start.after calls).error.isSome = true ↔ (start.after calls).status = .error
  id_eq : (start.after calls).id = start.id
  executionId_eq : (start.after calls).executionId = start.executionId
  fileName_eq : (start.after calls).fileName = start.fileName
  filePath_eq : (start.after calls).filePath = start.filePath
  fileHash_eq : (start.after calls).fileHash = start.fileHash
  fileSize_eq : (start.after calls).fileSize = start.fileSize
  mimeType_eq : (start.after calls).mimeType = start.mimeType
  createdAt_eq : (start.after calls).createdAt = start.createdAt
  /-- The time of the latest call that moved the record. -/
  updatedAt_eq : (start.after calls).updatedAt =
    ((start.movers calls).head?.map TransitionCall.now).getD start.createdAt
  /-- The latest execution time that was given to a call that moved the record. -/
  executionTime_eq : (start.after calls).executionTime =
    (start.movers calls).findSome? TransitionCall.executionTime
  /-- A call that does not move the record leaves all of it as it is. -/
  idle : ∀ c : TransitionCall, ((start.after calls).attempt c).1 ≠ .ok true →
    ((start.after calls).attempt c).2 = start.after calls

variable {r start : FileRecord} {c : TransitionCall} {calls past : List TransitionCall}

/-! ### One call -/

/-- The record that a call moves. -/
def movedBy (r : FileRecord) (c : TransitionCall) : FileRecord :=
  r.moved c.target c.error c.executionTime c.now

/-- A call for a status of higher rank is neither refused nor idle. -/
theorem attempt_of_rank_lt (h : r.status.rank < c.target.rank) :
    r.attempt c = (.ok true, r.movedBy c) := by
  unfold attempt transition
  have hmay : r.status.canMoveTo c.target = true := by
    have hbound := c.target.rank_le
    have hactive : r.status.isTerminal = false := by
      rw [Bool.eq_false_iff]
      intro hterminal
      have hlast : r.status.rank = 5 := ExecutionStatus.isTerminal_iff_rank.mp hterminal
      omega
    simp [ExecutionStatus.canMoveTo, hactive, h]
  have hne : r.status ≠ c.target := by
    intro hsame
    rw [hsame] at h
    exact Nat.lt_irrefl _ h
  rw [if_pos hmay, if_neg hne]
  rfl

/-- All that one call can do: it moves the record to a status of higher rank, finds it at its
    target, or is refused. -/
theorem attempt_cases (r : FileRecord) (c : TransitionCall) :
    (r.attempt c = (.ok true, r.movedBy c) ∧ r.status.rank < c.target.rank) ∨
      (r.attempt c = (.ok false, r) ∧ c.target = r.status) ∨
      (r.attempt c = (.error ⟨r.status, c.target⟩, r) ∧ c.target ≠ r.status) := by
  by_cases hmay : r.status.canMoveTo c.target = true
  · by_cases hsame : r.status = c.target
    · right; left
      simp [attempt, transition, hsame, ExecutionStatus.canMoveTo]
    · left
      have hrank : r.status.rank < c.target.rank := by
        simp only [ExecutionStatus.canMoveTo, Bool.or_eq_true, Bool.and_eq_true, beq_iff_eq,
          decide_eq_true_eq] at hmay
        exact (hmay.resolve_left hsame).2
      exact ⟨attempt_of_rank_lt hrank, hrank⟩
  · right; right
    have hne : c.target ≠ r.status := by
      intro heq
      rw [heq] at hmay
      simp [ExecutionStatus.canMoveTo] at hmay
    rw [attempt, transition, if_neg hmay]
    exact ⟨rfl, hne⟩

/-- A call moves the record, or leaves it and the calls that moved it as they are. -/
theorem after_cons (start : FileRecord) (c : TransitionCall) (past : List TransitionCall) :
    (start.after (c :: past) = (start.after past).movedBy c ∧
      start.movers (c :: past) = c :: start.movers past ∧
      (start.after past).status.rank < c.target.rank) ∨
    (start.after (c :: past) = start.after past ∧
      start.movers (c :: past) = start.movers past) := by
  simp only [after, movers]
  obtain ⟨h, hrank⟩ | ⟨h, -⟩ | ⟨h, -⟩ := attempt_cases (start.after past) c
  · left
    rw [h]
    exact ⟨rfl, rfl, hrank⟩
  · right
    rw [h]
    exact ⟨rfl, rfl⟩
  · right
    rw [h]
    exact ⟨rfl, rfl⟩

theorem attempt_idle (h : (r.attempt c).1 ≠ .ok true) : (r.attempt c).2 = r := by
  obtain ⟨hmoved, -⟩ | ⟨hsame, -⟩ | ⟨hrefused, -⟩ := attempt_cases r c
  · rw [hmoved] at h
    exact absurd rfl h
  · rw [hsame]
  · rw [hrefused]

/-- No status has a higher rank than a terminal one. -/
theorem attempt_of_isTerminal (h : r.status.isTerminal = true) (hne : c.target ≠ r.status) :
    (r.attempt c).1 = .error ⟨r.status, c.target⟩ := by
  obtain ⟨-, hrank⟩ | ⟨-, hsame⟩ | ⟨hrefused, -⟩ := attempt_cases r c
  · have hlast : r.status.rank = 5 := ExecutionStatus.isTerminal_iff_rank.mp h
    have hbound := c.target.rank_le
    omega
  · exact absurd hsame hne
  · rw [hrefused]

/-! ### Any number of calls -/

/-- The status moves forward from every moment on. -/
theorem forward_of_suffix (h : past <:+ calls) :
    (start.after past).status = (start.after calls).status ∨
      (start.after past).status.rank < (start.after calls).status.rank := by
  induction calls with
  | nil =>
    rw [List.suffix_nil.mp h]
    exact .inl rfl
  | cons c calls ih =>
    rcases List.suffix_cons_iff.mp h with heq | hlater
    · rw [heq]
      exact .inl rfl
    · obtain ⟨hmoved, -, hrank⟩ | ⟨hsame, -⟩ := after_cons start c calls
      · right
        have hstatus : (start.after (c :: calls)).status = c.target := by
          rw [hmoved]
          rfl
        rw [hstatus]
        rcases ih hlater with heq | hlt
        · rw [heq]
          exact hrank
        · omega
      · rw [hsame]
        exact ih hlater

/-- Every call that moves a record raises the rank of its status. -/
theorem movers_length_le_rank (start : FileRecord) (calls : List TransitionCall) :
    (start.movers calls).length ≤ (start.after calls).status.rank := by
  induction calls with
  | nil => exact Nat.zero_le _
  | cons c calls ih =>
    obtain ⟨hmoved, hmovers, hrank⟩ | ⟨hsame, hmovers⟩ := after_cons start c calls
    · have hstatus : (start.after (c :: calls)).status = c.target := by
        rw [hmoved]
        rfl
      rw [hmovers, hstatus, List.length_cons]
      omega
    · rw [hmovers, hsame]
      exact ih

/-- A record is moved to `error` with a text; it cannot be moved from there. -/
theorem error_isSome_iff (h : start.error.isSome = true ↔ start.status = .error) :
    (start.after calls).error.isSome = true ↔ (start.after calls).status = .error := by
  induction calls with
  | nil => exact h
  | cons c calls ih =>
    obtain ⟨hmoved, -, hrank⟩ | ⟨hsame, -⟩ := after_cons start c calls
    · rw [hmoved]
      show (if c.target = .error then some (c.error.getD unknownError)
        else (start.after calls).error).isSome = true ↔ c.target = .error
      by_cases htarget : c.target = .error
      · simp [htarget]
      · rw [if_neg htarget, ih]
        -- The status before had a lower rank than the target, and so was not terminal.
        have hnot : (start.after calls).status ≠ .error := by
          intro herror
          have hlast : (start.after calls).status.rank = 5 := by rw [herror]; rfl
          have hbound := c.target.rank_le
          omega
        exact ⟨fun herror => absurd herror hnot, fun herror => absurd herror htarget⟩
    · rw [hsame]
      exact ih

/-- Whatever a move leaves alone is never changed. -/
theorem after_eq_of_moved {α : Type} (field : FileRecord → α)
    (h : ∀ r c, field (r.movedBy c) = field r) :
    field (start.after calls) = field start := by
  induction calls with
  | nil => rfl
  | cons c calls ih =>
    obtain ⟨hmoved, -⟩ | ⟨hsame, -⟩ := after_cons start c calls
    · rw [hmoved, h]
      exact ih
    · rw [hsame]
      exact ih

theorem updatedAt_after (h : start.updatedAt = start.createdAt) :
    (start.after calls).updatedAt =
      ((start.movers calls).head?.map TransitionCall.now).getD start.createdAt := by
  induction calls with
  | nil => exact h
  | cons c calls ih =>
    obtain ⟨hmoved, hmovers, -⟩ | ⟨hsame, hmovers⟩ := after_cons start c calls
    · rw [hmoved, hmovers]
      rfl
    · rw [hsame, hmovers]
      exact ih

theorem executionTime_after (h : start.executionTime = none) :
    (start.after calls).executionTime =
      (start.movers calls).findSome? TransitionCall.executionTime := by
  induction calls with
  | nil => exact h
  | cons c calls ih =>
    obtain ⟨hmoved, hmovers, -⟩ | ⟨hsame, hmovers⟩ := after_cons start c calls
    · rw [hmoved, hmovers, List.findSome?_cons]
      show c.executionTime.or (start.after calls).executionTime = _
      rw [ih]
      cases c.executionTime <;> rfl
    · rw [hsame, hmovers]
      exact ih

/-- From its registration on a record moves forward, whatever it is asked for: at most five
    calls move it, none once its status is terminal, and what a call does not move it leaves
    alone. Its fields tell which calls moved it. -/
theorem life_of_record (id : String) (f : NewFile) (created : Timestamp)
    (calls : List TransitionCall) : (ofNew id f created).Lives calls where
  forward _ hpast := forward_of_suffix hpast
  moves c hrank := by
    rw [attempt_of_rank_lt hrank]
    exact ⟨rfl, rfl⟩
  movers_le := Nat.le_trans (movers_length_le_rank _ calls) (ExecutionStatus.rank_le _)
  final hterminal _ hne := attempt_of_isTerminal hterminal hne
  error_iff := error_isSome_iff (by simp [ofNew])
  id_eq := after_eq_of_moved (·.id) fun _ _ => rfl
  executionId_eq := after_eq_of_moved (·.executionId) fun _ _ => rfl
  fileName_eq := after_eq_of_moved (·.fileName) fun _ _ => rfl
  filePath_eq := after_eq_of_moved (·.filePath) fun _ _ => rfl
  fileHash_eq := after_eq_of_moved (·.fileHash) fun _ _ => rfl
  fileSize_eq := after_eq_of_moved (·.fileSize) fun _ _ => rfl
  mimeType_eq := after_eq_of_moved (·.mimeType) fun _ _ => rfl
  createdAt_eq := after_eq_of_moved (·.createdAt) fun _ _ => rfl
  updatedAt_eq := updatedAt_after rfl
  executionTime_eq := executionTime_after rfl
  idle _ h := attempt_idle h

/-- A file that is queued and then fails: the call for its completion is refused, and the
    text of the failure is kept. -/
theorem life_of_record_failed :
    let queued : TransitionCall := ⟨.queued, none, some 0.5, .ofMillis 1⟩
    let failed : TransitionCall := ⟨.error, some "lost", none, .ofMillis 2⟩
    let completed : TransitionCall := ⟨.completed, none, some 1.0, .ofMillis 3⟩
    let start := ofNew "f" ⟨"e", "n", "p", "h", 0, none⟩ (.ofMillis 0)
    let r := start.after [completed, failed, queued]
    start.Lives [completed, failed, queued] ∧
      start.movers [completed, failed, queued] = [failed, queued] ∧
      (r.attempt completed).1 = .error ⟨.error, .completed⟩ ∧
      r.status = .error ∧ r.error = some "lost" ∧
      r.updatedAt = .ofMillis 2 ∧ r.executionTime = some 0.5 := by
  intro queued failed completed start r
  have hlives : start.Lives [completed, failed, queued] := life_of_record _ _ _ _
  have hmovers : start.movers [completed, failed, queued] = [failed, queued] := rfl
  have hstatus : r.status = .error := rfl
  refine ⟨hlives, hmovers, ?_, hstatus, rfl, ?_, ?_⟩
  · have hterminal : r.status.isTerminal = true := by rw [hstatus]; rfl
    exact hlives.final hterminal completed (by rw [hstatus]; decide)
  · rw [hlives.updatedAt_eq, hmovers]
    rfl
  · rw [hlives.executionTime_eq, hmovers]
    rfl

end FileRecord

end ExecutionControl
