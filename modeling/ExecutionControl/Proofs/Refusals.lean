import ExecutionControl.Proofs.Expiry
import ExecutionControl.Proofs.InPlace

/-! # Calls that are refused

    A call to the coordination store is answered by an error for one of four reasons
    (`Refuses`), and for each of them always. The answer changes nothing: every key holds
    what it held, until the deadline that it had (`refusal_changes_nothing`).

    That also goes for a store that works on its entries in place: it drops what is over and
    puts empty values before it finds out that a call will not do, but a value that a call
    refuses is there and is not over.
-/

namespace ExecutionControl

/-- The types of what a key holds. -/
inductive DatumType where
  | text
  | hash
  | sortedSet
  deriving DecidableEq

/-- The type of a value. -/
def Datum.type : Datum → DatumType
  | .text _ => .text
  | .hash _ => .hash
  | .sortedSet _ => .sortedSet

/-- The type that a call needs to find under its key, if something is there. -/
def CoordCall.needs? : CoordCall → Option DatumType
  | .addMember .. | .removeMember .. | .cardinality .. | .removeScores .. => some .sortedSet
  | .setFields .. | .setNewField .. | .getFields .. | .increment .. => some .hash
  | .getText .. => some .text
  | .setText .. | .delete .. | .expire .. | .deletePattern .. | .scan .. | .tryLock ..
  | .unlock .. => none

namespace CoordStore

variable {s s' : CoordStore} {now : Moment} {key : String} {call : CoordCall} {e : CoordError}

/-- The reasons for which a store answers a call by an error. -/
inductive Refuses (s : CoordStore) (now : Moment) : CoordCall → CoordError → Prop where
  /-- The store cannot be reached. -/
  | unreachable (call : CoordCall) :
    s.available = false → Refuses s now call (.unavailable "connection refused")
  /-- The store cannot delete by pattern. -/
  | unsupported (pattern : String) :
    s.available = true → s.patternDelete = false →
    Refuses s now (.deletePattern pattern)
      (.unsupported "memory" ("delete_pattern(" ++ pattern ++ ")"))
  /-- What lies under the key is of another type. -/
  | mistyped (call : CoordCall) (needed : DatumType) (found : Datum) :
    s.available = true → call.needs? = some needed →
    s.datum? now call.subject = some found → found.type ≠ needed →
    Refuses s now call (.wrongType call.subject)
  /-- What lies in the field is no whole number. -/
  | illegible (key field raw : String) (delta : Int) (f : Fields) (fault : Text.NumeralError) :
    s.available = true → s.datum? now key = some (.hash f) → f[field]? = some raw →
    Text.readInt Text.maxInt64 raw = .error fault →
    Refuses s now (.increment key field delta) (.corrupt (key ++ "/" ++ field) fault.message)

/-! ### Values of another type -/

theorem members_eq_error :
    s.members now key = .error e ↔
      e = .wrongType key ∧ ∃ found, s.datum? now key = some found ∧ found.type ≠ .sortedSet := by
  unfold members
  rcases s.datum? now key with _ | _ | _ | _ <;> simp [Datum.type, eq_comm]

theorem hash_eq_error :
    s.hash now key = .error e ↔
      e = .wrongType key ∧ ∃ found, s.datum? now key = some found ∧ found.type ≠ .hash := by
  unfold hash
  rcases s.datum? now key with _ | _ | _ | _ <;> simp [Datum.type, eq_comm]

theorem refuses_of_members (havailable : s.available = true)
    (hneeds : call.needs? = some .sortedSet) (h : s.members now call.subject = .error e) :
    s.Refuses now call e := by
  obtain ⟨rfl, found, hfound, htype⟩ := members_eq_error.mp h
  exact .mistyped call _ found havailable hneeds hfound htype

theorem refuses_of_hash (havailable : s.available = true)
    (hneeds : call.needs? = some .hash) (h : s.hash now call.subject = .error e) :
    s.Refuses now call e := by
  obtain ⟨rfl, found, hfound, htype⟩ := hash_eq_error.mp h
  exact .mistyped call _ found havailable hneeds hfound htype

/-- A counter that cannot be read is there. -/
theorem counter_eq_error {f : Fields} {field : String} (h : counter f key field = .error e) :
    ∃ raw fault, f[field]? = some raw ∧ Text.readInt Text.maxInt64 raw = .error fault ∧
      e = .corrupt (key ++ "/" ++ field) fault.message := by
  unfold counter at h
  split at h
  · cases h
  · rename_i raw hraw
    split at h <;> cases h
    rename_i fault hfault
    exact ⟨raw, fault, hraw, hfault, rfl⟩

theorem datum?_of_field {f : Fields} {field raw : String} (hhash : s.hash now key = .ok f)
    (hfield : f[field]? = some raw) : s.datum? now key = some (.hash f) := by
  obtain ⟨deadline, hlive⟩ := live?_of_field hhash hfield
  simp [datum?, hlive]

/-! ### When a call is refused -/

/-- A call that needs nothing of what lies under its key is not refused, unless it is a
    deletion by pattern. -/
theorem answer_ok_of_needs?_eq_none {answer : Except CoordError call.Result}
    (havailable : s.available = true) (hneeds : call.needs? = none)
    (hpattern : ∀ pattern, call ≠ .deletePattern pattern)
    (h : s.perform now call = .ok (answer, s')) : answer.isOk = true := by
  cases call with
  | setText key value ttl =>
    simp only [perform, setText, havailable, if_true] at h
    cases hd : now.afterAny ttl with
    | error o => rw [hd] at h; cases h
    | ok deadline => rw [hd] at h; cases h; rfl
  | delete key =>
    simp only [perform, delete, whenAvailable, havailable, if_true] at h
    cases h
    rfl
  | scan start =>
    simp only [perform, scan, whenAvailable, havailable, if_true] at h
    cases h
    rfl
  | expire key ttl =>
    rcases perform_expire_cases h with ⟨-, hoff, -⟩ | ⟨_, -, rfl, -⟩ | ⟨-, rfl, -⟩
    · rw [havailable] at hoff
      cases hoff
    · rfl
    · rfl
  | tryLock key token ttl =>
    simp only [perform, tryLock, havailable, if_true] at h
    split at h
    · cases h
      rfl
    · cases hd : now.after ttl with
      | error o => rw [hd] at h; cases h
      | ok deadline => rw [hd] at h; cases h; rfl
  | unlock key token =>
    simp only [perform, unlock, whenAvailable, havailable, if_true] at h
    split at h <;> cases h <;> rfl
  | deletePattern pattern => exact absurd rfl (hpattern pattern)
  | _ => cases hneeds

/-- A call is answered by an error only for one of the reasons, and leaves the store as it
    is. -/
theorem refuses_of_perform (h : s.perform now call = .ok (.error e, s')) :
    s.Refuses now call e ∧ s' = s := by
  cases havailable : s.available with
  | false =>
    rw [perform_unreachable havailable] at h
    cases h
    exact ⟨.unreachable call havailable, rfl⟩
  | true =>
    cases call with
    | addMember | removeMember | removeScores =>
      obtain ⟨err, herr, rfl, herror⟩ | ⟨_, -, hok, -⟩ := memberEdit_cases h rfl
      · cases herr
        exact ⟨refuses_of_members havailable rfl (herror havailable), rfl⟩
      · cases hok
    | cardinality key =>
      simp only [perform, cardinality, whenAvailable, havailable, if_true] at h
      cases hm : s.members now key with
      | ok m => rw [hm] at h; cases h
      | error e' =>
        rw [hm] at h
        cases h
        exact ⟨refuses_of_members havailable rfl hm, rfl⟩
    | setFields key fields =>
      simp only [perform, setFields, whenAvailable, havailable, if_true] at h
      split at h <;> cases h
      exact ⟨refuses_of_hash havailable rfl ‹_›, rfl⟩
    | setNewField key field value =>
      simp only [perform, setNewField, whenAvailable, havailable, if_true] at h
      split at h
      · cases h
        exact ⟨refuses_of_hash havailable rfl ‹_›, rfl⟩
      · split at h <;> cases h
    | getFields key =>
      simp only [perform, getFields, whenAvailable, havailable, if_true] at h
      obtain ⟨herror, rfl⟩ := Prod.mk.inj (Except.ok.inj h)
      exact ⟨refuses_of_hash havailable rfl herror, rfl⟩
    | increment key field delta =>
      simp only [perform, increment, havailable, if_true] at h
      split at h
      · cases h
        exact ⟨refuses_of_hash havailable rfl ‹_›, rfl⟩
      · rename_i f hf
        split at h
        · rename_i hcounter
          cases h
          obtain ⟨raw, fault, hraw, hfault, rfl⟩ := counter_eq_error hcounter
          exact ⟨.illegible key field raw delta f fault havailable (datum?_of_field hf hraw) hraw
            hfault, rfl⟩
        · split at h <;> cases h
    | getText key =>
      simp only [perform, getText, whenAvailable, havailable, if_true] at h
      split at h <;> cases h
      rename_i found htext hfound
      refine ⟨.mistyped (.getText key) .text found havailable rfl hfound fun htype => ?_, rfl⟩
      cases found with
      | text t => exact htext t rfl
      | hash _ | sortedSet _ => cases htype
    | deletePattern pattern =>
      simp only [perform, deletePattern, whenAvailable, havailable, if_true] at h
      split at h <;> cases h
      rename_i hpattern
      exact ⟨.unsupported pattern havailable (by simpa using hpattern), rfl⟩
    | setText | delete | expire | scan | tryLock | unlock =>
      cases answer_ok_of_needs?_eq_none havailable rfl (fun _ hcall => by cases hcall) h

/-- A call that there is a reason to refuse is answered by that error. -/
theorem Refuses.perform (h : s.Refuses now call e) : s.perform now call = .ok (.error e, s) := by
  cases h with
  | unreachable call havailable => exact perform_unreachable havailable call
  | unsupported pattern havailable hpattern =>
    simp [CoordStore.perform, deletePattern, whenAvailable, havailable, hpattern]
  | mistyped call needed found havailable hneeds hfound htype =>
    cases call with
    | addMember | removeMember | removeScores =>
      cases hneeds
      have hmembers := members_eq_error.mpr ⟨rfl, found, hfound, htype⟩
      rw [perform_memberEdit rfl havailable, hmembers]
    | cardinality key =>
      cases hneeds
      have hmembers := members_eq_error.mpr ⟨rfl, found, hfound, htype⟩
      simp only [CoordCall.subject] at hmembers ⊢
      simp [CoordStore.perform, cardinality, whenAvailable, havailable, hmembers, Except.map]
    | setFields | setNewField | getFields | increment =>
      cases hneeds
      have hhash := hash_eq_error.mpr ⟨rfl, found, hfound, htype⟩
      simp only [CoordCall.subject] at hhash ⊢
      simp [CoordStore.perform, setFields, setNewField, getFields, increment, whenAvailable,
        havailable, hhash]
    | getText key =>
      cases hneeds
      simp only [CoordCall.subject] at hfound ⊢
      cases found with
      | text t => exact absurd rfl htype
      | hash _ | sortedSet _ =>
        simp [CoordStore.perform, getText, whenAvailable, havailable, hfound]
    | setText | delete | expire | deletePattern | scan | tryLock | unlock => cases hneeds
  | illegible key field raw delta f fault havailable hfound hfield hfault =>
    have hhash : s.hash now key = .ok f := by simp [hash, hfound]
    simp [CoordStore.perform, increment, counter, havailable, hhash, hfield, hfault]

/-- A call is answered by an error exactly if there is a reason to refuse it. -/
theorem perform_eq_error_iff :
    s.perform now call = .ok (.error e, s') ↔ s.Refuses now call e ∧ s' = s := by
  constructor
  · exact refuses_of_perform
  · rintro ⟨h, rfl⟩
    exact h.perform

/-- A call that is answered by an error has one of the four reasons, whether the store looks
    first or works in place; and what each key holds at any time, and until when, is what it
    was. -/
theorem refusal_changes_nothing (h : s.perform now call = .ok (.error e, s')) :
    s.Refuses now call e ∧ s.inPlace now call = .ok (.error e, s') ∧
      s'.available = s.available ∧ s'.patternDelete = s.patternDelete ∧
      (∀ (key : String) (later : Moment), s'.datum? later key = s.datum? later key ∧
        s'.deadline? later key = s.deadline? later key) ∧
      ∀ calls, transcript CoordStore.perform calls s' = transcript CoordStore.perform calls s := by
  obtain ⟨hreason, rfl⟩ := refuses_of_perform h
  exact ⟨hreason, (inPlace_eq_perform _ now call).trans h, rfl, rfl, fun _ _ => ⟨rfl, rfl⟩,
    fun _ => rfl⟩

/-- Under a key with a deadline lies a counter that is no number. -/
def illegibleCounter : CoordStore where
  entries := {("k", ⟨.hash {("n", "many")}, some 1000000000⟩)}

theorem refusal_changes_nothing_increment :
    illegibleCounter.perform 0 (.increment "k" "n" 1) =
        .ok (.error (.corrupt "k/n" "invalid digit found in string"), illegibleCounter) ∧
      illegibleCounter.inPlace 0 (.increment "k" "n" 1) =
        .ok (.error (.corrupt "k/n" "invalid digit found in string"), illegibleCounter) := by
  have h : illegibleCounter.perform 0 (.increment "k" "n" 1) =
      .ok (.error (.corrupt "k/n" "invalid digit found in string"), illegibleCounter) := by rfl
  exact ⟨h, (refusal_changes_nothing h).2.1⟩

end CoordStore

end ExecutionControl
