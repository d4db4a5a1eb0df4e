import ExecutionControl.Proofs.HashChanges

/-! # Calls that work on entries in place

    A store that works on the entry of a key where it lies opens it first: it drops an entry
    that is over, and puts an empty value where nothing is left, before it knows whether the
    call will do (`opened`). A set that has become empty is removed afterwards (`tidied`).
    `inPlace` performs a call in that order, and keeps what was done before an error.

    The order makes no difference: every call ends in the same answer and in the same store
    as one that looks first and writes at the end (`inPlace_eq_perform`).
-/

namespace ExecutionControl.CoordStore

variable {s : CoordStore} {now : Moment} {key : String} {e e' : Entry} {fresh : Datum}

/-! ### Opening and tidying -/

/-- Open the entry of a key: drop it if it is over, and put an empty value if nothing is
    left. -/
def opened (s : CoordStore) (now : Moment) (key : String) (fresh : Datum) : CoordStore :=
  let settled := s.settle now key
  if settled.entries.contains key then settled else settled.put key ⟨fresh, none⟩

/-- Remove an empty set or an empty hash. -/
def tidied (s : CoordStore) (key : String) : CoordStore :=
  match s.entries[key]? with
  | some ⟨.sortedSet m, _⟩ => if m.isEmpty then s.drop key else s
  | some ⟨.hash f, _⟩ => if f.isEmpty then s.drop key else s
  | _ => s

theorem put_put : (s.put key e).put key e' = s.put key e' := by
  simp only [put, mk.injEq, and_true]
  ext1 k
  grind

theorem put_self (h : s.entries[key]? = some e) : s.put key e = s := by
  have hentries : s.entries.insert key e = s.entries := by
    ext1 k
    grind
  rw [put, hentries]

theorem put_drop : (s.drop key).put key e = s.put key e := by
  simp only [put, drop, mk.injEq, and_true]
  ext1 k
  grind

theorem drop_put : (s.put key e).drop key = s.drop key := by
  simp only [put, drop, mk.injEq, and_true]
  ext1 k
  grind

theorem settle_of_live (h : s.live? now key = some e) : s.settle now key = s := by
  simp [settle, h]

theorem settle_of_over (h : s.live? now key = none) : s.settle now key = s.drop key := by
  simp [settle, h]

/-- A live entry is opened as it is. -/
theorem opened_of_live (h : s.live? now key = some e) : s.opened now key fresh = s := by
  have hentry := (live?_eq_some.mp h).1
  simp [opened, settle_of_live h, Std.ExtTreeMap.contains_eq_isSome_getElem?, hentry]

/-- Where nothing is live an empty value is opened. -/
theorem opened_of_over (h : s.live? now key = none) :
    s.opened now key fresh = s.put key ⟨fresh, none⟩ := by
  simp [opened, settle_of_over h, Std.ExtTreeMap.contains_eq_isSome_getElem?, put_drop]

/-- A set that is written and tidied is removed if it is empty. -/
theorem tidied_put {m : Members} {deadline : Option Moment} :
    (s.put key ⟨.sortedSet m, deadline⟩).tidied key =
      if m.isEmpty then s.drop key else s.put key ⟨.sortedSet m, deadline⟩ := by
  simp only [tidied, entries_put_self, drop_put]

/-! ### Work on one entry -/

/-- Open the sorted set under a key and edit it. -/
def withSet {α : Type} (s : CoordStore) (now : Moment) (key : String)
    (edit : Members → α × Members) : Answer α :=
  let opened := s.opened now key (.sortedSet {})
  match opened.entries[key]? with
  | some ⟨.sortedSet m, deadline⟩ =>
    (.ok (edit m).1, opened.put key ⟨.sortedSet (edit m).2, deadline⟩)
  | _ => (.error (.wrongType key), opened)

/-- Edit the sorted set under a key, if there is one, and remove it if it is empty then. -/
def shrinkSet {α : Type} (s : CoordStore) (now : Moment) (key : String) (missing : α)
    (edit : Members → α × Members) : Answer α :=
  let settled := s.settle now key
  match settled.entries[key]? with
  | none => (.ok missing, settled.tidied key)
  | some ⟨.sortedSet m, deadline⟩ =>
    (.ok (edit m).1, (settled.put key ⟨.sortedSet (edit m).2, deadline⟩).tidied key)
  | some _ => (.error (.wrongType key), settled)

/-- Open the hash under a key and edit it; what was edited before an error or where there is
    nothing to do stays. -/
def withHash {α : Type} (s : CoordStore) (now : Moment) (key : String)
    (edit : Fields → Checked (Except CoordError α × Fields)) : Checked (Answer α) :=
  let opened := s.opened now key (.hash {})
  match opened.entries[key]? with
  | some ⟨.hash f, deadline⟩ => (edit f).map fun r => (r.1, opened.put key ⟨.hash r.2, deadline⟩)
  | _ => .ok (.error (.wrongType key), opened)

theorem withSet_eq {α : Type} {edit : Members → α × Members} :
    s.withSet now key edit =
      match s.members now key with
      | .error e => (.error e, s)
      | .ok m => (.ok (edit m).1, s.put key ⟨.sortedSet (edit m).2, s.deadline? now key⟩) := by
  unfold withSet members datum? deadline?
  cases hlive : s.live? now key with
  | none => simp [opened_of_over hlive, put_put]
  | some e =>
    have hentry := (live?_eq_some.mp hlive).1
    obtain ⟨_ | _ | _, deadline⟩ := e <;> simp [opened_of_live hlive, hentry]

/-- An empty set need not be edited. -/
theorem shrinkSet_eq {α : Type} {missing : α} {edit : Members → α × Members}
    (hempty : edit ∅ = (missing, ∅)) :
    s.shrinkSet now key missing edit =
      match s.members now key with
      | .error e => (.error e, s)
      | .ok m => (.ok (edit m).1, s.putMembers now key (edit m).2) := by
  unfold shrinkSet members datum? putMembers deadline?
  cases hlive : s.live? now key with
  | none => simp [settle_of_over hlive, tidied, hempty]
  | some e =>
    have hentry := (live?_eq_some.mp hlive).1
    obtain ⟨_ | _ | _, deadline⟩ := e <;> simp [settle_of_live hlive, hentry, tidied_put]

theorem withHash_eq {α : Type} {edit : Fields → Checked (Except CoordError α × Fields)} :
    s.withHash now key edit =
      match s.hash now key with
      | .error e => .ok (.error e, s)
      | .ok f => (edit f).map fun r => (r.1, s.putHash now key r.2) := by
  unfold withHash hash datum? putHash deadline?
  cases hlive : s.live? now key with
  | none => simp [opened_of_over hlive, put_put]
  | some e =>
    have hentry := (live?_eq_some.mp hlive).1
    obtain ⟨_ | _ | _, deadline⟩ := e <;> simp [opened_of_live hlive, hentry]

/-- To write a hash back as it is changes nothing, if it is there. -/
theorem putHash_self {f : Fields} {field value : String} (hhash : s.hash now key = .ok f)
    (hfield : f[field]? = some value) : s.putHash now key f = s := by
  obtain ⟨deadline, hlive⟩ := live?_of_field hhash hfield
  have hentry := (live?_eq_some.mp hlive).1
  unfold putHash deadline?
  rw [hlive]
  exact put_self hentry

/-! ### Calls in place -/

/-- Perform a call on a store that can be reached, on the entry where it lies. -/
def workInPlace (s : CoordStore) (now : Moment) : (call : CoordCall) → Checked (Answer call.Result)
  | .addMember key member score =>
    .ok (s.withSet now key fun m => (!m.contains member, m.insert member score))
  | .removeMember key member =>
    .ok (s.shrinkSet now key false fun m => (m.contains member, m.erase member))
  | .removeScores key low high =>
    .ok (s.shrinkSet now key 0 fun m =>
      (m.size - (keptScores low high m).size, keptScores low high m))
  | .setFields key fields =>
    s.withHash now key fun f => .ok (.ok (), fields.foldl (fun f p => f.insert p.1 p.2) f)
  | .setNewField key field value =>
    s.withHash now key fun f =>
      .ok (if f.contains field then (.ok false, f) else (.ok true, f.insert field value))
  | .increment key field delta =>
    s.withHash now key fun f =>
      match counter f key field with
      | .error e => .ok (.error e, f)
      | .ok n =>
        if fitsInt64 (n + delta) then
          .ok (.ok (n + delta), f.insert field (toString (n + delta)))
        else .error .count
  | .expire key ttl =>
    let settled := s.settle now key
    match settled.entries[key]? with
    | some e =>
      (now.after ttl).map fun t => (.ok true, settled.put key { e with deadline := some t })
    | none => .ok (.ok false, settled)
  | .tryLock key token ttl =>
    let settled := s.settle now key
    if settled.entries.contains key then .ok (.ok false, settled)
    else (now.after ttl).map fun t => (.ok true, settled.put key ⟨.text token, some t⟩)
  | .unlock key token =>
    let settled := s.settle now key
    match settled.entries[key]? with
    | some ⟨.text holder, _⟩ =>
      .ok (if holder == token then (.ok true, settled.drop key) else (.ok false, settled))
    | _ => .ok (.ok false, settled)
  -- The others read, or write without a look at what is there.
  | .cardinality key => .ok (s.cardinality now key)
  | .getFields key => .ok (s.getFields now key)
  | .getText key => .ok (s.getText now key)
  | .setText key value ttl => s.setText now key value ttl
  | .delete key => .ok (s.delete now key)
  | .deletePattern pattern => .ok (s.deletePattern now pattern)
  | .scan start => .ok (s.scan now start)

/-- Perform a call on the entry where it lies. -/
def inPlace (s : CoordStore) (now : Moment) (call : CoordCall) : Checked (Answer call.Result) :=
  if s.available then s.workInPlace now call else .ok s.unreachable

theorem workInPlace_eq (havailable : s.available = true) (call : CoordCall) :
    s.workInPlace now call = s.perform now call := by
  cases call with
  | addMember key member score =>
    simp only [workInPlace, withSet_eq, perform, addMember, whenAvailable, havailable, if_true,
      putMembers]
    cases s.members now key <;> simp
  | removeMember key member =>
    simp only [workInPlace, perform, removeMember, whenAvailable, havailable, if_true]
    exact congrArg Except.ok (shrinkSet_eq (by simp))
  | removeScores key low high =>
    have hkept : keptScores low high ∅ = ∅ := by
      ext1 member
      simp [keptScores]
    simp only [workInPlace, perform, removeScores, whenAvailable, havailable, if_true]
    exact congrArg Except.ok (shrinkSet_eq (by simp [hkept]))
  | setFields key fields =>
    simp only [workInPlace, withHash_eq, perform, setFields, whenAvailable, havailable, if_true]
    cases s.hash now key <;> rfl
  | setNewField key field value =>
    simp only [workInPlace, withHash_eq, perform, setNewField, whenAvailable, havailable, if_true]
    cases hhash : s.hash now key with
    | error e => rfl
    | ok f =>
      cases hfield : f[field]? with
      | none =>
        have hnew : f.contains field = false := by
          simp [Std.ExtTreeMap.contains_eq_isSome_getElem?, hfield]
        simp [Except.map, hnew]
      | some v =>
        -- A hash with the field is there already and is written back as it is.
        have hold : f.contains field = true := by
          simp [Std.ExtTreeMap.contains_eq_isSome_getElem?, hfield]
        simp [Except.map, hold, putHash_self hhash hfield]
  | increment key field delta =>
    simp only [workInPlace, withHash_eq, perform, increment, havailable, if_true]
    cases hhash : s.hash now key with
    | error e => rfl
    | ok f =>
      cases hfield : f[field]? with
      | none =>
        simp only [counter, hfield]
        split <;> rfl
      | some raw =>
        cases hcounter : counter f key field with
        | ok n =>
          simp only [hcounter]
          split <;> rfl
        | error e => simp [hcounter, Except.map, putHash_self hhash hfield]
  | expire key ttl =>
    simp only [workInPlace, perform, expire, havailable, if_true]
    cases hlive : s.live? now key with
    | none => simp [settle_of_over hlive]
    | some e => simp [settle_of_live hlive, (live?_eq_some.mp hlive).1]
  | tryLock key token ttl =>
    simp only [workInPlace, perform, tryLock, havailable, if_true]
    cases hlive : s.live? now key with
    | none => simp [settle_of_over hlive, Std.ExtTreeMap.contains_eq_isSome_getElem?, put_drop]
    | some e =>
      simp [settle_of_live hlive, Std.ExtTreeMap.contains_eq_isSome_getElem?,
        (live?_eq_some.mp hlive).1]
  | unlock key token =>
    simp only [workInPlace, perform, unlock, whenAvailable, havailable, if_true]
    unfold isHeldBy datum?
    cases hlive : s.live? now key with
    | none => simp [settle_of_over hlive]
    | some e =>
      have hentry := (live?_eq_some.mp hlive).1
      obtain ⟨_ | _ | _, deadline⟩ := e <;> simp [settle_of_live hlive, hentry]
  | cardinality | getFields | getText | setText | delete | deletePattern | scan => rfl

/-- Whether it works in place or looks first and writes at the end, the store gives the same
    answer and is the same after it. -/
theorem inPlace_eq_perform (s : CoordStore) (now : Moment) (call : CoordCall) :
    s.inPlace now call = s.perform now call := by
  unfold inPlace
  cases havailable : s.available with
  | true => exact workInPlace_eq havailable call
  | false =>
    rw [perform_unreachable havailable]
    rfl

end ExecutionControl.CoordStore
