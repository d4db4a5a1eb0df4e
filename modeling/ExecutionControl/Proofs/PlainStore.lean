import ExecutionControl.Proofs.KeyOrder
import ExecutionControl.Proofs.CoordinationCalls

/-! # A store without lazy expiry

    A store that removes every entry whose deadline is reached before it performs a call
    (`PlainStore.serve`), and then looks at no deadline: what is there counts.

    The coordination store keeps such entries until a write meets them, and every operation
    looks past them in its own way. `Shadows` says that both hold the same live entries;
    `Shadows.serve` that they then answer every call alike and hold the same live entries
    again.
-/

namespace ExecutionControl

/-- A store in which everything that is there counts. -/
structure PlainStore where
  entries : Std.ExtTreeMap String Entry := {}
  /-- Whether the store can be reached. -/
  available : Bool := true
  /-- Whether the store can delete by pattern. -/
  patternDelete : Bool := true

namespace PlainStore

/-! ### Entries -/

/-- Remove every entry whose deadline is reached. -/
def expel (r : PlainStore) (now : Moment) : PlainStore :=
  { r with entries := r.entries.filter fun _ e => e.deadline.all fun t => now < t }

/-- What a key holds. -/
def datum? (r : PlainStore) (key : String) : Option Datum := r.entries[key]?.map (·.datum)

/-- The deadline of a key. -/
def deadline? (r : PlainStore) (key : String) : Option Moment := r.entries[key]?.bind (·.deadline)

/-- Write the entry of a key. -/
def put (r : PlainStore) (key : String) (e : Entry) : PlainStore :=
  { r with entries := r.entries.insert key e }

/-- Remove the entry of a key. -/
def drop (r : PlainStore) (key : String) : PlainStore := { r with entries := r.entries.erase key }

/-- The members of the sorted set under a key. -/
def members (r : PlainStore) (key : String) : Except CoordError Members :=
  match r.datum? key with
  | none => .ok {}
  | some (.sortedSet m) => .ok m
  | some _ => .error (.wrongType key)

/-- Write the members of a sorted set, which keeps its deadline; an empty set is removed. -/
def putMembers (r : PlainStore) (key : String) (m : Members) : PlainStore :=
  if m.isEmpty then r.drop key else r.put key ⟨.sortedSet m, r.deadline? key⟩

/-- The fields of the hash under a key. -/
def hash (r : PlainStore) (key : String) : Except CoordError Fields :=
  match r.datum? key with
  | none => .ok {}
  | some (.hash f) => .ok f
  | some _ => .error (.wrongType key)

/-- Write the fields of a hash, which keeps its deadline. -/
def putHash (r : PlainStore) (key : String) (f : Fields) : PlainStore :=
  r.put key ⟨.hash f, r.deadline? key⟩

/-! ### Calls -/

/-- The answer of one operation and the store after it. -/
abbrev Answer (α : Type) := Except CoordError α × PlainStore

/-- Perform a call on a store that can be reached. -/
def carryOut (r : PlainStore) (now : Moment) : (call : CoordCall) → Checked (Answer call.Result)
  | .addMember key member score =>
    match r.members key with
    | .error e => .ok (.error e, r)
    | .ok m => .ok (.ok (!m.contains member), r.putMembers key (m.insert member score))
  | .removeMember key member =>
    match r.members key with
    | .error e => .ok (.error e, r)
    | .ok m => .ok (.ok (m.contains member), r.putMembers key (m.erase member))
  | .cardinality key => .ok ((r.members key).map (·.size), r)
  | .removeScores key low high =>
    match r.members key with
    | .error e => .ok (.error e, r)
    | .ok m =>
      let kept := m.filter fun _ score => score < low || score > high
      .ok (.ok (m.size - kept.size), r.putMembers key kept)
  | .setFields key fields =>
    match r.hash key with
    | .error e => .ok (.error e, r)
    | .ok f => .ok (.ok (), r.putHash key (fields.foldl (fun f p => f.insert p.1 p.2) f))
  | .setNewField key field value =>
    match r.hash key with
    | .error e => .ok (.error e, r)
    | .ok f =>
      if f.contains field then .ok (.ok false, r)
      else .ok (.ok true, r.putHash key (f.insert field value))
  | .getFields key => .ok (r.hash key, r)
  | .increment key field delta =>
    match r.hash key with
    | .error e => .ok (.error e, r)
    | .ok f =>
      match CoordStore.counter f key field with
      | .error e => .ok (.error e, r)
      | .ok n =>
        if CoordStore.fitsInt64 (n + delta) then
          .ok (.ok (n + delta), r.putHash key (f.insert field (toString (n + delta))))
        else .error .count
  | .getText key =>
    match r.datum? key with
    | none => .ok (.ok none, r)
    | some (.text t) => .ok (.ok (some t), r)
    | some _ => .ok (.error (.wrongType key), r)
  | .setText key value ttl =>
    (now.afterAny ttl).map fun deadline => (.ok (), r.put key ⟨.text value, deadline⟩)
  | .delete key => .ok (.ok (r.entries.contains key), r.drop key)
  | .expire key ttl =>
    match r.entries[key]? with
    | some e => (now.after ttl).map fun t => (.ok true, r.put key { e with deadline := some t })
    | none => .ok (.ok false, r)
  | .deletePattern pattern =>
    if r.patternDelete then
      .ok (.ok (r.entries.filter fun key _ => Glob.isMatch pattern key).size,
        { r with entries := r.entries.filter fun key _ => !Glob.isMatch pattern key })
    else .ok (.error (.unsupported "memory" ("delete_pattern(" ++ pattern ++ ")")), r)
  | .scan start => .ok (.ok (r.entries.keys.filter (CoordStore.startsWith start)), r)
  | .tryLock key token ttl =>
    if r.entries.contains key then .ok (.ok false, r)
    else (now.after ttl).map fun t => (.ok true, r.put key ⟨.text token, some t⟩)
  | .unlock key token =>
    match r.datum? key with
    | some (.text holder) =>
      if holder == token then .ok (.ok true, r.drop key) else .ok (.ok false, r)
    | _ => .ok (.ok false, r)

/-- Perform a call at a time. -/
def perform (r : PlainStore) (now : Moment) (call : CoordCall) : Checked (Answer call.Result) :=
  if r.available then r.carryOut now call
  else .ok (.error (.unavailable "connection refused"), r)

/-- Perform a call at a time, after what is over is removed. -/
def serve (r : PlainStore) (now : Moment) (call : CoordCall) : Checked (Answer call.Result) :=
  (r.expel now).perform now call

end PlainStore

end ExecutionControl
