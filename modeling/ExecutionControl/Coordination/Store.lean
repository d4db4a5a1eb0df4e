import Std.Data.ExtTreeMap
import ExecutionControl.Coordination.Error
import ExecutionControl.Coordination.Glob
import ExecutionControl.Duration
import ExecutionControl.Overflow
import ExecutionControl.Text.Numeral

/-! # The coordination store

    A store of keys that all workers share. A key holds a text, a hash of fields or a
    sorted set of scored members, and may have a deadline. An entry whose deadline is
    reached counts as absent; it is dropped when an operation that writes meets it.

    Every operation takes the time at which it runs and gives back its answer and the
    store after it; an operation that overflows leaves the store as it is. Two switches
    stand for trouble: a store that is not available fails every operation, and one
    without pattern deletion refuses that operation only.
-/

namespace ExecutionControl

/-! ### Entries -/

/-- The fields of a hash. -/
abbrev Fields := Std.ExtTreeMap String String

/-- The members of a sorted set with their scores. -/
abbrev Members := Std.ExtTreeMap String Float

/-- What a key holds. -/
inductive Datum where
  | text (s : String)
  | hash (fields : Fields)
  | sortedSet (members : Members)

/-- What a key holds and until when. -/
structure Entry where
  datum : Datum
  /-- The time from which the entry counts as absent, if there is one. -/
  deadline : Option Moment := none

/-- Whether an entry still counts at a time. -/
def Entry.isLive (e : Entry) (now : Moment) : Bool :=
  match e.deadline with
  | none => true
  | some t => now < t

/-- The store. -/
structure CoordStore where
  /-- The entries by key, live or not. -/
  entries : Std.ExtTreeMap String Entry := {}
  /-- Whether the store can be reached. -/
  available : Bool := true
  /-- Whether the store can delete by pattern. -/
  patternDelete : Bool := true

namespace CoordStore

/-! ### Looking and dropping -/

/-- The live entry of a key. -/
def live? (s : CoordStore) (now : Moment) (key : String) : Option Entry :=
  s.entries[key]?.filter fun e => e.isLive now

/-- What the live entry of a key holds. -/
def datum? (s : CoordStore) (now : Moment) (key : String) : Option Datum :=
  (s.live? now key).map (·.datum)

/-- Write the entry of a key. -/
def put (s : CoordStore) (key : String) (e : Entry) : CoordStore :=
  { s with entries := s.entries.insert key e }

/-- Remove the entry of a key. -/
def drop (s : CoordStore) (key : String) : CoordStore :=
  { s with entries := s.entries.erase key }

/-- Drop the entry of a key if it is no longer live. -/
def settle (s : CoordStore) (now : Moment) (key : String) : CoordStore :=
  if (s.live? now key).isSome then s else s.drop key

/-- The answer of one operation and the store after it. -/
abbrev Answer (α : Type) := Except CoordError α × CoordStore

/-- The answer of a store that cannot be reached. -/
def unreachable {α : Type} (s : CoordStore) : Answer α :=
  (.error (.unavailable "connection refused"), s)

/-- Run an operation on a store that can be reached. -/
def whenAvailable {α : Type} (s : CoordStore) (op : CoordStore → Answer α) : Answer α :=
  if s.available then op s else s.unreachable

/-! ### Sorted sets -/

/-- The members of the sorted set under a key, empty if there is none; an error if the
    key holds something else. -/
def members (s : CoordStore) (now : Moment) (key : String) : Except CoordError Members :=
  match s.datum? now key with
  | none => .ok {}
  | some (.sortedSet m) => .ok m
  | some _ => .error (.wrongType key)

/-- The deadline of the live entry of a key. -/
def deadline? (s : CoordStore) (now : Moment) (key : String) : Option Moment :=
  (s.live? now key).bind (·.deadline)

/-- Write the members of a sorted set; an empty set is removed. The deadline stays. -/
def putMembers (s : CoordStore) (now : Moment) (key : String) (m : Members) : CoordStore :=
  if m.isEmpty then s.drop key else s.put key ⟨.sortedSet m, s.deadline? now key⟩

/-- Add a member or change its score; says whether the member is new. -/
def addMember (s : CoordStore) (now : Moment) (key member : String) (score : Float) :
    Answer Bool :=
  s.whenAvailable fun s =>
    match s.members now key with
    | .error e => (.error e, s)
    | .ok m => (.ok (!m.contains member), s.putMembers now key (m.insert member score))

/-- Remove a member; says whether it was there. -/
def removeMember (s : CoordStore) (now : Moment) (key member : String) : Answer Bool :=
  s.whenAvailable fun s =>
    match s.members now key with
    | .error e => (.error e, s)
    | .ok m => (.ok (m.contains member), s.putMembers now key (m.erase member))

/-- The number of members. -/
def cardinality (s : CoordStore) (now : Moment) (key : String) : Answer Nat :=
  s.whenAvailable fun s => ((s.members now key).map (·.size), s)

/-- Remove the members with a score from `low` to `high`; says how many. -/
def removeScores (s : CoordStore) (now : Moment) (key : String) (low high : Float) :
    Answer Nat :=
  s.whenAvailable fun s =>
    match s.members now key with
    | .error e => (.error e, s)
    | .ok m =>
      let kept := m.filter fun _ score => score < low || score > high
      (.ok (m.size - kept.size), s.putMembers now key kept)

/-! ### Hashes -/

/-- The fields of the hash under a key, empty if there is none; an error if the key
    holds something else. -/
def hash (s : CoordStore) (now : Moment) (key : String) : Except CoordError Fields :=
  match s.datum? now key with
  | none => .ok {}
  | some (.hash f) => .ok f
  | some _ => .error (.wrongType key)

/-- Write the fields of a hash. The deadline stays. -/
def putHash (s : CoordStore) (now : Moment) (key : String) (f : Fields) : CoordStore :=
  s.put key ⟨.hash f, s.deadline? now key⟩

/-- Set fields one after another. -/
def setFields (s : CoordStore) (now : Moment) (key : String) (fields : List (String × String)) :
    Answer Unit :=
  s.whenAvailable fun s =>
    match s.hash now key with
    | .error e => (.error e, s)
    | .ok f => (.ok (), s.putHash now key (fields.foldl (fun f p => f.insert p.1 p.2) f))

/-- Set a field that does not exist yet; says whether it was set. -/
def setNewField (s : CoordStore) (now : Moment) (key field value : String) : Answer Bool :=
  s.whenAvailable fun s =>
    match s.hash now key with
    | .error e => (.error e, s)
    | .ok f =>
      if f.contains field then (.ok false, s)
      else (.ok true, s.putHash now key (f.insert field value))

/-- All fields. -/
def getFields (s : CoordStore) (now : Moment) (key : String) : Answer Fields :=
  s.whenAvailable fun s => (s.hash now key, s)

/-- The whole number in a field, zero if there is no such field. -/
def counter (f : Fields) (key field : String) : Except CoordError Int :=
  match f[field]? with
  | none => .ok 0
  | some raw =>
    match Text.readInt Text.maxInt64 raw with
    | .ok n => .ok n
    | .error e => .error (.corrupt (key ++ "/" ++ field) e.message)

/-- Whether an integer fits in a signed word of 64 bits. -/
def fitsInt64 (n : Int) : Bool := -(Int.pow 2 63) ≤ n && n < Int.pow 2 63

/-- Add to the whole number in a field and give back the sum, which must fit in 64
    bits. -/
def increment (s : CoordStore) (now : Moment) (key field : String) (delta : Int) :
    Checked (Answer Int) :=
  if s.available then
    match s.hash now key with
    | .error e => .ok (.error e, s)
    | .ok f =>
      match counter f key field with
      | .error e => .ok (.error e, s)
      | .ok n =>
        if fitsInt64 (n + delta) then
          .ok (.ok (n + delta), s.putHash now key (f.insert field (toString (n + delta))))
        else .error .count
  else .ok s.unreachable

/-! ### Texts -/

/-- The text under a key. -/
def getText (s : CoordStore) (now : Moment) (key : String) : Answer (Option String) :=
  s.whenAvailable fun s =>
    match s.datum? now key with
    | none => (.ok none, s)
    | some (.text t) => (.ok (some t), s)
    | some _ => (.error (.wrongType key), s)

/-- Put a text under a key, whatever was there; without `ttl` it stays for good. -/
def setText (s : CoordStore) (now : Moment) (key value : String) (ttl : Option Duration) :
    Checked (Answer Unit) :=
  if s.available then
    (now.afterAny ttl).map fun deadline => (.ok (), s.put key ⟨.text value, deadline⟩)
  else .ok s.unreachable

/-! ### Keys -/

/-- Remove a key; says whether it was live. -/
def delete (s : CoordStore) (now : Moment) (key : String) : Answer Bool :=
  s.whenAvailable fun s => (.ok (s.live? now key).isSome, s.drop key)

/-- Give a live key a new deadline; says whether there is one. -/
def expire (s : CoordStore) (now : Moment) (key : String) (ttl : Duration) :
    Checked (Answer Bool) :=
  if s.available then
    match s.live? now key with
    | some e => (now.after ttl).map fun t => (.ok true, s.put key { e with deadline := some t })
    | none => .ok (.ok false, s.drop key)
  else .ok s.unreachable

/-- Remove the live keys that match a pattern; says how many. -/
def deletePattern (s : CoordStore) (now : Moment) (pattern : String) : Answer Nat :=
  s.whenAvailable fun s =>
    if s.patternDelete then
      let doomed (key : String) (e : Entry) : Bool := e.isLive now && Glob.isMatch pattern key
      (.ok (s.entries.filter doomed).size,
        { s with entries := s.entries.filter fun key e => !doomed key e })
    else (.error (.unsupported "memory" ("delete_pattern(" ++ pattern ++ ")")), s)

/-- Whether a text starts with another. -/
def startsWith (start text : String) : Bool := start.toList.isPrefixOf text.toList

/-- The live keys that start with a text, in ascending order: from that text on in the
    order of the keys, up to the first key that does not start with it. -/
def scan (s : CoordStore) (now : Moment) (start : String) : Answer (List String) :=
  s.whenAvailable fun s =>
    let run := (s.entries.toList.dropWhile fun p => p.1 < start).takeWhile
      fun p => startsWith start p.1
    (.ok ((run.filter fun p => p.2.isLive now).map (·.1)), s)

/-! ### Locks -/

/-- Take a key for `ttl` if it is free. -/
def tryLock (s : CoordStore) (now : Moment) (key token : String) (ttl : Duration) :
    Checked (Answer Bool) :=
  if s.available then
    if (s.live? now key).isSome then .ok (.ok false, s)
    else (now.after ttl).map fun t => (.ok true, s.put key ⟨.text token, some t⟩)
  else .ok s.unreachable

/-- Whether a key is held under a token. -/
def isHeldBy (s : CoordStore) (now : Moment) (key token : String) : Bool :=
  match s.datum? now key with
  | some (.text holder) => holder == token
  | _ => false

/-- Free a key that is held under a token; says whether it was. -/
def unlock (s : CoordStore) (now : Moment) (key token : String) : Answer Bool :=
  s.whenAvailable fun s =>
    if s.isHeldBy now key token then (.ok true, s.drop key) else (.ok false, s.settle now key)

end CoordStore

end ExecutionControl
