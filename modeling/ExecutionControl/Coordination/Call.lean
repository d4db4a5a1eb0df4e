import ExecutionControl.Coordination.Store

/-! # Calls to the coordination store

    The operations of the coordination store as data, so that a program can be written
    as a sequence of calls and run against any store, with others in between or with
    chosen calls failing.
-/

namespace ExecutionControl

/-- One call to the coordination store. -/
inductive CoordCall where
  | addMember (key member : String) (score : Float)
  | removeMember (key member : String)
  | cardinality (key : String)
  | removeScores (key : String) (low high : Float)
  | setFields (key : String) (fields : List (String × String))
  | setNewField (key field value : String)
  | getFields (key : String)
  | increment (key field : String) (delta : Int)
  | getText (key : String)
  | setText (key value : String) (ttl : Option Duration)
  | delete (key : String)
  | expire (key : String) (ttl : Duration)
  | deletePattern (pattern : String)
  | scan (start : String)
  | tryLock (key token : String) (ttl : Duration)
  | unlock (key token : String)

namespace CoordCall

/-- What a call gives back when it succeeds. -/
abbrev Result : CoordCall → Type
  | .addMember .. => Bool
  | .removeMember .. => Bool
  | .cardinality .. => Nat
  | .removeScores .. => Nat
  | .setFields .. => Unit
  | .setNewField .. => Bool
  | .getFields .. => Fields
  | .increment .. => Int
  | .getText .. => Option String
  | .setText .. => Unit
  | .delete .. => Bool
  | .expire .. => Bool
  | .deletePattern .. => Nat
  | .scan .. => List String
  | .tryLock .. => Bool
  | .unlock .. => Bool

/-- The key of a call, or the pattern or first letters that stand for keys. -/
def subject : CoordCall → String
  | .addMember key .. => key
  | .removeMember key .. => key
  | .cardinality key => key
  | .removeScores key .. => key
  | .setFields key .. => key
  | .setNewField key .. => key
  | .getFields key => key
  | .increment key .. => key
  | .getText key => key
  | .setText key .. => key
  | .delete key => key
  | .expire key .. => key
  | .deletePattern pattern => pattern
  | .scan start => start
  | .tryLock key .. => key
  | .unlock key .. => key

/-- The name of the operation in the command language of sorted-set stores. -/
def method : CoordCall → String
  | .addMember .. => "zadd"
  | .removeMember .. => "zrem"
  | .cardinality .. => "zcard"
  | .removeScores .. => "zrem_range_by_score"
  | .setFields .. => "hset"
  | .setNewField .. => "hset_nx"
  | .getFields .. => "hget_all"
  | .increment .. => "hincr"
  | .getText .. => "get"
  | .setText .. => "set"
  | .delete .. => "delete"
  | .expire .. => "expire"
  | .deletePattern .. => "delete_pattern"
  | .scan .. => "scan_prefix"
  | .tryLock .. => "try_lock"
  | .unlock .. => "unlock"

end CoordCall

/-- Perform a call on a store at a time. An increment can overflow, and so can a call that
    sets a deadline. -/
def CoordStore.perform (s : CoordStore) (now : Moment) :
    (call : CoordCall) → Checked (CoordStore.Answer call.Result)
  | .addMember key member score => .ok (s.addMember now key member score)
  | .removeMember key member => .ok (s.removeMember now key member)
  | .cardinality key => .ok (s.cardinality now key)
  | .removeScores key low high => .ok (s.removeScores now key low high)
  | .setFields key fields => .ok (s.setFields now key fields)
  | .setNewField key field value => .ok (s.setNewField now key field value)
  | .getFields key => .ok (s.getFields now key)
  | .increment key field delta => s.increment now key field delta
  | .getText key => .ok (s.getText now key)
  | .setText key value ttl => s.setText now key value ttl
  | .delete key => .ok (s.delete now key)
  | .expire key ttl => s.expire now key ttl
  | .deletePattern pattern => .ok (s.deletePattern now pattern)
  | .scan start => .ok (s.scan now start)
  | .tryLock key token ttl => s.tryLock now key token ttl
  | .unlock key token => .ok (s.unlock now key token)

end ExecutionControl
