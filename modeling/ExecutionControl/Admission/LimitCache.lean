import ExecutionControl.Key
import ExecutionControl.Program

/-! # The limit cache

    The ceiling of an organisation, kept in the coordination store so that every worker
    sees the same one. A write goes to the durable table first and drops the cached
    ceiling after it; the time to live matters only when that drop is lost.
-/

namespace ExecutionControl

/-- How limits are cached. -/
structure LimitCache where
  /-- The ceiling of organisations without a durable row. -/
  defaultLimit : Nat
  /-- How long a cached ceiling is used. -/
  ttl : Duration
  /-- A ceiling lets at least one execution run. -/
  defaultLimit_pos : 0 < defaultLimit

namespace LimitCache

/-- A cache with a default ceiling, raised to one if it is zero. -/
def ofDefault (defaultLimit : Nat) (ttl : Duration) : LimitCache :=
  ⟨max 1 defaultLimit, ttl, by omega⟩

/-- The ceiling that a cached text stands for, if it is a number of at least one. -/
def cachedLimit? (raw : String) : Option Nat :=
  match Text.readNat Text.maxWord32 raw with
  | .ok n => if 0 < n then some n else none
  | .error _ => none

/-- The ceiling of a durable row, or the default if there is none. -/
def limitOfRow (c : LimitCache) (row : Option OrgLimit) : Nat :=
  row.elim c.defaultLimit fun r => max r.concurrentRequestLimit 1

/-- Read the durable ceiling, and cache it if the cache can be reached. Where the
    durable table fails the default stands in and is not cached. -/
def load (c : LimitCache) (orgId : String) (cacheReachable : Bool) : Program Nat := do
  match ← Program.limits (.get orgId) with
  | .ok row => do
    if cacheReachable then
      let _ ← Program.coord
        (.setText (Key.limitCache orgId) (toString (c.limitOfRow row)) (some c.ttl))
    return c.limitOfRow row
  | .error e => do
    Program.report (.limitLookupFailed orgId e c.defaultLimit)
    return c.defaultLimit

/-- The ceiling of an organisation. -/
def getLimit (c : LimitCache) (orgId : String) : Program Nat := do
  match ← Program.coord (.getText (Key.limitCache orgId)) with
  | .ok none => c.load orgId true
  | .ok (some raw) =>
    match cachedLimit? raw with
    | some n => return n
    | none => do
      Program.report (.cachedLimitDiscarded orgId raw)
      c.load orgId true
  | .error e => do
    Program.report (.limitCacheUnreachable orgId e)
    c.load orgId false

/-- Drop the cached ceiling of an organisation; says whether there was one. -/
def invalidate (c : LimitCache) (orgId : String) : Program Bool := do
  match ← Program.coord (.delete (Key.limitCache orgId)) with
  | .ok existed => return existed
  | .error e => do
    Program.report (.invalidationFailed orgId e c.ttl)
    return false

/-- Give an organisation a ceiling of its own. -/
def setLimit (c : LimitCache) (orgId : String) (limit : Nat) :
    Program (Except StoreError OrgLimit) := do
  match ← Program.limits (.upsert orgId limit) with
  | .ok row => do
    let _ ← c.invalidate orgId
    return .ok row
  | .error e => return .error e

/-- Give an organisation the default ceiling again; says whether it had its own. -/
def deleteLimit (c : LimitCache) (orgId : String) : Program (Except StoreError Bool) := do
  match ← Program.limits (.delete orgId) with
  | .ok existed => do
    let _ ← c.invalidate orgId
    return .ok existed
  | .error e => return .error e

end LimitCache

end ExecutionControl
