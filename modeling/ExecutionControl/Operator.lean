import ExecutionControl.Admission.Control

/-! # Operator actions

    What an operator may do: drop cached limits, give organisations ceilings of their
    own, and look at usage.
-/

namespace ExecutionControl

/-- How close usage is to a ceiling. -/
inductive CapacityLevel where
  | normal
  | warning
  | critical
  deriving DecidableEq, Repr

namespace CapacityLevel

/-- The level of a percentage: critical from 90, warning from 70. -/
def ofPercent (percent : Float) : CapacityLevel :=
  if percent ≥ 90.0 then .critical
  else if percent ≥ 70.0 then .warning
  else .normal

/-- The name of a level. -/
def name : CapacityLevel → String
  | .normal => "normal"
  | .warning => "warning"
  | .critical => "critical"

/-- What an operator is warned with. -/
def banner : CapacityLevel → Option String
  | .normal => none
  | .warning => some "WARNING: usage is above 70% of capacity"
  | .critical => some "CRITICAL: usage is above 90% of capacity"

end CapacityLevel

/-- Usage as an operator sees it. -/
structure UsageReport where
  orgId : String
  orgCount : Nat
  orgLimit : Nat
  orgPercent : Float
  /-- Whether the organisation has a ceiling of its own. -/
  customLimit : Bool
  globalCount : Nat
  globalLimit : Nat
  globalPercent : Float
  /-- The worse of the levels of the organisation and of the whole system. -/
  level : CapacityLevel

/-- Why an operator action fails. -/
inductive OperatorError where
  /-- The coordination store failed. -/
  | coordination (e : CoordError)
  /-- A durable store failed. -/
  | store (e : StoreError)
  deriving DecidableEq, Repr

/-- The wording of the error. -/
def OperatorError.message : OperatorError → String
  | .coordination e => e.message
  | .store e => e.message

/-- What an operator acts on. -/
structure Operator where
  admission : Admission

namespace Operator

/-- A part of a program that a failing store ends. -/
abbrev Action (α : Type) := ExceptT OperatorError Program α

/-- An action on the coordination store. -/
def onCoord {α : Type} (x : Coord α) : Action α :=
  ExceptT.mk ((fun r => r.mapError .coordination) <$> x.run)

/-- An action on a durable store. -/
def onStore {α : Type} (x : Program (Except StoreError α)) : Action α :=
  ExceptT.mk ((fun r => r.mapError .store) <$> x)

/-! ### Cached limits -/

/-- Drop the cached limit of an organisation; says whether there was one. -/
def clearOrgCache (orgId : String) : Action Bool :=
  onCoord (Coord.call (.delete (Key.limitCache orgId)))

/-- Delete keys one by one; says how many there were, added to `deleted`. -/
def deleteKeys : List String → Nat → Coord Nat
  | [], deleted => return deleted
  | key :: rest, deleted => do
    let existed ← Coord.call (.delete key)
    deleteKeys rest (if existed then deleted + 1 else deleted)

/-- Drop every cached limit; says how many there were. Where the store cannot delete by
    pattern, the keys are listed and deleted one by one. -/
def clearAllCaches : Action Nat := onCoord do
  match ← Coord.attempt (Coord.call (.deletePattern Key.limitCachePattern)) with
  | .ok n => return n
  | .error (.unsupported ..) => do
    let keys ← Coord.call (.scan Key.limitCacheStart)
    deleteKeys keys 0
  | .error e => throw e

/-- Drop the cached limits of some organisations one by one. -/
def invalidateEach (c : LimitCache) : List String → Program Unit
  | [] => pure ()
  | orgId :: rest => do
    let _ ← c.invalidate orgId
    invalidateEach c rest

/-- Drop the cached limit of every organisation with a ceiling of its own; says how many
    organisations there are. -/
def clearCustomCaches (o : Operator) : Action Nat := do
  let rows ← onStore (Program.limits .list)
  invalidateEach o.admission.cache (rows.map (·.orgId))
  return rows.length

/-! ### Ceilings -/

/-- Give an organisation a ceiling of its own. -/
def setCustomLimit (o : Operator) (orgId : String) (limit : Nat) : Action Unit := do
  let _ ← onStore (o.admission.cache.setLimit orgId limit)

/-- Give an organisation the default ceiling again; says whether it had its own. -/
def deleteCustomLimit (o : Operator) (orgId : String) : Action Bool :=
  onStore (o.admission.cache.deleteLimit orgId)

/-! ### Usage -/

/-- A count against a ceiling in percent; a ceiling of zero is always used up. -/
def percent (count limit : Nat) : Float :=
  if limit = 0 then 100.0 else Float.ofNat count / Float.ofNat limit * 100.0

/-- The larger of two percentages. -/
def larger (x y : Float) : Float := if x < y then y else x

/-- The report of a usage. -/
def reportOf (u : Usage) (customLimit : Bool) : UsageReport :=
  let orgPercent := percent u.orgCount u.orgLimit
  let globalPercent := percent u.globalCount u.globalLimit
  { orgId := u.orgId, orgCount := u.orgCount, orgLimit := u.orgLimit, orgPercent, customLimit,
    globalCount := u.globalCount, globalLimit := u.globalLimit, globalPercent,
    level := .ofPercent (larger orgPercent globalPercent) }

/-- Usage of an organisation and of the whole system. -/
def usageReport (o : Operator) (orgId : String) : Action UsageReport := do
  let usage ← onCoord (o.admission.usage orgId)
  let row ← onStore (Program.limits (.get orgId))
  return reportOf usage row.isSome

end Operator

end ExecutionControl
