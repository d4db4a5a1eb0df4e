import ExecutionControl.Coordination.Store

/-! # Keys

    Where everything lives in the coordination store. All workers must agree on these
    names, so that they are built here and nowhere else.
-/

namespace ExecutionControl.Key

/-- The start of the keys that hold cached limits. -/
def limitCacheStart : String := "rate_limit:cache:org_limit:"

/-- The start of the keys that hold the slots of organisations. -/
def orgSlotsStart : String := "api_deployment:rate_limit:org:"

/-- The key of the slots of all organisations together. -/
def globalSlots : String := "api_deployment:rate_limit:global"

/-- The start of the keys that lock the admissions of organisations. -/
def orgLockStart : String := "lock:rate_limit:org:"

/-- The start of the keys of status records. -/
def executionStart : String := "execution:"

/-- The key of the slots of an organisation. -/
def orgSlots (orgId : String) : String := orgSlotsStart ++ orgId

/-- The key that locks the admissions of an organisation. -/
def orgLock (orgId : String) : String := orgLockStart ++ orgId

/-- The key of the cached limit of an organisation. -/
def limitCache (orgId : String) : String := limitCacheStart ++ orgId

/-- The pattern of all keys of cached limits. -/
def limitCachePattern : String := limitCacheStart ++ "*"

/-- The key of the status record of an execution. -/
def execution (workflowId executionId : String) : String :=
  executionStart ++ workflowId ++ ":" ++ executionId

/-- The organisation whose slots a key holds; an organisation without a name has no
    slots. -/
def orgOfSlots? (key : String) : Option String :=
  if CoordStore.startsWith orgSlotsStart key then
    let orgId := String.ofList (key.toList.drop orgSlotsStart.length)
    if orgId.isEmpty then none else some orgId
  else none

end ExecutionControl.Key
