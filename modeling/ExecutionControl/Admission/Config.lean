import ExecutionControl.Settings

/-! # Settings of admission -/

namespace ExecutionControl

/-- How admission is set up. -/
structure AdmissionConfig where
  /-- The ceiling of organisations without one of their own. -/
  defaultOrgLimit : Nat := 20
  /-- The ceiling of all organisations together. -/
  globalLimit : Nat := 100
  /-- How long a slot counts if it is never given back. -/
  slotRetention : Duration := .seconds 21600
  /-- How long the lock of an organisation is held at most. -/
  lockTtl : Duration := .seconds 2
  /-- How long to wait for the lock of an organisation. -/
  lockWait : Duration := .seconds 5
  /-- How long to sleep between two attempts to take the lock. -/
  lockPollInterval : Duration := .milliseconds 50
  /-- How long a cached limit is used. -/
  limitCacheTtl : Duration := .seconds 600
  deriving DecidableEq

/-- The configuration that some settings ask for. A ceiling is never below one. -/
def AdmissionConfig.ofSettings (s : Settings) : AdmissionConfig :=
  let d : AdmissionConfig := {}
  { defaultOrgLimit := max 1
      (s.nat Text.maxWord32 "DOCFLOW_DEFAULT_ORG_LIMIT" d.defaultOrgLimit)
    globalLimit := max 1 (s.nat Text.maxWord32 "DOCFLOW_GLOBAL_LIMIT" d.globalLimit)
    slotRetention := s.secs "DOCFLOW_SLOT_RETENTION_SECS" d.slotRetention
    lockTtl := s.millis "DOCFLOW_ADMISSION_LOCK_TTL_MS" d.lockTtl
    lockWait := s.millis "DOCFLOW_ADMISSION_LOCK_WAIT_MS" d.lockWait
    lockPollInterval := s.millis "DOCFLOW_ADMISSION_LOCK_POLL_MS" d.lockPollInterval
    limitCacheTtl := s.secs "DOCFLOW_LIMIT_CACHE_TTL_SECS" d.limitCacheTtl }

end ExecutionControl
