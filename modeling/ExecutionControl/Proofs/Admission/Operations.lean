import ExecutionControl.Proofs.Interleaving

/-! # The operations on slots

    Every operation that reads or changes slots or their ceilings, as data.
-/

namespace ExecutionControl

/-- One operation of admission control. -/
inductive Operation where
  | tryAdmit (c : ExecutionContext) (now : Timestamp)
  | release (orgId executionId : String)
  | usage (orgId : String) (now : Timestamp)
  | sweepOrg (orgId : String) (now : Timestamp)
  | sweepAll (now : Timestamp)
  | setLimit (orgId : String) (limit : Nat)
  | deleteLimit (orgId : String)
  deriving DecidableEq

/-- The organisation that an admission is for; no other operation has one. -/
def Operation.admissionOrg? : Operation → Option String
  | .tryAdmit c _ => some c.orgId
  | _ => none

/-- The organisation whose limit an operation looks up. -/
def Operation.looksUp? : Operation → Option String
  | .tryAdmit c _ => some c.orgId
  | .usage orgId _ => some orgId
  | _ => none

/-- The organisation whose limit an operation changes. -/
def Operation.changes? : Operation → Option String
  | .setLimit orgId _ => some orgId
  | .deleteLimit orgId => some orgId
  | _ => none

/-- What an operation gives back. -/
abbrev Operation.Result : Operation → Type
  | .tryAdmit .. => Except AdmissionError Decision
  | .release .. => Bool
  | .usage .. => Except CoordError Usage
  | .sweepOrg .. => Except CoordError Nat
  | .sweepAll _ => Except CoordError SweepReport
  | .setLimit .. => Except StoreError OrgLimit
  | .deleteLimit _ => Except StoreError Bool

namespace Admission

/-- The program of an operation. -/
def program (a : Admission) : (op : Operation) → Program op.Result
  | .tryAdmit c now => a.tryAdmitAt c now
  | .release orgId executionId => release orgId executionId
  | .usage orgId now => (a.usageAt orgId now).run
  | .sweepOrg orgId now => (a.sweepOrgAt orgId now).run
  | .sweepAll now => (a.sweepAllAt now).run
  | .setLimit orgId limit => a.cache.setLimit orgId limit
  | .deleteLimit orgId => a.cache.deleteLimit orgId

/-- All operations of admission control. -/
abbrev repertoire (a : Admission) : Repertoire := ⟨Operation, Operation.Result, a.program⟩

/-- Admission with these ceilings, and the default settings otherwise. -/
def withCeilings (orgLimit globalLimit : Nat) : Admission :=
  ⟨{ defaultOrgLimit := orgLimit, globalLimit }, .ofDefault orgLimit (.seconds 600)⟩

end Admission

end ExecutionControl
