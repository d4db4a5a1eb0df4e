import Std.Data.ExtTreeMap
import ExecutionControl.Durable.Error

/-! # The table of custom limits

    The durable rows that give an organisation a ceiling of its own. An organisation
    without a row has the default ceiling.
-/

namespace ExecutionControl

/-- The custom ceiling of one organisation. -/
structure OrgLimit where
  orgId : String
  /-- How many executions of the organisation may run at once. -/
  concurrentRequestLimit : Nat
  modifiedAt : Timestamp
  deriving DecidableEq

/-- The rows by organisation. -/
structure LimitTable where
  rows : Std.ExtTreeMap String OrgLimit := {}

namespace LimitTable

/-- The row of an organisation. -/
def get (t : LimitTable) (orgId : String) : Option OrgLimit := t.rows[orgId]?

/-- Write the row of an organisation. A ceiling of zero is refused. -/
def upsert (t : LimitTable) (orgId : String) (limit : Nat) (now : Timestamp) :
    Except StoreError OrgLimit × LimitTable :=
  if limit = 0 then (.error (.invalidLimit limit), t)
  else
    let row : OrgLimit := ⟨orgId, limit, now⟩
    (.ok row, ⟨t.rows.insert orgId row⟩)

/-- Remove the row of an organisation; says whether there was one. -/
def delete (t : LimitTable) (orgId : String) : Bool × LimitTable :=
  (t.rows.contains orgId, ⟨t.rows.erase orgId⟩)

/-- All rows in ascending order of their organisations. -/
def list (t : LimitTable) : List OrgLimit := t.rows.values

end LimitTable

namespace OrgLimit

/-- The largest ceiling that a signed database column of 32 bits holds. -/
def maxColumn : Nat := Nat.pow 2 31 - 1

/-- What a database refuses before it runs a query: zero, and a ceiling that its
    column cannot hold. -/
def checkColumn (limit : Nat) : Except StoreError Unit :=
  if limit = 0 ∨ limit > maxColumn then .error (.invalidLimit limit) else .ok ()

/-! ### JSON -/

/-- The fields of a row that have been read. -/
structure Draft where
  orgId : Option String := none
  limit : Option Nat := none
  modifiedAt : Option Timestamp := none

/-- The fields of a row in order. -/
def fields : List (Json.Field Draft) :=
  [{ name := "org_id", given := (·.orgId.isSome),
     read := fun d => (fun s => { d with orgId := some s }) <$> Json.readText },
   { name := "concurrent_request_limit", given := (·.limit.isSome),
     read := fun d => (fun n => { d with limit := some n }) <$> Json.readNatUpTo Text.maxWord32 },
   { name := "modified_at", given := (·.modifiedAt.isSome),
     read := fun d => (fun t => { d with modifiedAt := some t }) <$> Json.readTimestamp }]

/-- The row of a draft that has every field. -/
def Draft.finish (d : Draft) : Option OrgLimit := do
  some ⟨← d.orgId, ← d.limit, ← d.modifiedAt⟩

/-- Read a row from JSON text. -/
def reader (depth : Nat) : Json.Reader OrgLimit :=
  Json.readRecord fields false {} Draft.finish depth

end OrgLimit

end ExecutionControl
