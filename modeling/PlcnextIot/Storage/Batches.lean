/-
  PlcnextIot.Storage.Batches

  `storage/batch_repository.py` and the tables of `storage/database.py`: the
  rows of the Outbox and the SQL statements on them.

  The file is a value of `Db`; a statement is a function on it, and a violated
  constraint is `none`.  `created` and `next_due` are REAL columns: what was
  stored as an integer is read back as a float.
-/

import PlcnextIot.Config.Models
import PlcnextIot.Core.PlatformTime
import PlcnextIot.Reporting.Accounting

namespace PlcnextIot.Storage

open PlcnextIot.Python PlcnextIot.Config PlcnextIot.Reporting

/-- `state` -/
inductive BatchPhase where
  | pending
  | dead
  deriving DecidableEq, Repr

inductive TimeTrust where
  | legacyUnverified
  | systemUnverified
  | hubTrusted
  deriving DecidableEq, Repr

/-- The columns of `batches` besides the payload. -/
structure BatchColumns where
  messageId : PyStr
  hash : PyStr
  created : PyNum
  attempts : ℤ
  nextDue : PyNum
  state : BatchPhase
  reason : Option PyStr
  localOrder : ℤ
  enqueuedUtcMs : Option ℤ
  uncertaintyMs : Option ℤ
  timeTrust : TimeTrust
  timeBasisRef : Option PyStr
  enqueueBootId : Option PyStr
  clockRevision : Option ℤ
  terminalSource : Option TerminalSource
  deriving DecidableEq, Repr

/-- A row of `batches`. -/
structure Batch extends BatchColumns where
  payload : Bytes
  deriving DecidableEq, Repr

/-- The row of a batch as the process keeps it. -/
structure Row extends BatchColumns where
  size : ℕ
  wireTimestamp : PyNum
  deriving DecidableEq, Repr

/-- The row of `meta`. -/
structure MetaRow where
  dropped : ℤ := 0
  deadPruned : ℤ := 0
  nextOrder : ℤ := 1
  trustedBasisRef : Option PyStr := none
  trustedUtcHighWaterMs : Option ℤ := none
  deriving DecidableEq, Repr

/-- The content of the database file. -/
structure Db where
  info : MetaRow := {}
  batches : List Batch := []
  deriving DecidableEq, Repr

/-- What the Outbox raises. -/
inductive OutboxExc where
  | store (message : String)
  | format (message : String)
  | value (message : String)
  | time (e : Core.TimeError)
  | python (e : Contracts.PyExc)
  | overflow
  | closed
  deriving DecidableEq, Repr

/-- `MAX_SAFE` bounds every counter. -/
def saturate (n : ℤ) : ℤ := min n Contracts.maxSafe

namespace Db

/-- `SELECT ... FROM batches WHERE message_id=?` -/
def batch? (db : Db) (key : PyStr) : Option Batch := db.batches.find? (·.messageId = key)

/-- `SELECT payload FROM batches WHERE message_id=?` -/
def payload (db : Db) (key : PyStr) : Option Bytes := (db.batch? key).map (·.payload)

/-- `INSERT INTO batches`: the message id and the local order are unique. -/
def insertBatch (db : Db) (b : Batch) : Option Db :=
  if db.batches.all fun r => r.messageId ≠ b.messageId ∧ r.localOrder ≠ b.localOrder then
    some { db with batches := db.batches ++ [b] }
  else none

/-- `UPDATE batches SET ... WHERE message_id=?` -/
def updateBatch (db : Db) (key : PyStr) (f : BatchColumns → BatchColumns) : Db :=
  { db with batches := db.batches.map fun b =>
    if b.messageId = key then { b with toBatchColumns := f b.toBatchColumns } else b }

/-- `DELETE FROM batches WHERE message_id=?` -/
def deleteBatch (db : Db) (key : PyStr) : Db :=
  { db with batches := db.batches.filter (·.messageId ≠ key) }

/-- `DELETE` for every key of a list. -/
def deleteBatches (db : Db) (keys : List PyStr) : Db := keys.foldl deleteBatch db

/-- `UPDATE meta SET next_order=?` -/
def setNextOrder (db : Db) (n : ℤ) : Db := { db with info := { db.info with nextOrder := n } }

/-- `UPDATE meta SET trusted_basis_ref=?,trusted_utc_high_water_ms=?` -/
def setBoundary (db : Db) (basis : Option PyStr) (floor : ℤ) : Db :=
  { db with info := { db.info with trustedBasisRef := basis, trustedUtcHighWaterMs := some floor } }

/-- `UPDATE meta SET dead_pruned=min(dead_pruned+?, ...)` -/
def countPruned (db : Db) (n : ℕ) : Db :=
  { db with info := { db.info with deadPruned := saturate (db.info.deadPruned + n) } }

/-- `UPDATE meta SET dropped=min(dropped+1, ...)` -/
def countDropped (db : Db) : Db :=
  { db with info := { db.info with dropped := saturate (db.info.dropped + 1) } }

end Db

/-- A REAL column. -/
def asReal : PyNum → PyNum
  | .int n => .float n
  | .float q => .float q

/-- What `rows()` reads of a batch; its callers add the header time. -/
def Batch.row (b : Batch) (wireTimestamp : PyNum) : Row :=
  { b.toBatchColumns with
    created := asReal b.created, nextDue := asReal b.nextDue
    size := b.payload.length, wireTimestamp }

/-! ## The statements of a row -/

/-- `_remember_time`: the floor of a trusted row, under its basis. -/
def rememberTime (db : Db) (r : BatchColumns) : Except OutboxExc Db :=
  if r.timeTrust = .hubTrusted then
    if db.info.trustedBasisRef.isSome ∧ db.info.trustedBasisRef ≠ r.timeBasisRef then
      .error (.store "Outbox time basis requires explicit maintenance")
    else
      match r.enqueuedUtcMs, r.uncertaintyMs with
      | some utc, some error =>
        .ok (db.setBoundary r.timeBasisRef
          (max (max 0 (utc - error)) (db.info.trustedUtcHighWaterMs.getD 0)))
      | _, _ => .error (.python .typeError)
  else .ok db

/-- `terminal_with_source`, without its guard. -/
def Db.terminal (db : Db) (key reason : PyStr) (pruned : List PyStr) (source : TerminalSource) : Db :=
  let db := db.updateBatch key fun c =>
    { c with state := .dead, reason := some reason, terminalSource := some source }
  let db := db.deleteBatches pruned
  if pruned.isEmpty then db else db.countPruned pruned.length

/-! ## Retained bytes -/

/-- The objects a row refers to. -/
inductive PyObject where
  | none
  | int (n : ℤ)
  | float (q : ℚ)
  | str (s : PyStr)
  deriving DecidableEq, Repr

/-- `sys.getsizeof`, for a row dictionary with its keys and for its values. -/
structure ObjectSizes where
  row : ℕ
  none : ℕ
  int : ℤ → ℕ
  float : ℕ
  str : PyStr → ℕ

/-- `None` and the small integers exist once. -/
def PyObject.shared : PyObject → Bool
  | .none => true
  | .int n => -5 ≤ n && n ≤ 256
  | _ => false

def ObjectSizes.of (sizes : ObjectSizes) : PyObject → ℕ
  | .none => sizes.none
  | .int n => sizes.int n
  | .float _ => sizes.float
  | .str s => sizes.str s

/-- Each distinct object once. -/
def distinct (objects : List PyObject) : List PyObject :=
  (objects.filter PyObject.shared).dedup ++ objects.filter fun o => !o.shared

def optional {α : Type} (f : α → PyObject) : Option α → PyObject
  | some a => f a
  | none => .none

def numObject : PyNum → PyObject
  | .int n => .int n
  | .float q => .float q

def BatchPhase.text : BatchPhase → PyStr
  | .pending => py "PENDING"
  | .dead => py "DEAD"

def TimeTrust.text : TimeTrust → PyStr
  | .legacyUnverified => py "LEGACY_UNVERIFIED"
  | .systemUnverified => py "SYSTEM_UNVERIFIED"
  | .hubTrusted => py "HUB_TRUSTED"

def sourceText : TerminalSource → PyStr
  | .ageExpired => py "AGE_EXPIRED"
  | .permanentReject => py "PERMANENT_REJECT"

/-- The values of `dict(row, reason=None)`. -/
def Row.objects (r : Row) : List PyObject :=
  [.str r.messageId, .str r.hash, numObject r.created, .int r.size, .int r.attempts,
    numObject r.nextDue, .str r.state.text, .none, .int r.localOrder,
    optional .int r.enqueuedUtcMs, optional .int r.uncertaintyMs, .str r.timeTrust.text,
    optional .str r.timeBasisRef, optional .str r.enqueueBootId, optional .int r.clockRevision,
    optional (fun s => .str (sourceText s)) r.terminalSource, numObject r.wireTimestamp]

/-- `retained_bytes` of the row with its reason left out. -/
def Row.retainedBytes (sizes : ObjectSizes) (r : Row) : ℕ :=
  sizes.row + ((distinct r.objects).map sizes.of).sum

end PlcnextIot.Storage
