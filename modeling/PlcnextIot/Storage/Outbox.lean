/-
  PlcnextIot.Storage.Outbox

  `storage/outbox.py`: the durable queue of telemetry batches.

  A program changes the file and the session.  Every repository call is one
  transaction; the storage reserve, the statements or the commit may fail, and
  then nothing of it is durable.  The time provider, the session clock and the
  fate of each transaction are read by call number from `OutboxEnv`: between
  two calls other threads do as they like.

  `journal` and `started` are history variables: the committed changes of the
  file, in order, and how many there were when the process began.  No function
  reads them.
-/

import PlcnextIot.Devices.Runtime
import PlcnextIot.Storage.Session
import PlcnextIot.Effect.Transaction
import PlcnextIot.Effect.Run

namespace PlcnextIot.Storage

open PlcnextIot.Python PlcnextIot.Contracts PlcnextIot.Config PlcnextIot.Reporting
open PlcnextIot.Core PlcnextIot.Effect PlcnextIot.Effect.Prog

/-! ## The environment -/

/-- A `PlatformTime` that other threads use: the state its `n`-th call here finds. -/
structure TimeProvider where
  rounding : Rounding
  inp : Inputs
  state : ℕ → PlatformTime

def TimeProvider.snapshot (p : TimeProvider) (n : ℕ) : Except TimeError TimeSnapshot :=
  letI := p.rounding
  ((PlatformTime.snapshot p.inp).run (p.state n)).1

def TimeProvider.token (p : TimeProvider) (n : ℕ) : Except TimeError TimeToken :=
  letI := p.rounding
  ((PlatformTime.token p.inp).run (p.state n)).1

def TimeProvider.require (p : TimeProvider) (n : ℕ) (token : Option TimeToken) (purpose : Purpose) :
    Except TimeError TimeSnapshot :=
  letI := p.rounding
  ((PlatformTime.require p.inp token purpose).run (p.state n)).1

/-- The configuration of a store, and what it reads of its surroundings. -/
structure OutboxEnv where
  gateway : PyStr
  maxBatches : ℕ
  maxBytes : ℕ
  maxDead : ℕ
  maxBatches_pos : 0 < maxBatches
  maxBytes_pos : 0 < maxBytes
  maxDead_pos : 0 < maxDead
  provider : Option TimeProvider
  clock : ℕ → ℚ
  starts : ℕ → Bool
  commits : ℕ → Bool
  sizes : ObjectSizes

/-- What the age scan looks at: the number of its snapshot, the snapshot and the
    session time. -/
structure Scan where
  reading : ℕ
  current : TimeSnapshot
  mono : ℚ

/-- A successful `reserve`: the chosen entry, its class, what there was to choose
    from, and the numbers of the two clock readings. -/
structure Reservation where
  entry : BatchState
  category : Category
  entries : List BatchState
  ready : List BatchState
  first : ℕ
  last : ℕ

/-- What makes a batch `DEAD`: the age scan, with the number of the reading that
    the commit guard accepted, or an acknowledgement. -/
inductive Cause where
  | aged (scan : Scan) (guard : ℕ)
  | rejected (ack : Bytes)

/-- A committed change of the table. -/
inductive Change where
  | inserted (batch : Batch) (accepted : Option ℕ)
  | attempted (r : Reservation)
  | terminated (entry : BatchState) (source : TerminalSource) (cause : Cause)
      (pruned : List BatchState)
  | stored (entry : BatchState) (ack : Bytes)
  | pruned (entry : BatchState)

structure Outbox where
  db : Db := {}
  session : OutboxSession
  opened : Bool := false
  created : Bool := false
  timeReads : ℕ := 0
  clockReads : ℕ := 0
  transactions : ℕ := 0
  journal : List Change := []
  started : ℕ := 0

abbrev OutboxM := Prog Outbox OutboxExc

/-! ## Reading the surroundings -/

/-- The number of the next call of the time provider. -/
def countTime : OutboxM ℕ := do
  let n ← gets (·.timeReads)
  modify fun s => { s with timeReads := n + 1 }
  return n

def asTime {α : Type} : Except TimeError α → Except OutboxExc α
  | .ok a => .ok a
  | .error e => .error (.time e)

def asPython {α : Type} : Except PyExc α → Except OutboxExc α
  | .ok a => .ok a
  | .error e => .error (.python e)

def timeSnapshot (p : TimeProvider) : OutboxM TimeSnapshot := do
  let n ← countTime
  Prog.result (asTime (p.snapshot n))

def timeToken (p : TimeProvider) : OutboxM TimeToken := do
  let n ← countTime
  Prog.result (asTime (p.token n))

def timeRequire (p : TimeProvider) (token : Option TimeToken) (purpose : Purpose) :
    OutboxM TimeSnapshot := do
  let n ← countTime
  Prog.result (asTime (p.require n token purpose))

/-- `self.session.clock()` -/
def sessionClock (env : OutboxEnv) : OutboxM ℚ := do
  let n ← gets (·.clockReads)
  modify fun s => { s with clockReads := n + 1 }
  return env.clock n

/-! ## State updates -/

namespace Outbox

def onSession (f : OutboxSession → OutboxSession) (s : Outbox) : Outbox :=
  { s with session := f s.session }

def onDb (f : Db → Db) (s : Outbox) : Outbox := { s with db := f s.db }

/-- Note a change that is about to be committed. -/
def note (c : Change) (s : Outbox) : Outbox := { s with journal := s.journal ++ [c] }

def account (f : Accounting → Accounting) (s : Outbox) : Outbox := s.onSession (·.account f)

/-- What a rollback takes back. -/
def rollback (old new : Outbox) : Outbox := { new with db := old.db, journal := old.journal }

end Outbox

/-- A repository call: the storage guard, then a transaction. -/
def repository {α : Type} (env : OutboxEnv) (body : OutboxM α) : OutboxM α := do
  let n ← gets (·.transactions)
  modify fun s => { s with transactions := n + 1 }
  check (env.starts n = true) (.store "Telemetry physical storage reserve exhausted")
  Prog.transaction Outbox.rollback (.store "Telemetry transaction failed")
    (Fate.ofHealth (env.commits n)) body

section Store

variable [Footprint]

/-! ## Termination and pruning -/

/-- The keys of some entries, the oldest first. -/
def oldestFirst (entries : List (PyStr × BatchState)) : List PyStr :=
  (entries.insertionSort fun a b => a.2.row.localOrder ≤ b.2.row.localOrder).map (·.1)

/-- The oldest of some entries, as many as exceed the limit. -/
def exceeding (env : OutboxEnv) (entries : List (PyStr × BatchState)) : List PyStr :=
  (oldestFirst entries).take (entries.length - env.maxDead)

/-- The entries that would be `DEAD` with `key`. -/
def deadWith (s : OutboxSession) (key : PyStr) : List (PyStr × BatchState) :=
  s.entries.items.filter fun kv => kv.1 = key ∨ kv.2.row.state = .dead

/-- `DELETE` an entry that was `DEAD`. -/
def pruneOne (env : OutboxEnv) (key : PyStr) : OutboxM Unit := do
  match (← get).session.entries.get? key with
  | none => raise (.python .keyError)
  | some e => do
    -- The file first: if the transaction fails, the entry stays.
    repository env do
      modify (·.onDb fun db => (db.deleteBatch key).countPruned 1)
      modify (·.note (.pruned e))
    modify (·.account fun a => a.removed e.facts false true)
    modify (·.onSession (·.remove key))

/-- `_prune` -/
def prune (env : OutboxEnv) : OutboxM Unit := do
  let dead ← gets fun s => s.session.entries.items.filter fun kv => kv.2.row.state = .dead
  each (exceeding env dead) (pruneOne env)

/-- `OutboxSession.terminal` -/
def sessionTerminal (key : PyStr) (source : TerminalSource) (s : OutboxSession) : OutboxSession :=
  match s.entries.get? key with
  | none => s
  | some e =>
    -- The first source is kept.
    if e.source.isSome then s
    else
      let e' := { e with source := some source, active := false }
      { s with entries := s.entries.set key e' }.account fun a => a.terminal e'.facts source

/-- Forget an entry that a termination has pruned. -/
def dropPruned (key : PyStr) : OutboxM Unit := do
  match (← get).session.entries.get? key with
  | none => raise (.python .keyError)
  | some e => do
    modify (·.onSession (·.remove key))
    modify (·.account fun a => a.removed e.facts false true)

/-- The row of a terminated entry. -/
def BatchState.terminate (reason : PyStr) (source : TerminalSource) (e : BatchState) : BatchState :=
  { e with row := { e.row with
      state := .dead, reason := some reason, terminalSource := some source } }

/-- `_terminal`; `guard` runs before the commit and returns the cause. -/
def terminal (env : OutboxEnv) (guard : OutboxM Cause) (key reason : PyStr)
    (source : TerminalSource) : OutboxM Unit := do
  match (← get).session.entries.get? key with
  | none => raise (.python .keyError)
  | some e => do
    -- The entry counts as `DEAD` already, so that it may be pruned at once.
    let pruned ← gets fun s => exceeding env (deadWith s.session key)
    repository env do
      modify (·.onDb (·.terminal key reason pruned source))
      let cause ← guard
      modify fun s => s.note (.terminated e source cause (s.session.listed pruned))
    modify (·.onSession (·.update key (·.terminate reason source)))
    modify (·.onSession (sessionTerminal key source))
    each pruned dropPruned

/-! ## The age scan -/

/-- `7*86400*1000` -/
def maxAgeMs : ℤ := 7 * 86400 * 1000

/-- The row has trusted time of the current basis. -/
def comparable (current : TimeSnapshot) (r : Row) : Bool :=
  r.timeTrust = .hubTrusted && r.timeBasisRef = current.timeBasisRef

/-- The least age that the two time stamps allow. -/
def ageLower (current : TimeSnapshot) (r : Row) : Except PyExc ℤ :=
  match current.utcMs, current.uncertaintyMs, r.enqueuedUtcMs, r.uncertaintyMs with
  | some now, some error, some enqueued, some uncertainty =>
    .ok (max 0 (now - error - enqueued - uncertainty))
  | _, _, _, _ => .error .typeError

/-- `lower` -/
def lowerAge (current : TimeSnapshot) (r : Row) : Except PyExc ℤ :=
  if comparable current r then ageLower current r else .ok 0

/-- An entry that the scan expires. -/
def expirable (scan : Scan) (e : BatchState) (lower : ℤ) : Bool :=
  e.row.state = .pending && comparable scan.current e.row && maxAgeMs ≤ lower
    -- An attempt that may still be answered.
    && !(e.active && scan.mono < e.due)

/-- The commit guard of an expiry. -/
def expiryGuard (p : TimeProvider) (scan : Scan) (token : TimeToken) : OutboxM Cause := do
  let reading ← gets (·.timeReads)
  let _ ← timeRequire p (some token) .enqueue
  return .aged scan reading

/-- The scan of one entry. -/
def expireEntry (env : OutboxEnv) (p : TimeProvider) (scan : Scan) (key : PyStr) : OutboxM Unit := do
  match (← get).session.entries.get? key with
  -- An expiry of this scan has pruned the entry.
  | none => pure ()
  | some e => do
    let lower ← Prog.result (asPython (lowerAge scan.current e.row))
    if expirable scan e lower then do
      let token ← timeToken p
      terminal env (expiryGuard p scan token) key (py "EXPIRED_DATA") .ageExpired
    else pure ()

/-- `_expire` with a snapshot of valid time. -/
def expireAll (env : OutboxEnv) (p : TimeProvider) (reading : ℕ) (current : TimeSnapshot) :
    OutboxM Unit := do
  let mono ← sessionClock env
  let keys ← gets (·.session.entries.keys)
  each keys (expireEntry env p ⟨reading, current, mono⟩)
  prune env

/-- `_expire` -/
def expire (env : OutboxEnv) : OutboxM Unit :=
  match env.provider with
  | none => pure ()
  | some p => do
    let reading ← gets (·.timeReads)
    let current ← timeSnapshot p
    if current.timeValid then expireAll env p reading current else pure ()

/-! ## `enqueue` -/

/-- `dict(events=..., capture_boot=...)` -/
structure Association where
  events : List ℤ := []
  captureBoot : Option PyStr := none
  deriving DecidableEq, Repr

/-- A number of a message. -/
def numberOf : Json → Except PyExc PyNum
  | .int n => .ok (.int n)
  | .float q => .ok (.float q)
  | .negZero => .ok (.float 0)
  | _ => .error .typeError

/-- The message id and the header time of a payload. -/
def readBatch (payload : Bytes) : Except PyExc (PyStr × PyNum) :=
  match decodeMessage payload with
  | none => .error .jsonDecodeError
  | some wire => do return (← strItem wire "messageId", ← numberOf (← item wire "timestamp"))

/-- `validate_message('data', ...)` finds nothing. -/
def validData [JsonSchema] (env : OutboxEnv) (payload : Bytes) : Except PyExc Bool :=
  (validateMessage .data payload env.gateway).map (·.isEmpty)

/-- `hashlib.sha256(payload).hexdigest()` -/
def digest (payload : Bytes) : PyStr := sha256 payload

/-- The row of a new batch; `current` is what the gate returned. -/
def newRow (key : PyStr) (stamp : PyNum) (payload : Bytes) (now : Option PyNum) (order : ℤ)
    (current : Option TimeSnapshot) : Row :=
  let trusted := current.filter (·.timeValid)
  { messageId := key, hash := digest payload, created := now.getD (.int 0), attempts := 0
    nextDue := .int 0, state := .pending, reason := none, localOrder := order
    enqueuedUtcMs := trusted.bind (·.utcMs), uncertaintyMs := trusted.bind (·.uncertaintyMs)
    timeTrust := if trusted.isSome then .hubTrusted else .systemUnverified
    timeBasisRef := trusted.bind (·.timeBasisRef), enqueueBootId := current.map (·.bootId)
    clockRevision := current.map (·.clockRevision), terminalSource := none
    size := payload.length, wireTimestamp := stamp }

/-- The stamp of the reading that the commit guard accepted. -/
def BatchColumns.restamp (current : TimeSnapshot) (c : BatchColumns) : BatchColumns :=
  { c with enqueuedUtcMs := current.utcMs, uncertaintyMs := current.uncertaintyMs }

def Row.restamp (current : TimeSnapshot) (r : Row) : Row :=
  { r with toBatchColumns := r.toBatchColumns.restamp current }

/-- The staged entry refers to the row itself when this call has staged it. -/
def restampStaged (fresh : Bool) (key : PyStr) (row : Row) (s : OutboxSession) : OutboxSession :=
  match s.staged.get? key with
  | some e => if fresh then { s with staged := s.staged.set key { e with row } } else s
  | none => s

/-- `accepted`: the commit guard, and the stamp of a trusted row. -/
def accept (p : TimeProvider) (token : Option TimeToken) (fresh : Bool) (row : Row) :
    OutboxM (Row × Option ℕ) := do
  let reading ← gets (·.timeReads)
  let current ← timeRequire p token .enqueue
  if row.timeTrust = .hubTrusted then do
    -- A trusted row takes this reading, and not that of the gate.
    let row := row.restamp current
    modify (·.onSession (restampStaged fresh row.messageId row))
    modify (·.onDb (·.updateBatch row.messageId (·.restamp current)))
    let db ← Prog.result (rememberTime (← get).db row.toBatchColumns)
    modify (·.onDb fun _ => db)
    return (row, some reading)
  else return (row, some reading)

/-- `insert`, which returns the row as it was committed. -/
def insert (env : OutboxEnv) (token : Option TimeToken) (fresh : Bool) (row : Row)
    (payload : Bytes) : OutboxM Row :=
  repository env do
    match (← get).db.insertBatch { row with payload } with
    -- The id or the order is in the table.
    | none => raise (.store "Telemetry transaction failed")
    | some db => do
      modify (·.onDb fun _ => db.setNextOrder (row.localOrder + 1))
      let (row, accepted) ← match env.provider with
        | none => pure (row, none)
        | some p => accept p token fresh row
      modify (·.note (.inserted { row with payload } accepted))
      return row

/-- `enqueueRejectedAttemptsTotal` -/
def countRejected : OutboxM Unit :=
  modify (·.account fun a => a.add .enqueueRejectedAttempts 1)

/-- The table has no room for the payload. -/
def full (env : OutboxEnv) (payload : Bytes) (s : Outbox) : Bool :=
  env.maxBatches ≤ s.session.entries.items.length
    || env.maxBytes < s.session.totalSize + payload.length

/-- The class of a batch with these events. -/
def categoryOf (events : List ℤ) (watermark : ℤ) : Category :=
  match events.max? with
  | some last => if last ≤ watermark then .history else .new
  | none => .new

/-- An unsigned 64-bit array holds the events. -/
def fitsArray (events : List ℤ) : Bool := events.all fun n => 0 ≤ n && n < 2 ^ 64

/-- Insert a staged batch and take it over. -/
def commitStaged (env : OutboxEnv) (token : Option TimeToken) (fresh : Bool) (row : Row)
    (payload : Bytes) (entry : BatchState) : OutboxM Bool := do
  let row ← attempt (insert env token fresh row payload) fun e => do countRejected; raise e
  let entry := { entry with row }
  modify (·.onSession fun s =>
    { s with staged := s.staged.erase row.messageId
             entries := s.entries.set row.messageId entry })
  modify (·.account fun a => a.committed entry.facts)
  return true

/-- Stage a batch. -/
def stageBatch (env : OutboxEnv) (row : Row) (association : Association) :
    OutboxM (Option (BatchState × Bool)) := do
  let s ← gets (·.session)
  let fresh := (s.known? row.messageId).isNone
  check (fresh = true → fitsArray association.events = true) .overflow
  let staged := s.stage env.sizes row.messageId
    { row, category := categoryOf association.events s.watermark
      events := association.events, captureBoot := association.captureBoot }
  modify (·.onSession fun _ => staged.2)
  return staged.1.map fun e => (e, fresh)

/-- The local order of the next batch. -/
def nextOrder : OutboxM ℤ := do
  let order ← gets (·.db.info.nextOrder)
  check (1 ≤ order ∧ order < maxSafe) (.format "Outbox local order exhausted")
  return order

/-- The part of `enqueue` behind the quotas. -/
def admitBatch (env : OutboxEnv) (key : PyStr) (stamp : PyNum) (payload : Bytes) (now : Option PyNum)
    (association : Association) (token : Option TimeToken) (current : Option TimeSnapshot) :
    OutboxM Bool := do
  let order ← nextOrder
  let row := newRow key stamp payload now order current
  match ← stageBatch env row association with
  | none => do countRejected; return false
  | some (entry, fresh) => commitStaged env token fresh row payload entry

/-- A batch that does not fit is counted and refused. -/
def refuseFull (env : OutboxEnv) : OutboxM Bool := do
  countRejected
  repository env (modify (·.onDb (·.countDropped)))
  return false

/-- The time gate, if the store has a provider. -/
def gate (env : OutboxEnv) (token : Option TimeToken) (purpose : Purpose) :
    OutboxM (Option TimeSnapshot) :=
  match env.provider with
  | none => pure none
  | some p => do return some (← timeRequire p token purpose)

/-- The store is open. -/
def requireOpen : OutboxM Unit := do check ((← get).opened = true) .closed

def enqueue [JsonSchema] (env : OutboxEnv) (payload : Bytes) (now : Option PyNum)
    (association : Association) (token : Option TimeToken) : OutboxM Bool := do
  requireOpen
  let current ← gate env token .enqueue
  let valid ← Prog.result (asPython (validData env payload))
  check (valid = true) (.value "Invalid telemetry batch")
  let (key, stamp) ← Prog.result (asPython (readBatch payload))
  match (← get).session.entries.get? key with
  -- A known batch is answered before any quota is looked at.
  | some _ => do
    check ((← get).db.payload key = some payload) (.value "Batch identity conflict")
    return true
  | none => do
    -- What the scan prunes makes room.
    expire env
    if full env payload (← get) then refuseFull env
    else admitBatch env key stamp payload now association token current

/-! ## `reserve` -/

/-- Drop the sends that are a second old. -/
def purgeRate (mono : ℚ) (s : OutboxSession) : OutboxSession :=
  { s with rate := s.rate.dropWhile fun sent => 1000 ≤ mono - sent.1 }

/-- Attempts whose deadline has passed are no longer active. -/
def deactivate (mono : ℚ) (s : OutboxSession) : OutboxSession :=
  let idle := fun e : BatchState =>
    if e.active ∧ e.due ≤ mono then { e with active := false } else e
  { s with entries := OutboxSession.mapValues idle s.entries }

/-- Five minutes of header time ahead of the clock. -/
def maxLeadMs : ℤ := 300000

/-- A batch that only maintenance can send: of another basis, or from the future. -/
def obstructed (current : TimeSnapshot) (r : Row) : Except PyExc Bool :=
  if r.timeTrust = .hubTrusted ∧ r.timeBasisRef ≠ current.timeBasisRef then .ok true
  else
    match current.utcMs, current.uncertaintyMs with
    | some utc, some error => .ok (utc + error + maxLeadMs < Devices.PyNum.value r.wireTimestamp)
    | _, _ => .error .typeError

/-- The provider is in platform mode. -/
def OutboxEnv.platform (env : OutboxEnv) (n : ℕ) : Bool :=
  match env.provider with
  | none => false
  | some p => (p.state n).platform

/-- An idle entry whose retry is due. -/
def BatchState.ready (mono : ℚ) (e : BatchState) : Bool :=
  e.row.state = .pending && !e.active && e.due ≤ mono

/-- A ready entry may be sent now. -/
def sendable (env : OutboxEnv) (token : Option TimeToken) (e : BatchState) : OutboxM Bool := do
  match env.provider with
  | none => return true
  | some p =>
    if (p.state (← get).timeReads).platform then do
      let current ← timeRequire p token .send
      let blocked ← Prog.result (asPython (obstructed current e.row))
      return !blocked
    -- System time is not compared with header times.
    else return true

/-- The eligible ones of some entries. -/
def eligible (env : OutboxEnv) (token : Option TimeToken) (mono : ℚ) :
    List BatchState → OutboxM (List BatchState)
  | [] => pure []
  | e :: rest =>
    if e.ready mono then do
      let ok ← sendable env token e
      let more ← eligible env token mono rest
      return if ok then e :: more else more
    else eligible env token mono rest

/-- The active entries of a class. -/
def activeOf (entries : List BatchState) (c : Category) : ℕ :=
  entries.countP fun e => e.active && e.category == c

/-- The eligible entries of a class, none of a class with seven active ones. -/
def candidates (entries ready : List BatchState) (c : Category) : List BatchState :=
  if 7 ≤ activeOf entries c then [] else ready.filter (·.category = c)

def Category.other : Category → Category
  | .new => .history
  | .history => .new

/-- The class that goes first, if it has a candidate, or else the other one. -/
def pickCategory (preferNew : Bool) (entries ready : List BatchState) : Category :=
  let first : Category := if preferNew then .new else .history
  if (candidates entries ready first).isEmpty then Category.other first else first

/-- The entry of least local order, the first one of several. -/
def leastOrder : List BatchState → Option BatchState
  | [] => none
  | e :: rest =>
    match leastOrder rest with
    | none => some e
    | some f => if f.row.localOrder < e.row.localOrder then some f else some e

/-- The stored payload of an entry, checked. -/
def storedPayload [JsonSchema] (env : OutboxEnv) (e : BatchState) : OutboxM (Option Bytes) := do
  match (← get).db.payload e.row.messageId with
  | none => return none
  | some payload =>
    if digest payload = e.row.hash then do
      let valid ← Prog.result (asPython (validData env payload))
      return if valid then some payload else none
    else return none

/-- The bookkeeping of an attempt. -/
def BatchState.sent (mono : ℚ) (attempts : ℤ) (e : BatchState) : BatchState :=
  { e with
    row := { e.row with attempts }
    previousSent := e.everSent, due := mono + (if attempts = 1 then 30000 else 60000)
    active := true, everSent := true }

/-- The bookkeeping of a reservation. -/
def charged (mono : ℚ) (size : ℕ) (c : Category) (s : OutboxSession) : OutboxSession :=
  { s with nextSend := mono + 250, rate := s.rate ++ [(mono, size)], preferNew := c ≠ .new }

/-- 512 KiB within a second. -/
def maxRateBytes : ℕ := 512 * 1024

/-- The count after one more attempt. -/
def BatchState.nextAttempt (e : BatchState) : ℤ := saturate (e.row.attempts + 1)

/-- Commit an attempt of the chosen entry. -/
def attemptSend (env : OutboxEnv) (token : Option TimeToken) (choice : ℕ → Reservation)
    (payload : Bytes) : OutboxM (Option Bytes) := do
  let r := choice (← get).clockReads
  let attempts := r.entry.nextAttempt
  repository env do
    modify (·.onDb (·.updateBatch r.entry.row.messageId fun c =>
      { c with attempts := attempts, nextDue := .int 0 }))
    let _ ← gate env token .send
    modify (·.note (.attempted r))
  -- The window of the attempt runs from a reading behind the commit.
  let mono ← sessionClock env
  modify (·.onSession (·.update r.entry.row.messageId (·.sent mono attempts)))
  modify (·.onSession (charged mono payload.length r.category))
  return some payload

/-- Send the chosen entry, unless the bytes of the second do not allow it. -/
def sendChosen [JsonSchema] (env : OutboxEnv) (token : Option TimeToken) (e : BatchState)
    (choice : ℕ → Reservation) : OutboxM (Option Bytes) := do
  match ← storedPayload env e with
  | none => do
    modify (·.account (·.incomplete false false))
    raise (.format "Stored telemetry batch is corrupt")
  | some payload =>
    -- The batch waits until bytes of the last second are gone.
    if maxRateBytes < ((← get).session.rate.map (·.2)).sum + payload.length then return none
    else attemptSend env token choice payload

/-- Choose among the entries and send; `first` is the number of the reading `mono`. -/
def select [JsonSchema] (env : OutboxEnv) (token : Option TimeToken) (first : ℕ) (mono : ℚ) :
    OutboxM (Option Bytes) := do
  let entries ← gets (·.session.entries.values)
  let ready ← eligible env token mono entries
  let c := pickCategory (← get).session.preferNew entries ready
  match leastOrder (candidates entries ready c) with
  | none => return none
  | some e => sendChosen env token e fun last => ⟨e, c, entries, ready, first, last⟩

/-- The rate or the interval does not allow a send. -/
def limited (mono : ℚ) (s : OutboxSession) : Bool := mono < s.nextSend || 4 ≤ s.rate.length

/-- Eight attempts are active. -/
def saturated (s : OutboxSession) : Bool := 8 ≤ s.entries.values.countP (·.active)

def reserve [JsonSchema] (env : OutboxEnv) (token : Option TimeToken) : OutboxM (Option Bytes) := do
  requireOpen
  let _ ← gate env token .send
  let first ← gets (·.clockReads)
  let mono ← sessionClock env
  expire env
  -- `mono` was read before the scan.
  modify (·.onSession (purgeRate mono))
  if limited mono (← get).session then return none
  else do
    modify (·.onSession (deactivate mono))
    if saturated (← get).session then return none
    else select env token first mono

/-- `submission_failed` -/
def submissionFailed (messageId : PyStr) : OutboxM Unit :=
  modify (·.onSession (·.update messageId fun e =>
    if e.row.state = .pending then { e with everSent := e.previousSent, active := false } else e))

/-! ## `acknowledge` -/

inductive AckStatus where
  | stored
  | rejected (codes : List PyStr)
  deriving DecidableEq, Repr

/-- The codes of the errors, each once, in order. -/
def errorCodes (errors : List Json) : Except PyExc (List PyStr) :=
  (errors.mapM fun e => strItem e "code").map fun codes =>
    codes.foldl (fun seen c => if c ∈ seen then seen else seen ++ [c]) []

/-- The message id and the status of an acknowledgement. -/
def readAck (payload : Bytes) : Except PyExc (PyStr × AckStatus) :=
  match decodeMessage payload with
  | none => .error .jsonDecodeError
  | some ack => do
    let key ← strItem ack "messageId"
    let status ← strItem ack "status"
    if status = py "STORED" then return (key, .stored)
    else return (key, .rejected (← errorCodes (← listItem ack "errors")))

def retryable (codes : List PyStr) : Bool :=
  !codes.isEmpty && codes.all fun c =>
    [py "UNKNOWN_CONFIG_VERSION", py "RESOURCE_LIMIT", py "STORAGE_ERROR"].contains c

/-- A `DEAD` batch that is not waiting for a late acknowledgement. -/
def BatchState.settled (e : BatchState) : Bool :=
  e.row.state = .dead && (e.source ≠ some .ageExpired || !e.everSent)

/-- `STORED`: the batch leaves the table. -/
def acknowledgeStored (env : OutboxEnv) (ack : Bytes) (key : PyStr) (e : BatchState) :
    OutboxM Bool :=
  if e.settled then return false
  else do
    repository env do
      modify (·.onDb (·.deleteBatch key))
      modify (·.note (.stored e ack))
    modify (·.account fun a => a.removed e.facts true false)
    modify (·.onSession (·.remove key))
    return true

/-- `','.join(codes)` -/
def joinCodes (codes : List PyStr) : PyStr := List.intercalate (py ",") codes

/-- `REJECTED`: retry later, or isolate the batch. -/
def acknowledgeRejected (env : OutboxEnv) (ack : Bytes) (key : PyStr) (e : BatchState)
    (codes : List PyStr) : OutboxM Bool :=
  if e.row.state = .dead then return false
  else if retryable codes then do
    let mono ← sessionClock env
    modify (·.onSession (·.update key fun e => { e with due := mono + 60000, active := false }))
    return true
  else do
    terminal env (pure (.rejected ack)) key (joinCodes codes) .permanentReject
    return true

/-- An acknowledgement of an entry that was attempted. -/
def acknowledgeEntry [JsonSchema] (env : OutboxEnv) (ack : Bytes) (key : PyStr)
    (status : AckStatus) (e : BatchState) : OutboxM Bool := do
  match ← storedPayload env e with
  | none => raise (.format "Stored ACK association is corrupt")
  | some _ =>
    match status with
    | .stored => acknowledgeStored env ack key e
    | .rejected codes => acknowledgeRejected env ack key e codes

/-- An acknowledgement that conforms. -/
def acknowledgeValid [JsonSchema] (env : OutboxEnv) (payload : Bytes) : OutboxM Bool := do
  let (key, status) ← Prog.result (asPython (readAck payload))
  match (← get).session.entries.get? key with
  -- An unknown batch, or one that was never sent.
  | none => return false
  | some e => if e.row.attempts = 0 then return false else acknowledgeEntry env payload key status e

def acknowledge [JsonSchema] (env : OutboxEnv) (payload : Bytes) : OutboxM Bool := do
  requireOpen
  let issues ← Prog.result (asPython (validateMessage .dataAck payload env.gateway))
  if issues = [] then acknowledgeValid env payload else return false

/-! ## Opening -/

/-- A safe integer. -/
def safe (n : Option ℤ) (limit : ℤ) : Bool := n.any fun n => 0 ≤ n && n ≤ limit

/-- The time columns of a trusted row are well formed. -/
def trustedMetadata (r : Row) : Bool :=
  safe r.enqueuedUtcMs maxSafe && safe r.uncertaintyMs 999 && r.timeBasisRef.any isId
    && r.enqueueBootId.any isId && safe r.clockRevision maxSafe

/-- `bounded_rows`, for one row. -/
def checkRow [JsonSchema] (env : OutboxEnv) (b : Batch) : OutboxM Row := do
  check (1 ≤ b.localOrder ∧ b.localOrder < maxSafe) (.format "Stored local order is corrupt")
  check (digest b.payload = b.hash) (.format "Stored telemetry batch is corrupt")
  let valid ← Prog.result (asPython (validData env b.payload))
  check (valid = true) (.format "Stored telemetry batch is corrupt")
  let (key, stamp) ← Prog.result (asPython (readBatch b.payload))
  check (key = b.messageId) (.format "Stored batch identity is corrupt")
  let row := b.row stamp
  check (row.timeTrust = .hubTrusted → trustedMetadata row = true)
    (.format "Stored trusted time metadata is corrupt")
  return row

/-- An entry for a row that this process has not seen. -/
def BatchState.restored (mono : ℚ) (row : Row) (e : BatchState) : BatchState :=
  { e with
    due := mono + (if row.attempts = 0 then 0 else 60000), everSent := 0 < row.attempts
    source := row.terminalSource.orElse fun _ => e.source }

/-- `attach`, for one row. -/
def attachRow (env : OutboxEnv) (row : Row) : OutboxM Unit := do
  match (← get).session.entries.get? row.messageId with
  -- Opened again by this process: the schedule of the entry is kept.
  | some e => do
    check (e.row.hash = row.hash) (.format "Outbox process identity conflict")
    modify (·.onSession (·.update row.messageId fun e => { e with row }))
  -- A row of an earlier process, of which only the attempts are known.
  | none => do
    let staged ← gets fun s => s.session.stage env.sizes row.messageId { row }
    match staged.1 with
    | none => raise (.store "Outbox metadata quota exceeded while opening")
    | some e => do
      let mono ← sessionClock env
      let entry := e.restored mono row
      modify (·.onSession fun s =>
        { s with staged := s.staged.erase row.messageId
                 entries := s.entries.set row.messageId entry })
      modify (·.account fun a => a.restored entry.facts)

/-- The rows read so far, as `bounded_rows` counts them. -/
def attachRows [JsonSchema] (env : OutboxEnv) : ℕ → ℕ → List Batch → OutboxM Unit
  | _, _, [] => pure ()
  | count, size, b :: rest => do
    let row ← checkRow env b
    check (count + 1 ≤ env.maxBatches ∧ size + row.size ≤ env.maxBytes)
      (.format "Existing Outbox exceeds configured quota")
    attachRow env row
    attachRows env (count + 1) (size + row.size) rest

/-- `rows()`: in their local order. -/
def Db.rows (db : Db) : List Batch :=
  db.batches.insertionSort fun a b => a.localOrder ≤ b.localOrder

/-- `recovery()`, when the file was there before. -/
def noteRecovery (existed : Bool) : OutboxM Unit :=
  if existed then modify (·.account (·.recovery)) else pure ()

/-- `OutboxStore(...)`, on the session of this process. -/
def openStore [JsonSchema] (env : OutboxEnv) : OutboxM Unit := do
  let existed ← gets (·.created)
  modify fun s => { s with opened := false, created := true }
  noteRecovery existed
  repository env (pure ())
  let rows ← gets (·.db.rows)
  attachRows env 0 0 rows
  let keys ← gets (·.session.entries.keys)
  -- Entries of this process must still have their rows.
  check (keys.all fun key => rows.any (·.messageId = key))
    (.format "Outbox records disappeared within the current process")
  check ((← get).session.deadCount ≤ env.maxDead) (.format "Existing Outbox exceeds DEAD quota")
  modify fun s => { s with opened := true }

/-! ## Runs -/

inductive OutboxOp where
  | enqueue (payload : Bytes) (now : Option PyNum) (association : Association)
      (token : Option TimeToken)
  | reserve (token : Option TimeToken)
  | submissionFailed (messageId : PyStr)
  | acknowledge (payload : Bytes)
  | openGate (watermark : ℤ)
  | resetInflight
  | close
  /-- Open the file again, in this process. -/
  | reopen
  /-- Open the file in a new process. -/
  | restart (maxBytes : ℤ) (maxRecords : ℕ) (accounting : Option (Accounting × ℤ))

inductive OutboxOutcome where
  | done
  | flag (b : Bool)
  | payload (p : Option Bytes)
  deriving DecidableEq, Repr

/-- A new process starts with an empty session. -/
def restartIn [JsonSchema] (env : OutboxEnv) (session : OutboxSession) : OutboxM Unit := do
  modify fun s => { s with session, opened := false, started := s.journal.length }
  openStore env

def OutboxOp.exec [JsonSchema] (env : OutboxEnv) : OutboxOp → OutboxM OutboxOutcome
  | .enqueue payload now association token => do
    return .flag (← Storage.enqueue env payload now association token)
  | .reserve token => do return .payload (← Storage.reserve env token)
  | .submissionFailed messageId => do Storage.submissionFailed messageId; return .done
  | .acknowledge payload => do return .flag (← Storage.acknowledge env payload)
  | .openGate watermark => do modify (·.onSession (·.openGate watermark)); return .done
  | .resetInflight => return .done
  | .close => do modify fun s => { s with opened := false }; return .done
  | .reopen => do openStore env; return .done
  | .restart maxBytes maxRecords accounting => do
    restartIn env (.create maxBytes maxRecords accounting)
    return .done

end Store

end PlcnextIot.Storage
