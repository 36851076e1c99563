/-
  PlcnextIot.Config.Store

  `config/store.py`: the durable preparation and commit boundary.

  The database file is a value of `Tables`; a statement is a function on it and
  a violated constraint is an error, as in SQLite.  A `Session` is an open
  store.  Each public operation is one transaction, whose `Fate` the caller of
  the model chooses, so a failing database, a commit that raises although it is
  durable, and a crash on either side of a commit are all runs of the model.

  What the source asks of its environment is a field of `StoreConfig`: an
  identity and limits that `__init__` accepts, and uuid4 tokens that are never
  drawn twice.
-/

import PlcnextIot.Config.Patch
import PlcnextIot.Effect.Transaction

namespace PlcnextIot.Config

open PlcnextIot.Python PlcnextIot.Contracts PlcnextIot.Effect PlcnextIot.Effect.Prog

/-! ## Tables -/

inductive SnapshotState where
  | prepared
  | committed
  | failed
  | interrupted
  deriving DecidableEq, Repr

inductive RequestStatus where
  | prepared
  | applied
  | failed
  | interrupted
  deriving DecidableEq, Repr

/-- A row of `snapshots`; the version is its primary key. -/
structure SnapshotRow where
  version : ℤ
  payload : PyStr
  contentHash : PyStr
  state : SnapshotState
  token : Option PyStr
  deriving DecidableEq, Repr

/-- A row of `requests`; the message id is its primary key. -/
structure RequestRow where
  messageId : PyStr
  version : ℤ
  status : RequestStatus
  commandDigest : Option PyStr
  commandKind : Option PyStr
  deriving DecidableEq, Repr

/-- The content of the database file. -/
structure Tables where
  gatewayId : PyStr
  active : Option ℤ
  previous : Option ℤ
  snapshots : List SnapshotRow
  requests : List RequestRow
  deriving DecidableEq, Repr

/-- What the store raises. -/
inductive StoreExc where
  | storeError
  | identity
  | format (message : String)
  | invalidCandidate (message : String)
  | inUse
  | sqlite
  | attributeError
  | python (e : PyExc)
  deriving DecidableEq, Repr

namespace Tables

/-- A database that was just created. -/
def empty (gatewayId : PyStr) : Tables := ⟨gatewayId, none, none, [], []⟩

/-- `SELECT * FROM snapshots WHERE version=?` -/
def snapshot? (t : Tables) (version : ℤ) : Option SnapshotRow :=
  t.snapshots.find? (·.version = version)

/-- `SELECT * FROM snapshots WHERE token=?` -/
def candidate? (t : Tables) (token : PyStr) : Option SnapshotRow :=
  t.snapshots.find? (·.token = some token)

/-- `SELECT * FROM requests WHERE message_id=?` -/
def request? (t : Tables) (messageId : PyStr) : Option RequestRow :=
  t.requests.find? (·.messageId = messageId)

/-- The first value of `_versions`: null counts as 0. -/
def activeVersion (t : Tables) : ℤ := t.active.getD 0

/-- No other row holds the token. -/
def tokenFree (t : Tables) (version : ℤ) (token : Option PyStr) : Bool :=
  token.isNone || t.snapshots.all fun r => r.version = version || r.token ≠ token

/-- `INSERT INTO snapshots`, with its constraints. -/
def insertSnapshot (t : Tables) (row : SnapshotRow) : Except StoreExc Tables :=
  if 0 < row.version ∧ t.snapshot? row.version = none ∧ t.tokenFree row.version row.token then
    .ok { t with snapshots := t.snapshots ++ [row] }
  else .error .storeError

/-- `UPDATE snapshots SET state=?,token=? WHERE version=?` -/
def updateSnapshot (t : Tables) (version : ℤ) (state : SnapshotState) (token : Option PyStr) :
    Except StoreExc Tables :=
  if t.tokenFree version token then
    .ok { t with snapshots := t.snapshots.map fun r =>
      if r.version = version then { r with state, token } else r }
  else .error .storeError

/-- `INSERT INTO requests ... ON CONFLICT(message_id) DO UPDATE SET status`. -/
def upsertRequest (t : Tables) (row : RequestRow) : Except StoreExc Tables :=
  if t.snapshot? row.version = none then .error .storeError
  else if t.request? row.messageId = none then .ok { t with requests := t.requests ++ [row] }
  else .ok { t with requests := t.requests.map fun r =>
    if r.messageId = row.messageId then { r with status := row.status } else r }

/-- `UPDATE requests SET status=? WHERE version=?` -/
def setStatus (t : Tables) (version : ℤ) (status : RequestStatus) : Tables :=
  { t with requests := t.requests.map fun r =>
    if r.version = version then { r with status } else r }

/-- `UPDATE snapshots SET state=? WHERE version=?` -/
def setState (t : Tables) (version : ℤ) (state : SnapshotState) : Tables :=
  { t with snapshots := t.snapshots.map fun r =>
    if r.version = version then { r with state } else r }

/-- `UPDATE metadata SET previous_version=active_version,active_version=?` -/
def activate (t : Tables) (version : ℤ) : Tables :=
  { t with previous := t.active, active := some version }

/-- The recovery of interrupted preparations. -/
def interrupt (t : Tables) : Tables :=
  { t with
    requests := t.requests.map fun r =>
      if r.status = .prepared then { r with status := .interrupted } else r
    snapshots := t.snapshots.map fun r =>
      if r.state = .prepared then { r with state := .interrupted, token := none } else r }

/-- `SUM(length(CAST(payload AS BLOB)))` -/
def payloadBytes (t : Tables) : Nat :=
  (t.snapshots.map fun r => ((utf8Encode r.payload).getD []).length).sum

end Tables

/-! ## The store object -/

/-- What `ConfigStore` is created with, and the uuid4 values it draws. -/
structure StoreConfig where
  gatewayId : PyStr
  gatewayId_valid : isId gatewayId = true
  maxSnapshots : Nat
  maxSnapshots_pos : 0 < maxSnapshots
  maxRequests : Nat
  maxRequests_pos : 0 < maxRequests
  maxPayloadBytes : Nat
  maxPayloadBytes_pos : 0 < maxPayloadBytes
  uuid : Nat → PyStr
  uuid_injective : Function.Injective uuid
  uuid_ne_nil : ∀ n, uuid n ≠ []

/-- An open store: the tables, and how many uuids were drawn. -/
structure Session where
  tables : Tables
  drawn : Nat

/-- A raise inside a transaction undoes its statements. -/
def Session.rollback (old new : Session) : Session := { new with tables := old.tables }

/-- `_transaction` -/
def transaction {α : Type} (fate : Fate) (body : Prog Session StoreExc α) :
    Prog Session StoreExc α :=
  Prog.transaction Session.rollback .storeError fate body

inductive PrepareStatus where
  | applied
  | prepared
  | rejected
  deriving DecidableEq, Repr

structure PrepareResult where
  status : PrepareStatus
  activeConfigVersion : ℤ
  token : Option PyStr := none
  code : Option PyStr := none
  issues : List Issue := []
  snapshot : Option ConfigSnapshot := none
  appliedConfigVersion : Option ℤ := none
  deriving DecidableEq, Repr

/-- `PrepareResult('REJECTED', active, code=code)` -/
def rejected (active : ℤ) (code : PyStr) : PrepareResult :=
  { status := .rejected, activeConfigVersion := active, code := some code }

/-- The rejection of a payload that fails validation. -/
def invalid (active : ℤ) (issues : List Issue) : PrepareResult :=
  { status := .rejected, activeConfigVersion := active, code := issues.head?.map (·.code), issues }

/-- `UnicodeError` covers the encoder and the decoder. -/
def isUnicode : PyExc → Bool
  | .unicodeEncodeError | .unicodeDecodeError => true
  | _ => false

variable [JsonSchema] (cfg : StoreConfig)

/-- `_decode` -/
def decode (row : SnapshotRow) : Except StoreExc ConfigSnapshot :=
  match utf8Encode row.payload with
  | none => .error (.format "Stored configuration is not valid; recovery stopped.")
  | some payload =>
    match ConfigSnapshot.parse payload cfg.gatewayId with
    | .error (.validation _) =>
      .error (.format "Stored configuration is not valid; recovery stopped.")
    | .error (.python e) =>
      if isUnicode e then .error (.format "Stored configuration is not valid; recovery stopped.")
      else .error (.python e)
    | .ok snapshot =>
      if snapshot.configVersion ≠ row.version then
        .error (.format "Stored configuration identity/content check failed.")
      else
        match snapshot.contentHash with
        | .error e => .error (.python e)
        | .ok hash =>
          if hash ≠ row.contentHash then
            .error (.format "Stored configuration identity/content check failed.")
          else .ok snapshot

/-- `load_active` -/
def loadActive (t : Tables) : Except StoreExc (Option ConfigSnapshot) :=
  if t.activeVersion = 0 then .ok none
  else
    match t.snapshot? t.activeVersion with
    | none => .error (.format "Active pointer does not reference committed configuration.")
    | some row =>
      if row.state ≠ .committed then
        .error (.format "Active pointer does not reference committed configuration.")
      else (decode cfg row).map some

/-! ## `_prepare` -/

/-- A receipt of another command holds the message id. -/
def receiptDiffers (request : RequestRow) (version : ℤ) (digest kind : Option PyStr) : Bool :=
  request.version ≠ version || request.commandKind ≠ kind || request.commandDigest ≠ digest

/-- The stored snapshot of the version has other content. -/
def contentDiffers (t : Tables) (snapshot : ConfigSnapshot) : Except StoreExc Bool :=
  match t.snapshot? snapshot.configVersion with
  | none => .ok false
  | some row => do
    let saved ← decode cfg row
    return saved.contentJson ≠ snapshot.contentJson

/-- The row and byte quotas of a snapshot that is not stored yet. -/
def overQuota (t : Tables) (snapshot : ConfigSnapshot) : Except StoreExc Bool :=
  match t.snapshot? snapshot.configVersion with
  | some _ => .ok false
  | none =>
    if cfg.maxSnapshots ≤ t.snapshots.length then .ok true
    else
      match utf8Encode snapshot.wireJson with
      | none => .error (.python .unicodeEncodeError)
      | some wire => .ok (cfg.maxPayloadBytes < t.payloadBytes + wire.length)

/-- The checks of `_prepare`, in their order: the code of a rejection. -/
def refusal (t : Tables) (snapshot : ConfigSnapshot) (digest kind : Option PyStr) :
    Except StoreExc (Option PyStr) := do
  let request := t.request? snapshot.messageId
  if request.any fun r => receiptDiffers r snapshot.configVersion digest kind then
    return some (py "MESSAGE_ID_CONFLICT")
  if snapshot.configVersion < t.activeVersion then
    return some (py "STALE_VERSION")
  if ← contentDiffers cfg t snapshot then
    return some (py "VERSION_CONFLICT")
  if snapshot.configVersion ≠ t.activeVersion ∧
      t.snapshots.any fun r => r.state = .prepared && r.version ≠ snapshot.configVersion then
    return some (py "RESOURCE_LIMIT")
  -- A known request takes no new row.
  if request = none ∧ cfg.maxRequests ≤ t.requests.length then
    return some (py "RESOURCE_LIMIT")
  if ← overQuota cfg t snapshot then
    return some (py "RESOURCE_LIMIT")
  return none

/-- `uuid.uuid4().hex` -/
def drawToken : Prog Session StoreExc PyStr := do
  let s ← get
  modify fun s => { s with drawn := s.drawn + 1 }
  return cfg.uuid s.drawn

/-- The token of a preparation: none for the active version, the one of a
    candidate that is still prepared, a new one otherwise. -/
def tokenFor (t : Tables) (version : ℤ) : Prog Session StoreExc (Option PyStr) :=
  if version = t.activeVersion then return none
  else
    match t.snapshot? version with
    -- A candidate that failed or was interrupted is prepared anew.
    | some row => if row.state = .prepared then return row.token else some <$> drawToken cfg
    | none => some <$> drawToken cfg

/-- The snapshot row of an accepted preparation. -/
def writeSnapshot (t : Tables) (snapshot : ConfigSnapshot) (token : Option PyStr) :
    Except StoreExc Tables :=
  match t.snapshot? snapshot.configVersion with
  | none =>
    match snapshot.contentHash with
    | .error e => .error (.python e)
    | .ok hash =>
      t.insertSnapshot ⟨snapshot.configVersion, snapshot.wireJson, hash, .prepared, token⟩
  | some _ =>
    if snapshot.configVersion = t.activeVersion then .ok t
    else t.updateSnapshot snapshot.configVersion .prepared token

/-- Replace the tables. -/
def setTables (t : Tables) : Prog Session StoreExc Unit := modify fun s => { s with tables := t }

/-- The writing part of `_prepare`. -/
def acceptSnapshot (t : Tables) (snapshot : ConfigSnapshot) (digest kind : Option PyStr) :
    Prog Session StoreExc PrepareResult := do
  let applied := snapshot.configVersion = t.activeVersion
  let token ← tokenFor cfg t snapshot.configVersion
  let t' ← result (writeSnapshot t snapshot token)
  setTables t'
  let t'' ← result (t'.upsertRequest
    ⟨snapshot.messageId, snapshot.configVersion, if applied then .applied else .prepared,
      digest, kind⟩)
  setTables t''
  return {
    status := if applied then .applied else .prepared
    activeConfigVersion := t.activeVersion
    token
    snapshot := if kind.isSome then some snapshot else none
    appliedConfigVersion := if kind.isSome ∧ applied then some snapshot.configVersion else none }

/-- `_prepare` -/
def prepareSnapshot (snapshot : ConfigSnapshot) (digest kind : Option PyStr) :
    Prog Session StoreExc PrepareResult := do
  let t ← gets (·.tables)
  match ← result (refusal cfg t snapshot digest kind) with
  | some code => return rejected t.activeVersion code
  | none => acceptSnapshot cfg t snapshot digest kind

/-! ## `prepare` and `prepare_patch` -/

/-- A rejection reads the active version outside a transaction. -/
def rejectInvalid (fate : Fate) (issues : List Issue) : Prog Session StoreExc PrepareResult := do
  check (fate ≠ .fails) .sqlite
  let t ← gets (·.tables)
  return invalid t.activeVersion issues

/-- `prepare` -/
def prepare (payload : Bytes) (fate : Fate) : Prog Session StoreExc PrepareResult :=
  match ConfigSnapshot.parse payload cfg.gatewayId with
  | .error (.validation issues) => rejectInvalid fate issues
  | .error (.python e) => raise (.python e)
  | .ok snapshot => transaction fate (prepareSnapshot cfg snapshot none none)

/-- `'configPatch'` -/
def patchKind : PyStr := py "configPatch"

/-- The receipt of a command that was applied: its snapshot is committed, not
    newer than the active one, and of the same message. -/
def replay (t : Tables) (receipt : RequestRow) (messageId : PyStr) :
    Except StoreExc PrepareResult := do
  let inconsistent : StoreExc := .format "Applied command receipt is inconsistent."
  match t.snapshot? receipt.version with
  | none => throw inconsistent
  | some saved =>
    if saved.state ≠ .committed ∨ t.activeVersion < receipt.version then throw inconsistent
    else if (← decode cfg saved).messageId ≠ messageId then throw inconsistent
    else return { status := .applied, activeConfigVersion := t.activeVersion,
                  appliedConfigVersion := some receipt.version }

/-- What a command meets in the tables: an early answer, or the snapshot to
    prepare. -/
inductive PatchStep where
  | answer (r : PrepareResult)
  | candidate (s : ConfigSnapshot)

/-- The snapshot of a command with no conflicting version. -/
def materializeStep (t : Tables) (command : Json) : Except StoreExc PatchStep := do
  let active ← loadActive cfg t
  match materialize command active cfg.gatewayId with
  | .error (.validation issues) => return .answer (invalid t.activeVersion issues)
  | .error (.python e) => throw (.python e)
  | .ok snapshot => return .candidate snapshot

/-- The stored snapshot of the version belongs to another message. -/
def versionTaken (t : Tables) (version : ℤ) (messageId : PyStr) : Except StoreExc Bool :=
  match t.snapshot? version with
  | none => .ok false
  | some row => do return (← decode cfg row).messageId ≠ messageId

/-- The reading part of `prepare_patch`. -/
def patchStep (t : Tables) (command : Json) (messageId : PyStr) (version : ℤ) (digest : PyStr) :
    Except StoreExc PatchStep := do
  match t.request? messageId with
  | some receipt =>
    if receiptDiffers receipt version (some digest) (some patchKind) then
      return .answer (rejected t.activeVersion (py "MESSAGE_ID_CONFLICT"))
    -- A replay comes before the checks of a base that may be stale by now.
    if receipt.status = .applied then
      return .answer (← replay cfg t receipt messageId)
  | none => pure ()
  if ← versionTaken cfg t version messageId then
    return .answer (rejected t.activeVersion (py "VERSION_CONFLICT"))
  materializeStep cfg t command

/-- The identity of a command.  Python compares the version as a number, and
    SQLite looks 5.0 up as 5, so it is the normalised integer. -/
def commandKey (command : Json) : Except PyExc (PyStr × ℤ) := do
  return (← strItem command "messageId", ← intItem (normalize command) "configVersion")

/-- The transaction of `prepare_patch`. -/
def patchBody (command : Json) (digest : PyStr) : Prog Session StoreExc PrepareResult := do
  let t ← gets (·.tables)
  let (messageId, version) ← result ((commandKey command).mapError .python)
  match ← result (patchStep cfg t command messageId version digest) with
  | .answer r => return r
  | .candidate snapshot => prepareSnapshot cfg snapshot (some digest) (some patchKind)

/-- `prepare_patch` -/
def preparePatch (payload : Bytes) (fate : Fate) : Prog Session StoreExc PrepareResult :=
  match parseCommand payload cfg.gatewayId with
  | .error (.validation issues) => rejectInvalid fate issues
  | .error (.python e) => raise (.python e)
  | .ok command => transaction fate (patchBody cfg command (sha256 payload))

/-! ## `commit` and `fail` -/

/-- `_candidate` -/
def findCandidate (t : Tables) (token : PyStr) : Except StoreExc SnapshotRow :=
  if token = [] then .error (.invalidCandidate "A valid preparation token is required.")
  else
    match t.candidate? token with
    | none => .error (.invalidCandidate "Preparation token is no longer active.")
    | some row => .ok row

/-- The transaction of `commit`. -/
def commitBody (token : PyStr) : Prog Session StoreExc ConfigSnapshot := do
  let t ← gets (·.tables)
  let row ← result (findCandidate t token)
  if row.state = .committed ∧ row.version = t.activeVersion then
    -- Committed before: the same answer.
    result (decode cfg row)
  else do
    check (row.state = .prepared ∧ t.activeVersion < row.version)
      (.invalidCandidate "Only a newer prepared candidate can be committed.")
    let snapshot ← result (decode cfg row)
    setTables (((t.setState row.version .committed).activate row.version).setStatus
      row.version .applied)
    return snapshot

/-- `commit` -/
def commit (token : PyStr) (fate : Fate) : Prog Session StoreExc ConfigSnapshot :=
  transaction fate (commitBody cfg token)

/-- The transaction of `fail`. -/
def failBody (token : PyStr) : Prog Session StoreExc Unit := do
  let t ← gets (·.tables)
  let row ← result (findCandidate t token)
  check (row.state = .prepared) (.invalidCandidate "Only a prepared candidate can fail.")
  -- Without its token the candidate cannot be committed any more.
  let t' ← result (t.updateSnapshot row.version .failed none)
  setTables (t'.setStatus row.version .failed)

/-- `fail` -/
def fail (token : PyStr) (fate : Fate) : Prog Session StoreExc Unit :=
  transaction fate (failBody token)

/-! ## Opening and closing -/

/-- The file on disk and, while it is open, the session that owns it. -/
inductive ConfigStore where
  | closed (file : Option Tables) (drawn : Nat)
  | opened (session : Session)

/-- The durable content, with the store open or closed. -/
def ConfigStore.file : ConfigStore → Option Tables
  | .closed file _ => file
  | .opened session => some session.tables

/-- `_initialize`: a new file gets its tables; an old one must be this
    gateway's; interrupted preparations are recovered. -/
def initialise (file : Option Tables) : Except StoreExc Tables := do
  let t := file.getD (Tables.empty cfg.gatewayId)
  if t.gatewayId ≠ cfg.gatewayId then throw .identity
  -- Committed content is read before anything may be written.
  let _ ← loadActive cfg t.interrupt
  return t.interrupt

/-- `__init__` -/
def ConfigStore.open (fate : Fate) : Prog ConfigStore StoreExc Unit := fun s =>
  match s with
  | .opened _ => (.error .inUse, s)
  | .closed file drawn =>
    match fate, initialise cfg file with
    | .fails, _ => (.error .storeError, s)
    | _, .error e => (.error e, s)
    | .commits, .ok t => (.ok (), .opened ⟨t, drawn⟩)
    -- The tables are in the file, and nobody has it open.
    | .loses, .ok t => (.error .storeError, .closed (some t) drawn)

/-- `close`; it is also what the death of the process does. -/
def ConfigStore.shut : ConfigStore → ConfigStore
  | .closed file drawn => .closed file drawn
  | .opened session => .closed (some session.tables) session.drawn

/-- An operation needs an open store. -/
def ConfigStore.using {α : Type} (x : Prog Session StoreExc α) : Prog ConfigStore StoreExc α :=
  fun s =>
    match s with
    | .closed _ _ => (.error .attributeError, s)
    | .opened session => ((x session).1, .opened (x session).2)

end PlcnextIot.Config
