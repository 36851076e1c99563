/-
  PlcnextIot.Storage.Receiver

  `storage/receiver.py`: the acceptance sink, which commits a receipt before it
  answers `STORED`.

  The two tables are the whole state, so that a receiver that was restarted goes on
  from the tables as they are.  What the database makes of a transaction is an
  argument of the call: any statement or the commit may fail, and a commit may be
  durable although its caller sees an error.
-/

import PlcnextIot.Messaging.Messages
import PlcnextIot.Python.Dict
import PlcnextIot.Effect.Rows
import PlcnextIot.Effect.Run
import PlcnextIot.Effect.Transaction
import PlcnextIot.Storage.OutboxOrder

namespace PlcnextIot.Storage

open PlcnextIot.Python PlcnextIot.Contracts PlcnextIot.Config PlcnextIot.Messaging
open PlcnextIot.Effect PlcnextIot.Effect.Prog

/-! ## The tables -/

/-- A row of `configs`. -/
structure InstalledConfig where
  version : ℤ
  payload : Bytes
  contentHash : PyStr
  deriving DecidableEq, Repr

/-- A row of `receipts`. -/
structure Receipt where
  messageId : PyStr
  payload : Bytes
  hash : PyStr
  storedAt : ℤ
  deriving DecidableEq, Repr

structure Receiver where
  configs : List InstalledConfig := []
  receipts : List Receipt := []
  deriving DecidableEq, Repr

namespace Receiver

/-- `SELECT ... FROM configs WHERE version=?` -/
def config? (s : Receiver) (version : ℤ) : Option InstalledConfig :=
  s.configs.find? (·.version = version)

/-- `SELECT hash FROM receipts WHERE message_id=?` -/
def receipt? (s : Receiver) (messageId : PyStr) : Option Receipt :=
  s.receipts.find? (·.messageId = messageId)

/-- What a rollback takes back: both tables. -/
def rollback (old _new : Receiver) : Receiver := old

end Receiver

/-- What the calls raise. -/
inductive ReceiverExc where
  | store (message : String)
  | value (message : String)
  | config (e : ConfigExc)
  deriving DecidableEq, Repr

/-- `except (StoreError, ValueError)`: the errors of the codec, of the decoder and of the
    validation are value errors. -/
def ReceiverExc.caught : ReceiverExc → Bool
  | .config (.python .keyError) | .config (.python .typeError) => false
  | _ => true

abbrev ReceiverM := Prog Receiver ReceiverExc

/-- The gateway of a receiver, its limits, and how deep a value its decoder can read. -/
structure ReceiverEnv where
  gateway : PyStr
  gateway_valid : isId gateway = true
  maxBatches : ℕ := 10000
  maxBytes : ℕ := 64 * 1024 * 1024
  nesting : ℕ
  maxBatches_pos : 0 < maxBatches := by decide
  maxBytes_pos : 0 < maxBytes := by decide

/-- A step that the interpreter may refuse. -/
def asReceiver {α : Type} : Except PyExc α → Except ReceiverExc α
  | .ok a => .ok a
  | .error e => .error (.config (.python e))

def asConfig {α : Type} : Except ConfigExc α → Except ReceiverExc α
  | .ok a => .ok a
  | .error e => .error (.config e)

theorem asReceiver_ok {α : Type} {x : Except PyExc α} {a : α} (h : asReceiver x = .ok a) :
    x = .ok a := by
  cases x with
  | ok b => cases h; rfl
  | error e => cases h

theorem asConfig_ok {α : Type} {x : Except ConfigExc α} {a : α} (h : asConfig x = .ok a) :
    x = .ok a := by
  cases x with
  | ok b => cases h; rfl
  | error e => cases h

def transactionFailed : ReceiverExc := .store "Telemetry transaction failed"

/-! ## `install_config` -/

/-- How many configurations a receiver keeps, and how many bytes of them. -/
def maxConfigs : ℕ := 32

def maxConfigBytes : ℕ := 64 * 1024 * 1024

/-- The statements of `install_config`. -/
def installRow (payload : Bytes) (snapshot : ConfigSnapshot) : ReceiverM Bool := do
  match (← get).config? snapshot.configVersion with
  | some row => do
    let hash ← Prog.result (asReceiver snapshot.contentHash)
    check (row.contentHash = hash) (.value "Historical configuration conflict")
    return true
  | none => do
    let rows ← gets (·.configs)
    if maxConfigs ≤ rows.length ∨
        maxConfigBytes < (rows.map (·.payload.length)).sum + payload.length then return false
    else do
      let hash ← Prog.result (asReceiver snapshot.contentHash)
      modify fun s => { s with configs := s.configs ++ [⟨snapshot.configVersion, payload, hash⟩] }
      return true

def installConfig [JsonSchema] (env : ReceiverEnv) (payload : Bytes) (fate : Fate) :
    ReceiverM Bool := do
  let snapshot ← Prog.result (asConfig (ConfigSnapshot.parse payload env.gateway))
  Prog.transaction Receiver.rollback transactionFailed fate (installRow payload snapshot)

/-! ## `receive` -/

/-- The answer to a message; a code refuses it. -/
def answer (env : ReceiverEnv) (now : ℤ) (messageId : PyStr) (code : Option String) : Json :=
  .obj [(py "schemaVersion", .int 1), (py "gatewayId", .str env.gateway), (py "timestamp", .int now),
    (py "messageId", .str messageId),
    (py "status", .str (match code with | none => py "STORED" | some _ => py "REJECTED")),
    (py "errors", .arr (match code with
      | none => []
      | some code => [.obj [(py "code", .str (py code)), (py "path", .str []),
          (py "message", .str (py "Batch could not be stored."))]]))]

/-- `ack` -/
def ack (env : ReceiverEnv) (now : ℤ) (messageId : PyStr) (code : Option String) :
    ReceiverM Bytes :=
  Prog.result (asReceiver (encode (answer env now messageId code)))

/-- The enabled points of the enabled devices, unless all of them are disabled. -/
def acceptedPoints (snapshot : ConfigSnapshot) : Dict PyStr (Dict PyStr PointConfig) :=
  .ofItems ((snapshot.devices.filter fun d => snapshot.enabled && d.enabled).map fun d =>
    (d.deviceId, .ofItems ((d.points.filter (·.enabled)).map fun p => (p.pointId, p))))

/-- A batch is not accepted when it is older than this, or this much ahead. -/
def maxReceiptAgeMs : ℤ := 7 * 86400 * 1000

def maxReceiptLeadMs : ℤ := 300000

/-- `type(value) is bool` -/
def isBool : Json → Bool
  | .bool _ => true
  | _ => false

/-- The code with which a value of a batch is refused. -/
def refusesValue (devices : Dict PyStr (Dict PyStr PointConfig)) (now : ℤ) (value : Json) :
    Except PyExc (Option String) := do
  match devices.get? (← strItem value "deviceId") with
  | none => return some "UNKNOWN_DEVICE"
  | some points =>
    match points.get? (← strItem value "pointId") with
    | none => return some "UNKNOWN_POINT"
    | some point =>
      if ((now + maxReceiptLeadMs : ℤ) : ℚ) < (← numItem value "timestamp") then
        return some "INVALID_TIMESTAMP"
      else if (← strItem value "quality") = py "GOOD" then
        let isTruth := isBool (← item value "value")
        return if decide (point.dataType = py "bool") != isTruth then some "SCHEMA_INVALID" else none
      else return none

/-- The first value that is refused decides. -/
def refusesValues (devices : Dict PyStr (Dict PyStr PointConfig)) (now : ℤ) :
    List Json → Except PyExc (Option String)
  | [] => .ok none
  | value :: rest => do
    match ← refusesValue devices now value with
    | some code => return some code
    | none => refusesValues devices now rest

/-- The code with which a batch is refused under a configuration. -/
def refusesBatch (snapshot : ConfigSnapshot) (now : ℤ) (wire : Json) :
    Except PyExc (Option String) := do
  let devices := acceptedPoints snapshot
  let stamp ← numItem wire "timestamp"
  if stamp < ((now - maxReceiptAgeMs : ℤ) : ℚ) then return some "EXPIRED_DATA"
  else if ((now + maxReceiptLeadMs : ℤ) : ℚ) < stamp then return some "INVALID_TIMESTAMP"
  else refusesValues devices now (← listItem wire "values")

/-- The code with which a new batch is refused, by its configuration or for lack of room. -/
def refusesNew [JsonSchema] (env : ReceiverEnv) (version : ℤ) (payload : Bytes) (now : ℤ)
    (wire : Json) : ReceiverM (Option String) := do
  match (← get).config? version with
  | none => return some "UNKNOWN_CONFIG_VERSION"
  | some row => do
    let snapshot ← Prog.result (asConfig (ConfigSnapshot.parse row.payload env.gateway))
    let hash ← Prog.result (asReceiver snapshot.contentHash)
    if hash ≠ row.contentHash then return some "STORAGE_ERROR"
    else
      match ← Prog.result (asReceiver (refusesBatch snapshot now wire)) with
      | some code => return some code
      | none => do
        let rows ← gets (·.receipts)
        return if env.maxBatches ≤ rows.length ∨
            env.maxBytes < (rows.map (·.payload.length)).sum + payload.length then
          some "RESOURCE_LIMIT"
        else none

/-- The statements of `receive`; what it returns from inside the transaction, if it does. -/
def receiveRow [JsonSchema] (env : ReceiverEnv) (messageId : PyStr) (version : ℤ) (payload : Bytes)
    (now : ℤ) (wire : Json) : ReceiverM (Option Bytes) := do
  let digest := sha256 payload
  match (← get).receipt? messageId with
  | some row => do
    -- The id has been used: the receipt decides, and nothing else is looked at.
    let code := if row.hash = digest then none else some "VERSION_CONFLICT"
    return some (← ack env now messageId code)
  | none => do
    match ← refusesNew env version payload now wire with
    | some code => return some (← ack env now messageId (some code))
    | none => do
      modify fun s => { s with receipts := s.receipts ++ [⟨messageId, payload, digest, now⟩] }
      return none

/-- `json.loads(payload)`, on a payload that was validated. -/
def loadsPayload (payload : Bytes) : Except PyExc Json :=
  match (utf8Decode payload).bind loads with
  | some wire => .ok wire
  | none => .error .jsonDecodeError

/-- The transaction of `receive` and the answer after it. -/
def storeBatch [JsonSchema] (env : ReceiverEnv) (messageId : PyStr) (version : ℤ) (payload : Bytes)
    (now : ℤ) (wire : Json) (fate : Fate) : ReceiverM Bytes := do
  match ← Prog.transaction Receiver.rollback transactionFailed fate
      (receiveRow env messageId version payload now wire) with
  -- A refusal commits its transaction as well.
  | some early => return early
  | none => ack env now messageId none

def receive [JsonSchema] (env : ReceiverEnv) (payload : Bytes) (now : ℤ) (fate : Fate) :
    ReceiverM (Option Bytes) := do
  match identity env.nesting payload env.gateway with
  | none => return none
  | some (messageId, version) => do
    let issues ← Prog.result (asReceiver (validateMessage .data payload env.gateway))
    if issues ≠ [] then return some (← ack env now messageId (some "SCHEMA_INVALID"))
    else do
      let wire ← Prog.result (asReceiver (loadsPayload payload))
      return some (← Prog.attempt (storeBatch env messageId version payload now wire fate) fun e =>
        -- A commit that has lost its answer may have stored the batch.
        if e.caught then ack env now messageId (some "STORAGE_ERROR") else raise e)

/-! ## What a call does -/

section Specs

variable [JsonSchema] {env : ReceiverEnv} {s s' : Receiver} {payload : Bytes} {now : ℤ}
  {messageId : PyStr} {version : ℤ} {wire : Json}

/-- A new batch may be stored: its configuration is installed and accepts it, and there is
    room. -/
structure Storable (env : ReceiverEnv) (version : ℤ) (payload : Bytes) (now : ℤ) (wire : Json)
    (s : Receiver) : Prop where
  accepted : ∃ row snapshot, s.config? version = some row ∧
    ConfigSnapshot.parse row.payload env.gateway = .ok snapshot ∧
    refusesBatch snapshot now wire = .ok none
  count : s.receipts.length < env.maxBatches
  bytes : (s.receipts.map (·.payload.length)).sum + payload.length ≤ env.maxBytes

theorem refusesNew_spec :
    wp (refusesNew env version payload now wire)
      (fun code s' => s' = s ∧ (code = none → Storable env version payload now wire s))
      (fun _ _ => True) s := by
  unfold refusesNew
  rw [wp_bind, wp_get]
  cases hrow : s.config? version with
  | none => exact ⟨rfl, nofun⟩
  | some row =>
      dsimp only
      rw [wp_bind]
      refine (wp_result _).mpr ⟨fun snapshot hsnapshot => ?_, fun _ _ => trivial⟩
      rw [wp_bind]
      refine (wp_result _).mpr ⟨fun hash hhash => ?_, fun _ _ => trivial⟩
      rw [wp_ite]
      refine ⟨fun _ => ⟨rfl, nofun⟩, fun _ => ?_⟩
      rw [wp_bind]
      refine (wp_result _).mpr ⟨fun code hcode => ?_, fun _ _ => trivial⟩
      cases code with
      | some code => exact ⟨rfl, nofun⟩
      | none =>
          dsimp only
          rw [wp_bind, wp_gets, wp_pure]
          refine ⟨rfl, fun hnone => ?_⟩
          split at hnone
          · cases hnone
          · rename_i hroom
            obtain ⟨hcount, hbytes⟩ := not_or.mp hroom
            refine ⟨⟨row, snapshot, hrow, ?_, ?_⟩, not_le.mp hcount, not_lt.mp hbytes⟩
            · exact asConfig_ok hsnapshot
            · exact asReceiver_ok hcode

/-- The row of a batch that is stored now. -/
def receiptOf (messageId : PyStr) (payload : Bytes) (now : ℤ) : Receipt :=
  ⟨messageId, payload, sha256 payload, now⟩

/-- What the statements of `receive` do to the tables: nothing, or one more receipt. -/
inductive Takes (env : ReceiverEnv) (messageId : PyStr) (version : ℤ) (payload : Bytes) (now : ℤ)
    (wire : Json) (s : Receiver) : Receiver → Prop
  | nothing : Takes env messageId version payload now wire s s
  | receipt (hnew : s.receipt? messageId = none)
      (hstorable : Storable env version payload now wire s) :
      Takes env messageId version payload now wire s
        { s with receipts := s.receipts ++ [receiptOf messageId payload now] }

/-- There is a receipt for exactly this payload. -/
def Receiver.Holds (s : Receiver) (messageId : PyStr) (payload : Bytes) : Prop :=
  ∃ r ∈ s.receipts, r.messageId = messageId ∧ r.hash = sha256 payload

/-- The bytes answer a message, `STORED` only when there is a receipt for its payload. -/
def Answers (env : ReceiverEnv) (now : ℤ) (messageId : PyStr) (payload : Bytes) (s : Receiver)
    (bytes : Bytes) : Prop :=
  ∃ code, encode (answer env now messageId code) = .ok bytes ∧
    (code = none → s.Holds messageId payload)

omit [JsonSchema] in
theorem ack_spec (payload : Bytes) (code : Option String) (hcode : code = none → s.Holds messageId payload) :
    wp (ack env now messageId code) (fun bytes s' => s' = s ∧ Answers env now messageId payload s bytes)
      (fun _ s' => s' = s) s :=
  (wp_result _).mpr ⟨fun _ hbytes => ⟨rfl, code, asReceiver_ok hbytes, hcode⟩, fun _ _ => rfl⟩

omit [JsonSchema] in
theorem mem_of_receipt? {r : Receipt} (h : s.receipt? messageId = some r) :
    r ∈ s.receipts ∧ r.messageId = messageId :=
  mem_of_find?_key h

omit [JsonSchema] in
theorem receipt?_eq_none : s.receipt? messageId = none ↔ ∀ r ∈ s.receipts, r.messageId ≠ messageId :=
  find?_key_none

omit [JsonSchema] in
theorem mem_of_config? {row : InstalledConfig} (h : s.config? version = some row) :
    row ∈ s.configs ∧ row.version = version :=
  mem_of_find?_key h

omit [JsonSchema] in
theorem config?_eq_none : s.config? version = none ↔ ∀ c ∈ s.configs, c.version ≠ version :=
  find?_key_none

theorem receiveRow_spec :
    wp (receiveRow env messageId version payload now wire)
      (fun early s' => (∀ bytes, early = some bytes → Answers env now messageId payload s' bytes) ∧
        (early = none → s'.Holds messageId payload) ∧
        Takes env messageId version payload now wire s s')
      (fun _ _ => True) s := by
  unfold receiveRow
  rw [wp_bind, wp_get]
  cases hrow : s.receipt? messageId with
  -- A receipt: `STORED` for the same payload, and a conflict for another.
  | some row =>
      obtain ⟨hmem, hid⟩ := mem_of_receipt? hrow
      dsimp only
      rw [wp_bind]
      refine (ack_spec payload _ fun hcode => ?_).mono ?_ fun _ _ _ => trivial
      · split at hcode
        · rename_i hhash
          exact ⟨row, hmem, hid, hhash⟩
        · cases hcode
      · rintro bytes s' ⟨rfl, hanswers⟩
        exact ⟨fun _ h => Option.some.inj h ▸ hanswers, nofun, .nothing⟩
  | none =>
      dsimp only
      rw [wp_bind]
      refine refusesNew_spec.mono ?_ fun _ _ _ => trivial
      rintro code s' ⟨rfl, hstorable⟩
      cases code with
      | some code =>
          dsimp only
          rw [wp_bind]
          refine (ack_spec payload (some code) nofun).mono ?_ fun _ _ _ => trivial
          rintro bytes s' ⟨rfl, hanswers⟩
          exact ⟨fun _ h => Option.some.inj h ▸ hanswers, nofun, .nothing⟩
      | none =>
          dsimp only
          rw [wp_bind, wp_modify, wp_pure]
          refine ⟨nofun, fun _ => ⟨receiptOf messageId payload now, ?_, rfl, rfl⟩,
            .receipt hrow (hstorable rfl)⟩
          exact List.mem_append_right _ (List.mem_singleton_self _)

/-- The whole of `receive` behind the checks of the message. -/
theorem storeBatch_spec (fate : Fate) :
    wp (storeBatch env messageId version payload now wire fate)
      (fun bytes s' => Answers env now messageId payload s' bytes ∧
        Takes env messageId version payload now wire s s')
      (fun _ s' => Takes env messageId version payload now wire s s') s := by
  unfold storeBatch
  rw [wp_bind]
  -- whatever becomes of the transaction, its tables are those of its body or the old ones
  refine wp.mono (wp.transaction (R := Takes env messageId version payload now wire s)
    (Q := fun early s' => (∀ bytes, early = some bytes → Answers env now messageId payload s' bytes) ∧
      (early = none → s'.Holds messageId payload)) (receiveRow_spec.mono ?_ fun _ _ _ => trivial)
    fun _ => .nothing) ?_ fun _ _ h => h
  · rintro early s' ⟨hearly, hnone, htakes⟩
    exact ⟨⟨hearly, hnone⟩, htakes⟩
  · rintro early s₁ ⟨⟨hearly, hnone⟩, htakes⟩
    cases early with
    | some bytes => exact ⟨hearly bytes rfl, htakes⟩
    | none =>
        refine (ack_spec payload none fun _ => hnone rfl).mono ?_ ?_
        · rintro bytes s₂ ⟨rfl, hanswers⟩
          exact ⟨hanswers, htakes⟩
        · rintro e s₂ rfl
          exact htakes

/-- What a call of `receive` does: nothing, or one more receipt of a conforming batch; and
    what it answers. -/
inductive Receives (env : ReceiverEnv) (payload : Bytes) (now : ℤ) (s s' : Receiver) : Prop
  | unread (hs : s' = s)
  | taken {messageId : PyStr} {version : ℤ} {wire : Json}
      (hidentity : identity env.nesting payload env.gateway = some (messageId, version))
      (hvalid : validateMessage .data payload env.gateway = .ok [])
      (hwire : (utf8Decode payload).bind loads = some wire)
      (htakes : Takes env messageId version payload now wire s s')

theorem receive_spec (env : ReceiverEnv) (payload : Bytes) (now : ℤ) (fate : Fate) :
    wp (receive env payload now fate)
      (fun out s' => Receives env payload now s s' ∧ ∀ bytes, out = some bytes →
        ∃ messageId version, identity env.nesting payload env.gateway = some (messageId, version) ∧
          Answers env now messageId payload s' bytes)
      (fun _ s' => Receives env payload now s s') s := by
  unfold receive
  cases hidentity : identity env.nesting payload env.gateway with
  | none => exact ⟨.unread rfl, nofun⟩
  | some found =>
      obtain ⟨messageId, version⟩ := found
      dsimp only
      rw [wp_bind]
      refine (wp_result _).mpr ⟨fun issues hissues => ?_, fun _ _ => .unread rfl⟩
      rw [wp_ite]
      refine ⟨fun _ => ?_, fun hvalid => ?_⟩
      · -- the batch does not conform
        rw [wp_bind]
        refine (ack_spec payload (some "SCHEMA_INVALID") nofun).mono ?_ ?_
        · rintro bytes s' ⟨rfl, hanswers⟩
          exact ⟨.unread rfl, fun _ h => ⟨messageId, version, rfl, Option.some.inj h ▸ hanswers⟩⟩
        · rintro e s' rfl
          exact .unread rfl
      rw [wp_bind]
      refine (wp_result _).mpr ⟨fun wire hwire => ?_, fun _ _ => .unread rfl⟩
      have hvalid' : validateMessage .data payload env.gateway = .ok [] := by
        rw [asReceiver_ok hissues, not_not.mp hvalid]
      have hwire' : (utf8Decode payload).bind loads = some wire := by
        have hwire := asReceiver_ok hwire
        unfold loadsPayload at hwire
        split at hwire
        · cases hwire
          assumption
        · cases hwire
      have htaken : ∀ s', Takes env messageId version payload now wire s s' →
          Receives env payload now s s' := fun _ => .taken hidentity hvalid' hwire'
      rw [wp_bind, wp_attempt]
      refine (storeBatch_spec fate).mono ?_ ?_
      · rintro bytes s' ⟨hanswers, htakes⟩
        exact ⟨htaken s' htakes, fun _ h => ⟨messageId, version, rfl, Option.some.inj h ▸ hanswers⟩⟩
      · intro e s' htakes
        rw [wp_ite]
        refine ⟨fun _ => ?_, fun _ => htaken s' htakes⟩
        refine (ack_spec payload (some "STORAGE_ERROR") nofun).mono ?_ ?_
        · rintro bytes s'' ⟨rfl, hanswers⟩
          exact ⟨htaken s'' htakes, fun _ h =>
            ⟨messageId, version, rfl, Option.some.inj h ▸ hanswers⟩⟩
        · rintro _ s'' rfl
          exact htaken s'' htakes

omit [JsonSchema] in
theorem installRow_spec {snapshot : ConfigSnapshot} :
    wp (installRow payload snapshot) (fun _ s' => s' = s ∨ ∃ hash,
        s.config? snapshot.configVersion = none ∧ snapshot.contentHash = .ok hash ∧
        s.configs.length < maxConfigs ∧
        (s.configs.map (·.payload.length)).sum + payload.length ≤ maxConfigBytes ∧
        s' = { s with configs := s.configs ++ [⟨snapshot.configVersion, payload, hash⟩] })
      (fun _ _ => True) s := by
  unfold installRow
  rw [wp_bind, wp_get]
  cases hrow : s.config? snapshot.configVersion with
  | some row =>
      dsimp only
      rw [wp_bind]
      refine (wp_result _).mpr ⟨fun hash _ => ?_, fun _ _ => trivial⟩
      rw [wp_bind, wp_check]
      exact ⟨fun _ => .inl rfl, fun _ => trivial⟩
  | none =>
      dsimp only
      rw [wp_bind, wp_gets, wp_ite]
      refine ⟨fun _ => .inl rfl, fun hroom => ?_⟩
      obtain ⟨hcount, hbytes⟩ := not_or.mp hroom
      rw [wp_bind]
      refine (wp_result _).mpr ⟨fun hash hhash => ?_, fun _ _ => trivial⟩
      rw [wp_bind, wp_modify, wp_pure]
      exact .inr ⟨hash, rfl, asReceiver_ok hhash, not_le.mp hcount, not_lt.mp hbytes, rfl⟩

/-- What `install_config` does to the tables: nothing, or one more configuration. -/
inductive Installs (env : ReceiverEnv) (payload : Bytes) (s : Receiver) : Receiver → Prop
  | nothing : Installs env payload s s
  | config {snapshot : ConfigSnapshot} {hash : PyStr}
      (hparse : ConfigSnapshot.parse payload env.gateway = .ok snapshot)
      (hhash : snapshot.contentHash = .ok hash) (hnew : s.config? snapshot.configVersion = none)
      (hcount : s.configs.length < maxConfigs)
      (hbytes : (s.configs.map (·.payload.length)).sum + payload.length ≤ maxConfigBytes) :
      Installs env payload s
        { s with configs := s.configs ++ [⟨snapshot.configVersion, payload, hash⟩] }

theorem installConfig_spec (fate : Fate) :
    wp (installConfig env payload fate) (fun _ s' => Installs env payload s s')
      (fun _ s' => Installs env payload s s') s := by
  rw [installConfig, wp_bind]
  refine (wp_result _).mpr ⟨fun snapshot hsnapshot => ?_, fun _ _ => .nothing⟩
  refine wp.mono (wp.transaction (R := Installs env payload s) (Q := fun _ _ => True)
    (installRow_spec.mono ?_ fun _ _ _ => trivial) fun _ => .nothing) (fun _ _ h => h.2)
    fun _ _ h => h
  rintro flag s' (rfl | ⟨hash, hnew, hhash, hcount, hbytes, rfl⟩)
  · exact ⟨trivial, .nothing⟩
  · exact ⟨trivial, .config (asConfig_ok hsnapshot) hhash hnew hcount hbytes⟩

end Specs

/-! ## The invariant -/

section Invariant

variable [JsonSchema] {env : ReceiverEnv} {s s' : Receiver} {payload : Bytes} {now : ℤ}

/-- A configuration is filed under its own version, with the hash of its content. -/
def InstalledConfig.Genuine (env : ReceiverEnv) (c : InstalledConfig) : Prop :=
  ∃ snapshot, ConfigSnapshot.parse c.payload env.gateway = .ok snapshot ∧
    snapshot.configVersion = c.version ∧ snapshot.contentHash = .ok c.contentHash

/-- A receipt is filed under the id that its payload names; the payload conforms, and the
    configuration of its version accepted it when it was stored. -/
structure Receipt.Genuine (env : ReceiverEnv) (configs : List InstalledConfig) (r : Receipt) :
    Prop where
  hash : r.hash = sha256 r.payload
  valid : validateMessage .data r.payload env.gateway = .ok []
  accepted : ∃ version wire row snapshot,
    identity env.nesting r.payload env.gateway = some (r.messageId, version) ∧
      (utf8Decode r.payload).bind loads = some wire ∧ row ∈ configs ∧ row.version = version ∧
      ConfigSnapshot.parse row.payload env.gateway = .ok snapshot ∧
      refusesBatch snapshot r.storedAt wire = .ok none

structure Receiver.Sound (env : ReceiverEnv) (s : Receiver) : Prop where
  versions : Keyed InstalledConfig.version s.configs
  configs : ∀ c ∈ s.configs, c.Genuine env
  configCount : s.configs.length ≤ maxConfigs
  configBytes : (s.configs.map (·.payload.length)).sum ≤ maxConfigBytes
  messageIds : Keyed Receipt.messageId s.receipts
  receipts : ∀ r ∈ s.receipts, r.Genuine env s.configs
  count : s.receipts.length ≤ env.maxBatches
  bytes : (s.receipts.map (·.payload.length)).sum ≤ env.maxBytes

/-- Rows are added behind the others, and never change. -/
structure Receiver.Grows (s s' : Receiver) : Prop where
  configs : s.configs <+: s'.configs
  receipts : s.receipts <+: s'.receipts

omit [JsonSchema] in
theorem Receiver.Grows.refl (s : Receiver) : s.Grows s := ⟨List.prefix_rfl, List.prefix_rfl⟩

omit [JsonSchema] in
theorem Receiver.Grows.trans {s₀ s₁ s₂ : Receiver} (h : s₀.Grows s₁) (h' : s₁.Grows s₂) :
    s₀.Grows s₂ :=
  ⟨h.configs.trans h'.configs, h.receipts.trans h'.receipts⟩

theorem Receiver.Sound.empty (env : ReceiverEnv) : Receiver.Sound env {} :=
  ⟨.nil, nofun, Nat.zero_le _, Nat.zero_le _, .nil, nofun, Nat.zero_le _, Nat.zero_le _⟩

theorem Receipt.Genuine.mono {r : Receipt} {configs more : List InstalledConfig}
    (h : r.Genuine env configs) (hmore : configs <+: more) : r.Genuine env more := by
  obtain ⟨version, wire, row, snapshot, hidentity, hwire, hrow, hrest⟩ := h.accepted
  exact ⟨h.hash, h.valid, version, wire, row, snapshot, hidentity, hwire, hmore.subset hrow, hrest⟩

theorem Receiver.Grows.of_installs (h : Installs env payload s s') : s.Grows s' := by
  cases h with
  | nothing => exact .refl s
  | config => exact ⟨List.prefix_append _ _, List.prefix_rfl⟩

theorem Receiver.Grows.of_receives (h : Receives env payload now s s') : s.Grows s' := by
  cases h with
  | unread hs => exact hs ▸ .refl s
  | taken _ _ _ htakes =>
      cases htakes with
      | nothing => exact .refl s
      | receipt => exact ⟨List.prefix_rfl, List.prefix_append _ _⟩

theorem Receiver.Sound.installs (h : s.Sound env) (hstep : Installs env payload s s') :
    s'.Sound env := by
  cases hstep with
  | nothing => exact h
  | @config snapshot hash hparse hhash hnew hcount hbytes =>
      refine ⟨h.versions.append (config?_eq_none.mp hnew), ?_, ?_, ?_, h.messageIds,
        fun r hr => ?_, h.count, h.bytes⟩
      · intro c hc
        rcases List.mem_append.mp hc with hc | hc
        · exact h.configs c hc
        · rw [List.mem_singleton.mp hc]
          exact ⟨snapshot, hparse, rfl, hhash⟩
      · rw [List.length_append, List.length_singleton]
        exact hcount
      · rw [List.map_append, List.sum_append, List.map_singleton, List.sum_singleton]
        exact hbytes
      · exact (h.receipts r hr).mono (List.prefix_append _ _)

theorem Receiver.Sound.receives (h : s.Sound env) (hstep : Receives env payload now s s') :
    s'.Sound env := by
  cases hstep with
  | unread hs => exact hs ▸ h
  | @taken messageId version wire hidentity hvalid hwire htakes =>
      cases htakes with
      | nothing => exact h
      | receipt hnew hstorable =>
          refine ⟨h.versions, h.configs, h.configCount, h.configBytes,
            h.messageIds.append (receipt?_eq_none.mp hnew), fun r hr => ?_, ?_, ?_⟩
          · rcases List.mem_append.mp hr with hr | hr
            · exact h.receipts r hr
            · rw [List.mem_singleton.mp hr]
              obtain ⟨row, snapshot, hrow, hparse, haccepts⟩ := hstorable.accepted
              obtain ⟨hmem, hversion⟩ := mem_of_config? hrow
              exact ⟨rfl, hvalid, version, wire, row, snapshot, hidentity, hwire, hmem, hversion,
                hparse, haccepts⟩
          · rw [List.length_append, List.length_singleton]
            exact hstorable.count
          · rw [List.map_append, List.sum_append, List.map_singleton, List.sum_singleton]
            exact hstorable.bytes

end Invariant

/-! ## A message that is known -/

section Known

variable {env : ReceiverEnv} {s : Receiver} {payload : Bytes} {now : ℤ} {messageId : PyStr}

theorem answer_loaded (hnow : (Json.int now).Loaded) (code : Option String) :
    (answer env now messageId code).Loaded := by
  have hone : (Json.int 1).Loaded := by
    show (digitsText 1).length ≤ maxIntDigits
    decide
  have hnames : (["schemaVersion", "gatewayId", "timestamp", "messageId", "status",
      "errors"].map py).Nodup := by decide
  have herror : (["code", "path", "message"].map py).Nodup := by decide
  refine ⟨hnames, hone, trivial, hnow, trivial, trivial, ?_, trivial⟩
  cases code with
  | none => trivial
  | some code => exact ⟨⟨herror, trivial, trivial, trivial, trivial⟩, trivial⟩

/-- An answer with one of the codes of the source can be written. -/
theorem encode_answer (env : ReceiverEnv) (hid : isId messageId = true) (hnow : (Json.int now).Loaded)
    {code : Option String} (hcode : ∀ c ∈ code, (py c).all encodes = true) :
    ∃ bytes, encode (answer env now messageId code) = .ok bytes := by
  apply encode_returns (answer_loaded hnow code)
  have hkeys : ∀ k ∈ ["schemaVersion", "gatewayId", "timestamp", "messageId", "status", "errors",
      "code", "path", "message", "Batch could not be stored.", "STORED", "REJECTED"],
      (py k).all encodes = true := by decide
  cases code with
  | none =>
      simp [answer, Json.encodable, encodableMembers, encodableItems, hkeys, isId_encodes hid,
        isId_encodes env.gateway_valid]
  | some code =>
      simp [answer, Json.encodable, encodableMembers, encodableItems, hkeys, isId_encodes hid,
        isId_encodes env.gateway_valid, hcode]

variable [JsonSchema] {version : ℤ} {r : Receipt} {wire : Json}

omit [JsonSchema] in
theorem wp_ack {code : Option String} {bytes : Bytes} {Q : Bytes → Receiver → Prop}
    {E : ReceiverExc → Receiver → Prop}
    (h : encode (answer env now messageId code) = .ok bytes) :
    wp (ack env now messageId code) Q E s ↔ Q bytes s := by
  rw [ack, h]
  exact wp_result_ok bytes

/-- The code in the answer to a payload that names a receipt: whatever the payload, when the
    database fails; else whether it is the payload of the receipt. -/
def replayCode (r : Receipt) (payload : Bytes) : Fate → Option String
  | .commits => if r.hash = sha256 payload then none else some "VERSION_CONFLICT"
  | .fails | .loses => some "STORAGE_ERROR"

omit [JsonSchema] in
theorem replayCode_encodes (r : Receipt) (payload : Bytes) (fate : Fate) :
    ∀ c ∈ replayCode r payload fate, (py c).all encodes = true := by
  have hcodes : ∀ c ∈ ["VERSION_CONFLICT", "STORAGE_ERROR"], (py c).all encodes = true := by decide
  intro c hc
  refine hcodes c ?_
  cases fate with
  | commits =>
      simp only [replayCode] at hc
      split at hc
      · cases hc
      · simp [← Option.some.inj hc]
  | fails => simp [← Option.some.inj hc]
  | loses => simp [← Option.some.inj hc]

theorem receiveRow_known (version : ℤ) (wire : Json) (hkeyed : Keyed Receipt.messageId s.receipts) (hr : r ∈ s.receipts)
    {bytes : Bytes}
    (hbytes : encode (answer env now r.messageId (replayCode r payload .commits)) = .ok bytes) :
    wp (receiveRow env r.messageId version payload now wire)
      (fun early s' => early = some bytes ∧ s' = s) (fun _ _ => False) s := by
  have hfound : s.receipt? r.messageId = some r := hkeyed.find?_eq_some.mpr ⟨hr, rfl⟩
  rw [receiveRow, wp_bind, wp_get, hfound]
  dsimp only
  rw [wp_bind]
  exact (wp_ack hbytes).mpr ⟨rfl, rfl⟩

/-- A message that is known is answered by its receipt, and changes nothing. -/
theorem receive_known (hkeyed : Keyed Receipt.messageId s.receipts) (hr : r ∈ s.receipts)
    (hidentity : identity env.nesting payload env.gateway = some (r.messageId, version))
    (hvalid : validateMessage .data payload env.gateway = .ok [])
    (hnow : (Json.int now).Loaded) (fate : Fate) :
    wp (receive env payload now fate)
      (fun out s' => s' = s ∧ ∃ bytes, out = some bytes ∧
        encode (answer env now r.messageId (replayCode r payload fate)) = .ok bytes)
      (fun _ _ => False) s := by
  obtain ⟨hid, value, hvalue, -⟩ := identity_eq_some hidentity
  have hwire : loadsPayload payload = .ok value := by rw [loadsPayload, hvalue]
  rw [receive, hidentity]
  dsimp only
  rw [wp_bind, hvalid, asReceiver, wp_result_ok, wp_ite]
  refine ⟨fun h => absurd rfl h, fun _ => ?_⟩
  rw [wp_bind, hwire, asReceiver, wp_result_ok, wp_bind, wp_attempt, storeBatch, wp_bind]
  obtain ⟨known, hknown⟩ := encode_answer env hid hnow (replayCode_encodes r payload .commits)
  have hrow := receiveRow_known version value hkeyed hr hknown
  -- The answer to a failed transaction only reads.
  have hfailed : ∀ e : ReceiverExc, e = transactionFailed → wp
      (if e.caught = true then ack env now r.messageId (some "STORAGE_ERROR") else raise e)
      (fun bytes s' => s' = s ∧ ∃ b, some bytes = some b ∧
        encode (answer env now r.messageId (some "STORAGE_ERROR")) = .ok b)
      (fun _ _ => False) s := by
    rintro e rfl
    obtain ⟨failed, hfailed⟩ := encode_answer env hid hnow
      (replayCode_encodes r payload .fails)
    exact (wp_ack hfailed).mpr ⟨rfl, failed, rfl, hfailed⟩
  cases fate with
  | commits =>
      refine wp_transaction_commits.mpr (hrow.mono ?_ fun _ _ h => h.elim)
      rintro early s' ⟨rfl, rfl⟩
      exact ⟨rfl, known, rfl, hknown⟩
  | fails =>
      refine wp_transaction_fails.mpr (hrow.mono ?_ fun _ _ h => h.elim)
      exact fun _ s' _ => hfailed _ rfl
  | loses =>
      refine wp_transaction_loses.mpr (hrow.mono ?_ fun _ _ h => h.elim)
      rintro early s' ⟨-, rfl⟩
      exact hfailed _ rfl

end Known

/-! ## Runs -/

inductive ReceiverOp where
  | installConfig (payload : Bytes) (fate : Fate)
  | receive (payload : Bytes) (now : ℤ) (fate : Fate)

inductive ReceiverOutcome where
  | installed (flag : Bool)
  | answered (bytes : Option Bytes)

section Runs

variable [JsonSchema] {env : ReceiverEnv} {s : Receiver}

def ReceiverOp.exec (env : ReceiverEnv) : ReceiverOp → ReceiverM ReceiverOutcome
  | .installConfig payload fate => do return .installed (← Storage.installConfig env payload fate)
  | .receive payload now fate => do return .answered (← Storage.receive env payload now fate)

/-- A call keeps the invariant and only adds rows. -/
theorem perform_receiver (h : s.Sound env) (op : ReceiverOp) :
    s.Grows (perform (ReceiverOp.exec env) s op).after ∧
      (perform (ReceiverOp.exec env) s op).after.Sound env := by
  have hwp : wp (op.exec env) (fun _ s' => s.Grows s' ∧ s'.Sound env)
      (fun _ s' => s.Grows s' ∧ s'.Sound env) s := by
    cases op with
    | installConfig payload fate =>
        have hboth : ∀ s', Installs env payload s s' → s.Grows s' ∧ s'.Sound env := fun s' hs' =>
          ⟨.of_installs hs', h.installs hs'⟩
        simp only [ReceiverOp.exec, wp_bind, wp_pure]
        exact (installConfig_spec fate).mono (fun _ s' => hboth s') fun _ s' => hboth s'
    | receive payload now fate =>
        have hboth : ∀ s', Receives env payload now s s' → s.Grows s' ∧ s'.Sound env := fun s' hs' =>
          ⟨.of_receives hs', h.receives hs'⟩
        simp only [ReceiverOp.exec, wp_bind, wp_pure]
        exact (receive_spec env payload now fate).mono (fun _ s' hs' => hboth s' hs'.1) fun _ s' => hboth s'
  exact hwp.final

theorem receiver_run (h : s.Sound env) (ops : List ReceiverOp) :
    s.Grows (runCalls (ReceiverOp.exec env) s ops) ∧
      (runCalls (ReceiverOp.exec env) s ops).Sound env := by
  induction ops generalizing s with
  | nil => exact ⟨.refl s, h⟩
  | cons op rest ih =>
      obtain ⟨hgrows, hsound⟩ := perform_receiver h op
      obtain ⟨hmore, hend⟩ := ih hsound
      exact ⟨hgrows.trans hmore, hend⟩

/-- The receiver over the life of its database: what it stored stays as it is, within the
    limits and accepted by the configuration of its version; and every further message with
    the id of a receipt is answered by that receipt, and changes nothing. -/
theorem receipts_final (env : ReceiverEnv) (before after : List ReceiverOp) :
    let s := runCalls (ReceiverOp.exec env) {} before
    let s' := runCalls (ReceiverOp.exec env) s after
    s.Sound env ∧ s.Grows s' ∧
      ∀ r ∈ s.receipts, ∀ payload version now fate,
        identity env.nesting payload env.gateway = some (r.messageId, version) →
        validateMessage .data payload env.gateway = .ok [] → (Json.int now).Loaded →
        ∃ bytes, (receive env payload now fate).run s' = (.ok (some bytes), s') ∧
          encode (answer env now r.messageId (replayCode r payload fate)) = .ok bytes := by
  intro s s'
  obtain ⟨-, hs⟩ := receiver_run (.empty env) before
  obtain ⟨hgrows, hs'⟩ := receiver_run hs after
  refine ⟨hs, hgrows, fun r hr payload version now fate hidentity hvalid hnow => ?_⟩
  have hknown := receive_known hs'.messageIds (hgrows.receipts.subset hr) hidentity hvalid hnow fate
  obtain ⟨hok, herror⟩ := (wp_iff_run _).mp hknown
  rcases hrun : (receive env payload now fate).run s' with ⟨result, t⟩
  cases result with
  | ok out =>
      obtain ⟨rfl, bytes, rfl, hbytes⟩ := hok out t hrun
      exact ⟨bytes, rfl, hbytes⟩
  | error e => exact (herror e t hrun).elim

end Runs

section Scripted

attribute [local instance] JsonSchema.atRoot

/-- A configuration of gateway `g` with one device and one point. -/
def scriptedConfig : Bytes :=
  (utf8Encode (dumps (.obj [
    (py "schemaVersion", .int 1), (py "gatewayId", .str (py "g")), (py "timestamp", .int 1000),
    (py "messageId", .str (py "c")), (py "configVersion", .int 1),
    (py "config", .obj [(py "enabled", .bool true),
      (py "report", .obj [(py "batchIntervalMs", .int 1000), (py "maxBatchPoints", .int 10)]),
      (py "devices", .arr [.obj [
        (py "deviceId", .str (py "d")), (py "name", .str (py "d")), (py "enabled", .bool true),
        (py "protocol", .str (py "modbus_tcp")),
        (py "connection", .obj [(py "host", .str (py "h")), (py "port", .int 502),
          (py "unitId", .int 1), (py "connectTimeoutMs", .int 1000),
          (py "requestTimeoutMs", .int 1000), (py "retryCount", .int 0)]),
        (py "points", .arr [.obj [
          (py "pointId", .str (py "p")), (py "name", .str (py "p")), (py "enabled", .bool true),
          (py "dataType", .str (py "int16")), (py "pollIntervalMs", .int 1000),
          (py "scale", .int 1), (py "offset", .int 0), (py "reportMode", .str (py "cyclic")),
          (py "reportIntervalMs", .int 1000), (py "deadband", .int 0),
          (py "staleAfterMs", .int 5000),
          (py "modbus", .obj [(py "area", .str (py "holding_register")), (py "address", .int 0),
            (py "byteOrder", .str (py "AB"))])]])]])])]))).getD []

theorem isId_gateway : isId (py "g") = true := by decide

/-- A receiver of gateway `g`. -/
def ReceiverEnv.scripted : ReceiverEnv where
  gateway := py "g"
  gateway_valid := isId_gateway
  nesting := 1000

/-- A batch is stored, and its answer is lost. -/
def storeOne : List ReceiverOp :=
  [.installConfig scriptedConfig .commits, .receive (scriptedBatch (py "m")) 1000 .loses]

/-- It comes again, and the database fails. -/
def repeatOne : List ReceiverOp := [.receive (scriptedBatch (py "m")) 1500 .fails]

/-- When it comes once more it is answered by its receipt. -/
theorem receipts_final_stored :
    let s := runCalls (ReceiverOp.exec .scripted) {} storeOne
    let s' := runCalls (ReceiverOp.exec .scripted) s repeatOne
    ∃ r ∈ s.receipts, r.messageId = py "m" ∧ ∃ bytes,
      (receive .scripted (scriptedBatch (py "m")) 2000 .commits).run s' = (.ok (some bytes), s') ∧
      encode (answer .scripted 2000 r.messageId (replayCode r (scriptedBatch (py "m")) .commits))
        = .ok bytes := by
  intro s s'
  have hidentity : identity ReceiverEnv.scripted.nesting (scriptedBatch (py "m"))
      ReceiverEnv.scripted.gateway = some (py "m", 1) := by decide +kernel
  have hvalid : validateMessage .data (scriptedBatch (py "m")) ReceiverEnv.scripted.gateway
      = .ok [] := by decide +kernel
  have hnow : (Json.int 2000).Loaded := by
    show (digitsText 2000).length ≤ maxIntDigits
    decide
  have hstored : py "m" ∈ s.receipts.map (·.messageId) := by decide +kernel
  obtain ⟨r, hr, hid⟩ := List.mem_map.mp hstored
  refine ⟨r, hr, hid, ?_⟩
  have hfinal := (receipts_final .scripted storeOne repeatOne).2.2 r hr
  rw [hid] at hfinal ⊢
  exact hfinal (scriptedBatch (py "m")) 1 2000 .commits hidentity hvalid hnow

end Scripted

end PlcnextIot.Storage
