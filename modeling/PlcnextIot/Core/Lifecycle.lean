/-
  PlcnextIot.Core.Lifecycle

  `core/lifecycle.py`: the coordinator that takes a configuration from its
  payload through the store and the device runtime.

  One item is processed at a time; each `await` of the source is an await of
  the model, which is where `close` may be called and where the coordinator may
  be cancelled.  The store is reached through its worker, which runs the job of
  a call to its end even when the caller is cancelled, and may refuse it.  What
  the awaits bring is an input, numbered in the order in which they are met.
-/

import PlcnextIot.Config.Store
import PlcnextIot.Devices.Runtime

namespace PlcnextIot.Core

open PlcnextIot.Python PlcnextIot.Contracts PlcnextIot.Config PlcnextIot.Devices PlcnextIot.Effect
  PlcnextIot.Effect.Prog

/-! ## State -/

inductive LifecycleState where
  | new
  | starting
  | waitingConfig
  | running
  | disabled
  | applying
  | stopping
  | stopped
  | failed
  deriving DecidableEq, Repr

inductive ApplyStatus where
  | applied
  | rejected
  | failed
  deriving DecidableEq, Repr

structure ApplyResult where
  status : ApplyStatus
  activeConfigVersion : Option ℤ
  code : Option PyStr := none
  issues : List Issue := []
  appliedConfigVersion : Option ℤ := none
  activeMessageId : Option PyStr := none
  deriving DecidableEq, Repr

/-- `kind` of a submission. -/
inductive ItemKind where
  | configSet
  | configPatch
  deriving DecidableEq, Repr

/-- `AgentLifecycle`, with the store of its worker and the device runtime.
    `worker` says that the coordinator task is there to process items. -/
structure Agent where
  store : ConfigStore
  runtime : DeviceRuntime
  state : LifecycleState := .new
  lastError : Option PyStr := none
  active : Option ConfigSnapshot := none
  durableVersion : Option ℤ := some 0
  closing : Bool := false
  failed : Bool := false
  worker : Bool := false
  awaits : ℕ := 0

/-- What becomes of a call of the store worker. -/
inductive Delivery where
  | settles (fate : Fate)
  | refused
  | cancelled (fate : Fate)

/-- What the agent is given from outside. -/
structure AgentInputs where
  runtime : RuntimeInputs
  /-- The database and the worker, at an await of the store. -/
  storage : ℕ → Delivery
  /-- `close()` is called during an await. -/
  closes : ℕ → Bool

/-- What leaves the awaits of the coordinator. -/
inductive AgentExc where
  | cancelled
  | workerFull
  | store (e : StoreExc)
  | config (e : ConfigExc)
  | runtime (e : RuntimeExc)
  | lifecycle

abbrev AgentM := Prog Agent AgentExc

namespace Agent

/-- `active_message_id` -/
def activeMessageId (a : Agent) : Option PyStr :=
  match a.active with
  | some snapshot =>
    if some snapshot.configVersion = a.durableVersion then some snapshot.messageId else none
  | none => none

/-- `_result` -/
def resultOf (a : Agent) (status : ApplyStatus) (code : Option PyStr) (issues : List Issue)
    (applied : Option ℤ) : ApplyResult :=
  ⟨status, a.durableVersion, code, issues, applied, a.activeMessageId⟩

/-- `_steady` -/
def steady (a : Agent) : Agent :=
  if a.state = .failed then a
  else if a.closing then { a with state := .stopping }
  else
    match a.active with
    | none => { a with state := .waitingConfig }
    | some snapshot => { a with state := if snapshot.enabled then .running else .disabled }

/-- The synchronous part of the first call of `close`. -/
def beginClose (a : Agent) : Agent :=
  if a.closing then a
  else { a with closing := true, state := if a.state = .failed then .failed else .stopping }

end Agent

/-! ## Awaits -/

variable (inp : AgentInputs)

/-- What other tasks do during an await. -/
def Agent.suspended (a : Agent) : Agent :=
  { if inp.closes a.awaits then a.beginClose else a with awaits := a.awaits + 1 }

/-- An await: other tasks run. -/
def suspend : AgentM Unit := modify (·.suspended inp)

/-- A synchronous call of the runtime. -/
def onRuntime (x : RuntimeM Unit) : AgentM (Except RuntimeExc Unit) :=
  tried (zoom Agent.runtime (fun a r => { a with runtime := r }) x)

/-- `await self._bounded(...)` on the runtime; a cancellation is not caught. -/
def awaitRuntime (x : RuntimeM Unit) : AgentM (Except RuntimeExc Unit) := do
  suspend inp
  match ← onRuntime x with
  | .error (.runner .cancelled) => raise .cancelled
  | outcome => return outcome

/-- `_run` of the worker: the job runs to its end. -/
def job {α : Type} (x : Prog ConfigStore StoreExc α) : AgentM (Except StoreExc α) :=
  tried (zoom Agent.store (fun a s => { a with store := s }) x)

/-- `await self._storage.call(...)` -/
def call {α : Type} (x : Fate → Prog ConfigStore StoreExc α) : AgentM α := do
  let n ← gets Agent.awaits
  suspend inp
  match inp.storage n with
  | .refused => raise .workerFull
  | .settles fate =>
    match ← job (x fate) with
    | .ok a => return a
    | .error e => raise (.store e)
  | .cancelled fate =>
    -- The worker ends the job all the same.
    let _ ← job (x fate)
    raise .cancelled

variable [JsonSchema] (cfg : StoreConfig)

/-- `load_active`, which reads outside a transaction. -/
def readActive (fate : Fate) : Prog Session StoreExc (Option ConfigSnapshot) := do
  check (fate ≠ .fails) .sqlite
  result (loadActive cfg (← gets (·.tables)))

/-- `prepare_patch` or `prepare` of the store. -/
def prepareItem (kind : ItemKind) (payload : Bytes) (fate : Fate) :
    Prog Session StoreExc PrepareResult :=
  match kind with
  | .configSet => Config.prepare cfg payload fate
  | .configPatch => Config.preparePatch cfg payload fate

/-- `self._storage.call('load_active')` -/
def callLoadActive : AgentM (Option ConfigSnapshot) :=
  call inp fun fate => ConfigStore.using (readActive cfg fate)

/-- `self._storage.call('commit', token)` -/
def callCommit (token : Option PyStr) : AgentM ConfigSnapshot :=
  call inp fun fate => ConfigStore.using (Config.commit cfg (token.getD []) fate)

omit [JsonSchema] in
/-- `self._storage.call('fail', token)` -/
def callFail (token : Option PyStr) : AgentM Unit :=
  call inp fun fate => ConfigStore.using (Config.fail (token.getD []) fate)

/-- `self._storage.parse(payload)` -/
def callParse (payload : Bytes) : AgentM ConfigSnapshot := do
  let n ← gets Agent.awaits
  suspend inp
  match inp.storage n with
  | .refused => raise .workerFull
  | .settles _ =>
    match ConfigSnapshot.parse payload cfg.gatewayId with
    | .ok snapshot => return snapshot
    | .error e => raise (.config e)
  | .cancelled _ => raise .cancelled

/-! ## Failures -/

section Failures

omit [JsonSchema]

/-- `_fatal` -/
def fatal (code : String) : AgentM Unit := do
  modify fun a => { a with state := .failed, lastError := some (py code) }
  match ← awaitRuntime inp (Devices.shutdown inp.runtime) with
  | .ok () => pure ()
  | .error _ => modify fun a => { a with lastError := some (py "SHUTDOWN_FAILED") }
  modify fun a => { a with failed := true }

/-- `self._result("FAILED", code)` after `_fatal`. -/
def fatalResult (fatalCode code : String) : AgentM ApplyResult := do
  fatal inp fatalCode
  gets fun a => a.resultOf .failed (some (py code)) [] none

/-- `self._steady()` and the result after it. -/
def steadyResult (status : ApplyStatus) (code : Option PyStr) (issues : List Issue)
    (applied : Option ℤ) : AgentM ApplyResult := do
  modify Agent.steady
  gets fun a => a.resultOf status code issues applied

/-- `_restore` -/
def restore (token : Option PyStr) (code : String) : AgentM ApplyResult := do
  match ← awaitRuntime inp (Devices.rollback inp.runtime) with
  | .error _ =>
    -- The candidate is failed, and whether that succeeds makes no difference.
    match ← tried (callFail inp token) with
    | .error .cancelled => raise .cancelled
    | _ => fatalResult inp "ROLLBACK_FAILED" "ROLLBACK_FAILED"
  | .ok () =>
    match ← tried (callFail inp token) with
    | .error .cancelled => raise .cancelled
    | .error _ => fatalResult inp "STORAGE_ERROR" "STORAGE_ERROR"
    | .ok () => steadyResult .failed (some (py code)) [] none

/-- The runtime refused the candidate. -/
def preflightFailed (token : Option PyStr) (e : RuntimeExc) : AgentM ApplyResult := do
  match ← tried (callFail inp token) with
  | .error .cancelled => raise .cancelled
  | .error _ => fatalResult inp "STORAGE_ERROR" "STORAGE_ERROR"
  | .ok () =>
    let code := if e = .unsupportedDriver then "UNSUPPORTED_DRIVER" else "PREFLIGHT_FAILED"
    steadyResult .rejected (some (py code)) [] none

end Failures

/-! ## `_apply` -/

section Apply

omit [JsonSchema] in
/-- Publish runtime and version as one loop turn. -/
def publishCommitted (kind : ItemKind) (committed : ConfigSnapshot) : AgentM ApplyResult := do
  modify fun a => { a with durableVersion := some committed.configVersion }
  match ← onRuntime (Devices.publish inp.runtime) with
  | .error e => raise (.runtime e)
  | .ok () =>
    modify fun a => { a with active := some committed }
    steadyResult .applied none []
      (if kind = .configPatch then some committed.configVersion else none)

omit [JsonSchema] in
/-- The commit raised, and another version is active. -/
def commitMissing (token : Option PyStr) (committed : Option ConfigSnapshot) :
    AgentM ApplyResult := do
  let a ← get
  -- The commit has not happened: back to the old configuration.
  if committed = a.active then restore inp token "STORAGE_ERROR"
  else do
    modify fun a => { a with durableVersion := some ((committed.map (·.configVersion)).getD 0) }
    fatalResult inp "UNEXPECTED_COMMITTED_VERSION" "COMMIT_OUTCOME_UNKNOWN"

/-- The commit raised.  A commit notification failure need not imply a failed
    database commit. -/
def commitRaised (kind : ItemKind) (snapshot : ConfigSnapshot) (token : Option PyStr) :
    AgentM ApplyResult := do
  match ← tried (callLoadActive inp cfg) with
  | .error .cancelled => raise .cancelled
  | .error _ => do
    modify fun a => { a with durableVersion := none }
    fatalResult inp "COMMIT_OUTCOME_UNKNOWN" "COMMIT_OUTCOME_UNKNOWN"
  | .ok none => commitMissing inp token none
  | .ok (some committed) =>
    if committed.configVersion = snapshot.configVersion ∧
        committed.contentJson = snapshot.contentJson then publishCommitted inp kind committed
    else commitMissing inp token (some committed)

/-- The commit of an activated candidate. -/
def commitCandidate (kind : ItemKind) (snapshot : ConfigSnapshot) (token : Option PyStr) :
    AgentM ApplyResult := do
  match ← tried (callCommit inp cfg token) with
  | .ok committed => publishCommitted inp kind committed
  | .error .cancelled => raise .cancelled
  | .error _ => commitRaised inp cfg kind snapshot token

/-- A prepared candidate: preflight, activation, commit. -/
def applyCandidate (kind : ItemKind) (snapshot : ConfigSnapshot) (token : Option PyStr) :
    AgentM ApplyResult := do
  match ← onRuntime (Devices.prepare inp.runtime snapshot) with
  | .error e => preflightFailed inp token e
  | .ok () =>
    match ← awaitRuntime inp (Devices.activate inp.runtime) with
    | .error e =>
      restore inp token (if e = .runner .timedOut then "APPLY_TIMEOUT" else "APPLY_FAILED")
    | .ok () => commitCandidate inp cfg kind snapshot token

omit [JsonSchema] in
/-- The store answered that the version is the active one, or was. -/
def alreadyApplied (prepared : PrepareResult) : AgentM ApplyResult := do
  let a ← get
  if a.active.map (·.configVersion) ≠ some prepared.activeConfigVersion then
    fatalResult inp "RUNTIME_VERSION_MISMATCH" "RUNTIME_VERSION_MISMATCH"
  else steadyResult .applied none [] prepared.appliedConfigVersion

/-- `_apply`, after the store answered. -/
def applyPrepared (kind : ItemKind) (payload : Bytes) (prepared : PrepareResult) :
    AgentM ApplyResult :=
  match prepared.status with
  | .rejected => steadyResult .rejected prepared.code prepared.issues none
  | .applied => alreadyApplied inp prepared
  | .prepared => do
    match kind, prepared.snapshot with
    -- The worker parses a `configSet` once more.
    | .configSet, _ => applyCandidate inp cfg kind (← callParse inp cfg payload) prepared.token
    | .configPatch, some snapshot => applyCandidate inp cfg kind snapshot prepared.token
    | .configPatch, none => preflightFailed inp prepared.token .keyError

omit [JsonSchema] in
/-- The classes of the store's own exceptions. -/
def storeFailed (e : StoreExc) : AgentM ApplyResult :=
  match e with
  | .format _ => fatalResult inp "STORAGE_CORRUPT" "STORAGE_ERROR"
  | .storeError | .identity | .invalidCandidate _ =>
    steadyResult .failed (some (py "STORAGE_ERROR")) [] none
  | .inUse | .sqlite | .attributeError | .python _ => raise (.store e)

/-- `_apply` -/
def apply (kind : ItemKind) (payload : Bytes) : AgentM ApplyResult := do
  modify fun a => { a with state := if a.closing then .stopping else .applying }
  match ← tried (call inp fun fate => ConfigStore.using (prepareItem cfg kind payload fate)) with
  | .ok prepared => applyPrepared inp cfg kind payload prepared
  | .error (.store e) => storeFailed inp e
  | .error e => raise e

end Apply

/-! ## The coordinator task -/

/-- One round of `_serve`: the result of an item. -/
def serve (kind : ItemKind) (payload : Bytes) : AgentM ApplyResult := do
  match ← tried (apply inp cfg kind payload) with
  | .ok r => return r
  | .error .cancelled => do
    modify fun a => { a with durableVersion := none }
    fatalResult inp "COORDINATOR_CANCELLED" "COMMIT_OUTCOME_UNKNOWN"
  | .error _ => fatalResult inp "COORDINATOR_FAILED" "INTERNAL_ERROR"

/-- The coordinator takes an item.  It ends after a fatal error; what it does
    not take is answered without the store. -/
def process (kind : ItemKind) (payload : Bytes) : AgentM ApplyResult := do
  let a ← get
  if a.worker = false then return a.resultOf .rejected (some (py "NOT_RUNNING")) [] none
  else do
    suspend inp
    let outcome ← tried (serve inp cfg kind payload)
    modify fun a => { a with worker := a.state ≠ .failed }
    result outcome

omit [JsonSchema] in
/-- The runtime of the stored configuration. -/
def activateStored (snapshot : Option ConfigSnapshot) : AgentM Unit :=
  match snapshot with
  | none => pure ()
  | some active => do
    match ← onRuntime (Devices.prepare inp.runtime active) with
    | .error e => raise (.runtime e)
    | .ok () =>
      match ← awaitRuntime inp (Devices.activate inp.runtime) with
      | .error e => raise (.runtime e)
      | .ok () =>
        match ← onRuntime (Devices.publish inp.runtime) with
        | .error e => raise (.runtime e)
        | .ok () => modify fun a => { a with active := some active }

/-- `_start`, without its handler. -/
def startup : AgentM Unit := do
  call inp fun fate => ConfigStore.open cfg fate
  let snapshot ← callLoadActive inp cfg
  modify fun a => { a with durableVersion := some ((snapshot.map (·.configVersion)).getD 0) }
  activateStored inp snapshot
  modify fun a => { a.steady with worker := true }

/-- `start` -/
def start : AgentM Unit := do
  let a ← get
  check (a.state = .new ∧ a.closing = false) .lifecycle
  modify fun a => { a with state := .starting }
  match ← tried (startup inp cfg) with
  | .ok () => pure ()
  | .error _ => do
    fatal inp "STARTUP_FAILED"
    modify fun a => { a with store := a.store.shut }
    raise .lifecycle

end PlcnextIot.Core
