/-
  PlcnextIot.Devices.Runtime

  `devices/runtime.py`: transactional ownership of restartable device runners.

  A runner is known by its identity: the call of `prepare` in which the factory
  made it, and which of the objects made there it is.  Two factory calls that
  return one object give it one identity.  What a runner does is outside the
  runtime: `status` is what can be said about it from the operations that were
  called and how they ended, and `log` lists these operations with the state
  they were called in.

  How each awaited operation ends, what the factory makes and what the clock
  shows are inputs, numbered in the order in which they are asked for.
-/

import PlcnextIot.Config.Models
import PlcnextIot.Effect.Prog
import PlcnextIot.Python.Dict

namespace PlcnextIot.Devices

open PlcnextIot.Python PlcnextIot.Config PlcnextIot.Effect PlcnextIot.Effect.Prog

/-! ## Runners -/

/-- A runner object. -/
structure Runner where
  made : ℕ
  index : ℕ
  deriving DecidableEq, Repr

/-- What can be said about a runner. -/
inductive RunStatus where
  | stopped
  | running
  | unknown
  deriving DecidableEq, Repr

inductive RunnerOp where
  | start
  | stop
  deriving DecidableEq, Repr

/-- What is known of a runner after an operation.  One that did not return may
    have left it running or not. -/
def RunnerOp.leaves : RunnerOp → Bool → RunStatus
  | .start, true => .running
  | .stop, true => .stopped
  | _, false => .unknown

/-- How an awaited operation ends when it does not return: with an exception of
    its own, with `TimeoutError`, or with `CancelledError`, which is no
    `Exception`. -/
inductive RunnerExc where
  | failed
  | timedOut
  | cancelled
  deriving DecidableEq, Repr

inductive FactoryExc where
  | unsupportedDriver
  | other
  deriving DecidableEq, Repr

inductive RuntimeExc where
  | transitionPending
  | unsupportedDriver
  | factoryFailed
  | keyError
  | sharedRunner
  | notReady
  | recovery
  | runner (e : RunnerExc)
  deriving DecidableEq, Repr

/-- A runner operation, with what was known and what was managed when it was
    called. -/
structure RunnerEvent where
  op : RunnerOp
  runner : Runner
  returned : Bool
  status : Runner → RunStatus
  managed : List Runner

/-! ## State -/

/-- The part of `ProcessBootContext` that outlives a runtime. -/
structure ProcessBootContext where
  samplingSnapshot : Option ConfigSnapshot := none
  samplingGeneration : ℕ := 0
  samplingPublishedAt : ℚ := 0

/-- `RuntimeTransition`; `number` is its identity. -/
structure RuntimeTransition where
  number : ℕ
  snapshot : ConfigSnapshot
  proposed : Dict PyStr Runner
  old : Dict PyStr Runner
  stopped : List Runner := []
  started : List Runner := []
  activated : Bool := false

/-- `DeviceRuntime`, with the transition that its owner holds. -/
structure DeviceRuntime where
  boot : ProcessBootContext
  runners : Dict PyStr Runner := .empty
  managed : List Runner := []
  pending : Option ℕ := none
  snapshot : Option ConfigSnapshot := none
  sampleGeneration : ℕ := 0
  samplePublishedAt : ℚ := 0
  transition : Option RuntimeTransition := none
  prepares : ℕ := 0
  clockReads : ℕ := 0
  status : Runner → RunStatus := fun _ => .stopped
  log : List RunnerEvent := []

/-- What the runtime is given from outside. -/
structure RuntimeInputs where
  /-- `factory(device)` in the course of a call of `prepare`. -/
  factory : Option (ℕ → DeviceConfig → Except FactoryExc ℕ)
  /-- How a runner operation ends. -/
  outcome : ℕ → Except RunnerExc Unit
  /-- `time.monotonic()` -/
  monotonic : ℕ → ℚ

abbrev RuntimeM := Prog DeviceRuntime RuntimeExc

namespace RuntimeTransition

/-- The runners for which `self.proposed.get(key) is not runner`. -/
def leaving (t : RuntimeTransition) : List Runner := t.old.unmatched t.proposed

/-- The runners for which `self.old.get(key) is not runner`. -/
def arriving (t : RuntimeTransition) : List Runner := t.proposed.unmatched t.old

end RuntimeTransition

namespace DeviceRuntime

/-- A runner operation was called and ended. -/
def note (s : DeviceRuntime) (op : RunnerOp) (r : Runner) (returned : Bool) : DeviceRuntime :=
  { s with status := Function.update s.status r (op.leaves returned),
           log := s.log ++ [⟨op, r, returned, s.status, s.managed⟩] }

/-- `self._managed[id(runner)] = runner` -/
def manage (managed : List Runner) (r : Runner) : List Runner :=
  if r ∈ managed then managed else managed ++ [r]

/-- `self._managed.pop(id(runner), None)` -/
def unmanage (s : DeviceRuntime) (r : Runner) : DeviceRuntime :=
  { s with managed := s.managed.filter (· ≠ r) }

/-- Assign to a field of the transition. -/
def withTransition (s : DeviceRuntime) (f : RuntimeTransition → RuntimeTransition) :
    DeviceRuntime :=
  { s with transition := s.transition.map f }

/-- `self.stopped.append(runner)` -/
def appendStopped (s : DeviceRuntime) (r : Runner) : DeviceRuntime :=
  s.withTransition fun t => { t with stopped := t.stopped ++ [r] }

/-- `self.started.append(runner)` -/
def appendStarted (s : DeviceRuntime) (r : Runner) : DeviceRuntime :=
  s.withTransition fun t => { t with started := t.started ++ [r] }

end DeviceRuntime

open DeviceRuntime

/-- `await runner.start()`, `await runner.stop()` -/
def operate (inp : RuntimeInputs) (op : RunnerOp) (r : Runner) : RuntimeM Unit := fun s =>
  match inp.outcome s.log.length with
  | .ok () => (.ok (), s.note op r true)
  | .error e => (.error (.runner e), s.note op r false)

/-! ## `DeviceRuntime.prepare` -/

/-- `int | float`, as `==` sees it. -/
def PyNum.value : PyNum → ℚ
  | .int n => n
  | .float q => q

/-- What a driver reads of a point. -/
structure PointKey where
  pointId : PyStr
  dataType : PyStr
  pollIntervalMs : ℤ
  scale : ℚ
  offset : ℚ
  modbus : Option ModbusAddress
  opcua : Option OpcUaAddress
  deriving DecidableEq

/-- `_execution_key` -/
def executionKey (device : DeviceConfig) : PyStr × ConnectionConfig × List PointKey :=
  (device.protocol, device.connection,
    (device.points.filter (·.enabled)).map fun p =>
      ⟨p.pointId, p.dataType, p.pollIntervalMs, PyNum.value p.scale, PyNum.value p.offset,
        p.modbus, p.opcua⟩)

/-- The devices that a snapshot runs, by their ids. -/
def runningDevices (snapshot : ConfigSnapshot) : Dict PyStr DeviceConfig :=
  .ofItems ((snapshot.devices.filter fun d =>
    snapshot.enabled && d.enabled && d.points.any (·.enabled)).map fun d => (d.deviceId, d))

/-- `{d.device_id: d for d in self.snapshot.devices} if self.snapshot else {}` -/
def DeviceRuntime.oldDevices (s : DeviceRuntime) : Dict PyStr DeviceConfig :=
  match s.snapshot with
  | some snapshot => .ofItems (snapshot.devices.map fun d => (d.deviceId, d))
  | none => .empty

/-- `self._factory(device)` -/
def make (inp : RuntimeInputs) (number : ℕ) (device : DeviceConfig) : Except RuntimeExc Runner :=
  match inp.factory with
  | none => .error .unsupportedDriver
  | some factory =>
    match factory number device with
    | .ok index => .ok ⟨number, index⟩
    | .error .unsupportedDriver => .error .unsupportedDriver
    | .error .other => .error .factoryFailed

/-- The runner of a device that may go on under the new configuration. -/
def DeviceRuntime.reusable (s : DeviceRuntime) (key : PyStr) (device : DeviceConfig) :
    Except RuntimeExc (Option Runner) :=
  match s.runners.get? key with
  | none => .ok none
  | some runner =>
    match s.oldDevices.get? key with
    | none => .error .keyError
    | some old => .ok (if executionKey old = executionKey device then some runner else none)

/-- One round of the loop that fills `proposed`. -/
def DeviceRuntime.propose (s : DeviceRuntime) (inp : RuntimeInputs) (proposed : Dict PyStr Runner)
    (kd : PyStr × DeviceConfig) : Except RuntimeExc (Dict PyStr Runner) := do
  match ← s.reusable kd.1 kd.2 with
  | some runner => return proposed.set kd.1 runner
  | none => return proposed.set kd.1 (← make inp s.prepares kd.2)

/-- `DeviceRuntime.prepare` -/
def prepare (inp : RuntimeInputs) (snapshot : ConfigSnapshot) : RuntimeM Unit := do
  let s ← get
  check (s.pending = none) .transitionPending
  modify fun s => { s with prepares := s.prepares + 1 }
  let proposed ← result ((runningDevices snapshot).items.foldlM (s.propose inp) .empty)
  check proposed.values.Nodup .sharedRunner
  modify fun s' => { s' with
    managed := proposed.values.foldl manage s'.managed
    transition := some { number := s.prepares, snapshot, proposed, old := s.runners }
    pending := some s.prepares }

/-! ## `RuntimeTransition` -/

/-- A method of the transition. -/
def onTransition (f : RuntimeTransition → RuntimeM Unit) : RuntimeM Unit := do
  match ← gets (·.transition) with
  | some t => f t
  | none => raise .notReady

/-- `RuntimeTransition.activate` -/
def activate (inp : RuntimeInputs) : RuntimeM Unit := onTransition fun t => do
  each t.leaving fun r => do
    -- Listed first: a stop that raises may have stopped the runner.
    modify (·.appendStopped r)
    operate inp .stop r
  each t.arriving fun r => do
    modify (·.appendStarted r)
    operate inp .start r
  modify (·.withTransition fun t => { t with activated := true })

/-- `RuntimeTransition.rollback` -/
def rollback (inp : RuntimeInputs) : RuntimeM Unit := onTransition fun t => do
  each t.started.reverse fun r => operate inp .stop r
  -- The stop of the last one may have raised, so each is stopped again.
  each t.stopped fun r => do
    operate inp .stop r
    operate inp .start r
  each t.arriving fun r => modify (·.unmanage r)
  modify fun s => { s with pending := none }

/-- A snapshot other than the last one of the boot begins a generation. -/
def beginGeneration (inp : RuntimeInputs) (snapshot : ConfigSnapshot) : RuntimeM Unit := do
  let s ← get
  if s.boot.samplingSnapshot ≠ some snapshot then
    modify fun s => { s with
      boot := ⟨some snapshot, s.boot.samplingGeneration + 1, inp.monotonic s.clockReads⟩
      clockReads := s.clockReads + 1 }
  else pure ()

/-- The generation of the samples under the snapshot to be published. -/
def publishSampling (inp : RuntimeInputs) (snapshot : ConfigSnapshot) : RuntimeM Unit := do
  let s ← get
  if s.snapshot ≠ some snapshot then do
    beginGeneration inp snapshot
    modify fun s => { s with
      sampleGeneration := s.boot.samplingGeneration
      samplePublishedAt := s.boot.samplingPublishedAt }
  else pure ()

/-- `RuntimeTransition.publish` -/
def publish (inp : RuntimeInputs) : RuntimeM Unit := onTransition fun t => do
  let s ← get
  check (t.activated ∧ s.pending = some t.number) .notReady
  modify fun s => { s with runners := t.proposed }
  publishSampling inp t.snapshot
  modify fun s => { s with snapshot := some t.snapshot }
  each t.stopped fun r => modify (·.unmanage r)
  modify fun s => { s with pending := none }

/-! ## `DeviceRuntime.shutdown` -/

/-- Stop every runner; those whose stop raised are returned, and stay managed. -/
def stopEach (inp : RuntimeInputs) : List Runner → RuntimeM (List Runner)
  | [] => pure []
  | r :: rest => do
    let failures ← attempt
      (do operate inp .stop r
          modify (·.unmanage r)
          return [])
      fun e =>
        match e with
        | .runner .cancelled => raise e
        | _ => return [r]
    return failures ++ (← stopEach inp rest)

/-- `DeviceRuntime.shutdown` -/
def shutdown (inp : RuntimeInputs) : RuntimeM Unit := do
  let failures ← stopEach inp (← gets (·.managed))
  -- The configuration stays while one of its runners may be running.
  check (failures = []) .recovery
  modify fun s => { s with runners := .empty, pending := none, snapshot := none }

end PlcnextIot.Devices
