/-
  PlcnextIot.Reporting.Engine

  `ReportEngine` of `reporting/engine.py`: which events are reported, and in which
  batches.

  `accept` compares an event with the baseline of its point and with its report
  slots, and queues a selected event; `prepare` encodes the queued events into frozen
  batches; `committed` hands a batch over.  What a configuration learns about its
  points (`Maps`) is kept in the boot context, where the next engine finds it.

  Times are rational milliseconds.  The last fields of `Engine` and `Maps` are no part
  of the program: they list what was offered, admitted and handed over, and what was
  charged to the report slots.
-/

import PlcnextIot.Points.Buffer
import PlcnextIot.Config.Models
import PlcnextIot.Effect.Run

namespace PlcnextIot.Reporting

open PlcnextIot.Python PlcnextIot.Config PlcnextIot.Points PlcnextIot.Effect PlcnextIot.Effect.Prog

/-! ## Identities -/

/-- `_identity` -/
abbrev Identity := Option PyStr × Option ℤ

/-- `(config_version, config_generation, time_generation)` -/
abbrev Epoch := ℤ × ℤ × ℤ

/-- `(device_id, point_id)` -/
abbrev Key := PyStr × PyStr

def identity (s : Sample) : Identity := (s.captureBootId, s.sampleSeq)

def epochOf (s : Sample) : Epoch := (s.configVersion, s.configGeneration, s.timeGeneration)

def keyOf (s : Sample) : Key := (s.deviceId, s.pointId)

/-- `sample.sample_seq`, which `accept` has found to be present. -/
def seqOf (s : Sample) : ℤ := s.sampleSeq.getD 0

/-! ## State -/

structure ReportBatch where
  payload : Bytes
  version : ℤ
  samples : List Sample
  preparedAt : ℚ
  sequence : ℤ
  deriving DecidableEq, Repr

/-- A report slot that a selected event served: its nominal slot, the grid slot it is
    charged to, and the slots before that one which nothing served. -/
structure SlotCharge where
  nominal : ℤ
  slot : ℤ
  missed : ℤ
  deriving DecidableEq, Repr

/-- The report slots of a point since its epoch began. -/
structure Grid where
  origin : ℤ := 0
  charges : List SlotCharge := []

/-- The maps of a `report_checkpoint`. -/
structure Maps where
  baselines : Dict Key Sample := .empty
  epochs : Dict Key Epoch := .empty
  seen : Dict Key ℤ := .empty
  nextDue : Dict Key ℤ := .empty
  grids : Key → Grid := fun _ => {}

/-- `checkpoint['identity']` -/
abbrev CheckpointId := Option ConfigSnapshot × Option ℤ

structure Engine where
  gateway : PyStr
  bootId : PyStr
  capacity : ℕ := 32768
  maxBytes : ℕ := 32 * 1024 * 1024
  usedBytes : ℤ := 0
  /-- `boot_context.accounting` -/
  accounting : Accounting
  /-- `boot_context._sequence` -/
  sequence : ℤ := 0
  /-- `boot_context.report_checkpoint`.  Once the engine is configured, its maps are
      those of the checkpoint, and `maps` is what they hold. -/
  checkpoint : Option (CheckpointId × Maps) := none
  attached : Bool := false
  refs : Dict Identity (Sample × ℤ) := .empty
  snapshot : Option ConfigSnapshot := none
  generation : Option ℤ := none
  points : Dict Key PointConfig := .empty
  latest : Dict Key Sample := .empty
  shadows : Dict Key Sample := .empty
  maps : Maps := {}
  owned : Dict Identity Sample := .empty
  queue : List (Sample × ℤ) := []
  history : List (Sample × ℤ) := []
  frozen : Dict ℤ ReportBatch := .empty
  owners : Dict (Epoch × Key) (Dict ℤ Sample) := .empty
  classes : Dict ℤ Category := .empty
  preferNew : Bool := true
  watermark : ℤ := 0
  nextBatch : ℚ := 0
  discarded : ℤ := 0
  cacheResetPoints : ℤ := 0
  eligibleEvents : ℤ := 0
  policyFilteredEvents : ℤ := 0
  knownUnsentEvents : ℤ := 0
  timeInvalidEvents : ℤ := 0
  missedReportSlots : ℤ := 0
  admissionRejectedEvents : ℤ := 0
  /-- How many identifiers `uuid4` has drawn for it. -/
  batchIds : ℕ := 0
  offered : List Sample := []
  admitted : List Sample := []
  handed : List ReportBatch := []

inductive EngineExc where
  | value (text : String)
  | runtime (text : String)
  | key
  | type
  | zeroDivision
  | unicode
  deriving DecidableEq, Repr

/-- What `uuid4().hex` draws. -/
structure EngineInputs where
  hex : ℕ → PyStr

abbrev EngineM := Prog Engine EngineExc

/-- What is kept of `max_bytes` for frozen batches. -/
def Engine.reserve (e : Engine) : ℤ := min (2 * 1024 * 1024) (e.maxBytes / 8 : ℕ)

def Engine.setMaps (e : Engine) (f : Maps → Maps) : Engine := { e with maps := f e.maps }

/-! ## Reference counts -/

section Counts

variable [EventCharge]

/-- `_retain` -/
def retain (s : Sample) : EngineM Unit := modify fun e =>
  match e.refs.get? (identity s) with
  | some (held, n) => { e with refs := e.refs.set (identity s) (held, n + 1) }
  -- The first reference is charged.
  | none =>
    { e with refs := e.refs.set (identity s) (s, 1), usedBytes := e.usedBytes + eventCharge s }

/-- `_forget` -/
def forget (s : Sample) : EngineM Unit := do
  let e ← get
  match e.refs.get? (identity s) with
  | none => raise .key
  | some (held, n) =>
    if n - 1 = 0 then
      modify fun e => { e with
        usedBytes := e.usedBytes - eventCharge s, refs := e.refs.erase (identity s) }
    else modify fun e => { e with refs := e.refs.set (identity s) (held, n - 1) }

/-- `if old is not None: self._forget(old)` -/
def forgetOld : Option Sample → EngineM Unit
  | some old => forget old
  | none => pure ()

/-- `_can_admit` -/
def Engine.canAdmit (e : Engine) (s : Sample) : Bool :=
  let charge : ℤ := if (e.refs.get? (identity s)).isSome then 0 else eventCharge s
  e.owned.items.length < e.capacity && e.usedBytes + charge ≤ e.maxBytes - e.reserve

/-! ## `configure` -/

/-- The enabled points of a snapshot. -/
def enabledPoints (snapshot : Option ConfigSnapshot) : Dict Key PointConfig :=
  match snapshot with
  | none => .empty
  | some c => .ofItems <| c.devices.flatMap fun d =>
      (d.points.filter fun p => c.enabled && d.enabled && p.enabled).map fun p =>
        ((d.deviceId, p.pointId), p)

/-- `now + batch_interval_ms / 1000`, and a second without a snapshot. -/
def Engine.batchDue (e : Engine) (now : ℚ) : ℚ :=
  now + (e.snapshot.map fun c => (c.report.batchIntervalMs : ℚ)).getD 1000

/-- `boot_context.report_checkpoint` as it stands. -/
def Engine.current (e : Engine) : Option (CheckpointId × Maps) :=
  if e.attached then e.checkpoint.map fun c => (c.1, e.maps) else e.checkpoint

/-- The maps that `configure` takes: those of the checkpoint, if it is for this
    configuration, or new ones. -/
def Engine.resume (e : Engine) (id : CheckpointId) : Maps :=
  match e.current with
  | some (held, maps) => if held = id then maps else {}
  | none => {}

/-- `configure` -/
def configure (snapshot : Option ConfigSnapshot) (now : ℚ) (generation : Option ℤ) :
    EngineM Unit := do
  let e ← get
  if snapshot = e.snapshot ∧ generation = e.generation then pure ()
  else do
    modify fun e => { e with
      cacheResetPoints := e.cacheResetPoints + e.latest.items.length
      snapshot, generation, points := enabledPoints snapshot }
    each e.latest.values forget
    each e.maps.baselines.values forget
    -- The same configuration goes on with the baselines that it had.
    let maps := e.resume (snapshot, generation)
    modify fun e => { e with
      latest := .empty, shadows := .empty, maps, attached := true
      checkpoint := some ((snapshot, generation), maps) }
    each maps.baselines.values retain
    modify fun e => { e with nextBatch := e.batchDue now }

/-! ## `accept` -/

/-- `open_gate` -/
def openGate (watermark : ℤ) : EngineM Unit := modify fun e => { e with
  watermark, history := e.history ++ e.queue, queue := []
  classes := .ofItems (e.frozen.items.map fun kv => (kv.1, .history)) }

/-- The sample does not belong to the configuration that is reported. -/
def Engine.foreign (e : Engine) (s : Sample) : Bool :=
  s.gatewayId != some e.gateway || e.snapshot.all (fun c => s.configVersion != c.configVersion)
    || (e.points.get? (keyOf s)).isNone || e.generation.any (fun g => s.configGeneration != g)

/-- The first sample of another epoch starts its point anew. -/
def enterEpoch (s : Sample) : EngineM Unit := do
  let e ← get
  if e.maps.epochs.get? (keyOf s) = some (epochOf s) then pure ()
  else do
    -- The point has no baseline any more, and its slots begin at the new origin.
    let old := e.maps.baselines.get? (keyOf s)
    modify (·.setMaps fun m => { m with
      epochs := m.epochs.set (keyOf s) (epochOf s), baselines := m.baselines.erase (keyOf s) })
    forgetOld old
    modify fun e => { e.setMaps (fun m => { m with
      nextDue := m.nextDue.set (keyOf s) (s.nominalOriginMonoMs.getD 0)
      grids := Function.update m.grids (keyOf s) ⟨s.nominalOriginMonoMs.getD 0, []⟩ }) with
      shadows := e.shadows.erase (keyOf s) }

/-- The view of the newest samples, which never takes from the reserve. -/
def showLatest (s : Sample) : EngineM Unit := do
  let e ← get
  let old := e.latest.get? (keyOf s)
  modify fun e => { e with latest := e.latest.erase (keyOf s) }
  forgetOld old
  -- Without room there is no view of the point, and the sample goes on.
  let e ← get
  if e.usedBytes + eventCharge s ≤ e.maxBytes - e.reserve then do
    modify fun e => { e with latest := e.latest.set (keyOf s) s }
    retain s
  else pure ()

/-- `_baseline` -/
def Engine.baseline (e : Engine) (key : Key) : Option Sample :=
  match e.shadows.get? key, e.maps.baselines.get? key with
  | some shadow, some durable => some (if seqOf shadow < seqOf durable then durable else shadow)
  | some shadow, none => some shadow
  | none, durable => durable

variable [FloatArith]

/-- `-x` -/
def negated : PyFloat → PyFloat
  | .finite q => if q = 0 then .negZero else .finite (-q)
  | .negZero => .finite 0
  | .inf negative => .inf !negative
  | .nan => .nan

def deadbandOf : PyNum → ℚ
  | .int n => n
  | .float q => q

/-- `abs(x - y) > deadband` -/
def beyond (x y : PyFloat) (deadband : PyNum) : Bool :=
  match FloatArith.add x (negated y) with
  | .finite d => deadbandOf deadband < |d|
  | .negZero => deadbandOf deadband < 0
  | .inf _ => true
  | .nan => false

/-- The change of two values of quality GOOD, each a `bool` or a float. -/
def changed (new old : Option Value) (deadband : PyNum) : Except EngineExc Bool :=
  match new, old with
  | some (.bool x), some (.bool y) => .ok (x != y)
  | some (.bool _), _ => .ok true
  | _, some (.bool _) => .ok true
  | some (.float x), some (.float y) => .ok (beyond x y deadband)
  | _, _ => .error .type

/-- What the comparison with the baseline says of a sample. -/
def differs (baseline : Option Sample) (s : Sample) (p : PointConfig) : Except EngineExc Bool :=
  match baseline with
  | none => .ok true
  | some b =>
    if b.quality ≠ s.quality then .ok true
    else if s.quality = .good ∧ (p.reportMode = py "change" ∨ p.reportMode = py "change_or_cyclic")
    then changed s.value b.value p.deadband
    else .ok false

/-- The cyclic rule: a physical result of a due slot is selected, and the slots up to
    its own are consumed. -/
def serveSlot (s : Sample) (p : PointConfig) : EngineM Bool := do
  if p.reportMode ≠ py "change" ∧ s.kind = .physicalResult then
    match s.nominalPollDueMonoMs with
    | none => raise (.value "Invalid physical slot")
    | some q => do
      check (q ≤ s.completedMonoMs.getD 0) (.value "Invalid physical slot")
      let e ← get
      match e.maps.nextDue.get? (keyOf s) with
      | none => raise .key
      | some due =>
        if due ≤ q then do
          check (p.reportIntervalMs ≠ 0) .zeroDivision
          -- The slots up to `q` are served by this one result; all but the last are missed.
          let count := Int.fdiv (q - due) p.reportIntervalMs + 1
          modify fun e => { e with missedReportSlots := e.missedReportSlots + (count - 1) }
          check (0 ≤ count - 1) (.value "Counter increment must be a nonnegative integer")
          modify fun e => { e.setMaps (fun m => { m with
            nextDue := m.nextDue.set (keyOf s) (due + count * p.reportIntervalMs)
            grids := Function.update m.grids (keyOf s)
              { m.grids (keyOf s) with
                charges := (m.grids (keyOf s)).charges ++
                  [⟨q, due + (count - 1) * p.reportIntervalMs, count - 1⟩] } }) with
            accounting := e.accounting.add .missedReportSlots (count - 1) }
          return true
        else return false
  else return false

/-- The comparison and the cyclic rule. -/
def select (s : Sample) (p : PointConfig) : EngineM Bool := do
  let e ← get
  let changed ← result (differs (e.baseline (keyOf s)) s p)
  let served ← serveSlot s p
  return changed || served

/-- The event is owned and queued, behind those of its class. -/
def own (s : Sample) : EngineM Unit := do
  modify fun e => { e with owned := e.owned.set (identity s) s, admitted := e.admitted ++ [s] }
  retain s
  modify fun e =>
    let group := (epochOf s, keyOf s)
    let limit := min 500 ((e.snapshot.map (·.report.maxBatchPoints)).getD 500)
    let e := { e with
      owners := e.owners.set group (((e.owners.get? group).getD .empty).set (seqOf s) s)
      shadows := e.shadows.set (keyOf s) s }
    -- It was captured before the gate was opened.
    if seqOf s ≤ e.watermark then { e with history := e.history ++ [(s, limit)] }
    else { e with queue := e.queue ++ [(s, limit)] }

variable [Footprint]

/-- What becomes of a sample after the selection. -/
def conclude (s : Sample) (selected : Bool) : EngineM Bool := do
  if ¬ selected then do
    modify fun e => { e with
      policyFilteredEvents := e.policyFilteredEvents + 1, accounting := e.accounting.filtered s }
    return false
  else do
    modify fun e => { e with eligibleEvents := e.eligibleEvents + 1 }
    if s.timestamp.isNone ∨ ¬ (s.timeValid ∨ s.timeSource = .systemRtcCompat) then do
      modify fun e => { e with
        timeInvalidEvents := e.timeInvalidEvents + 1, knownUnsentEvents := e.knownUnsentEvents + 1
        accounting := e.accounting.refused s .timeInvalid }
      return false
    else do
      let e ← get
      if ¬ e.canAdmit s then do
        modify fun e => { e with
          admissionRejectedEvents := e.admissionRejectedEvents + 1
          knownUnsentEvents := e.knownUnsentEvents + 1
          accounting := e.accounting.refused s .capacityEviction }
        return false
      else do
        modify fun e => { e with accounting := e.accounting.admitted s }
        -- An event that has been decided already is not taken in.
        if e.accounting.awaits s then do
          own s
          return true
        else return false

/-- `accept` -/
def accept (s : Sample) : EngineM Bool := do
  modify fun e => { e with offered := e.offered ++ [s] }
  let e ← get
  if e.foreign s then do
    modify fun e => { e with
      discarded := e.discarded + 1, accounting := e.accounting.undecided s false }
    return false
  else do
    check (s.captureBootId.isSome ∧ s.sampleSeq.isSome ∧ s.completedMonoMs.isSome ∧
      s.nominalOriginMonoMs.isSome)
      (.value "Reporting requires a captured event identity and scheduler origin")
    check (s.captureBootId = some e.bootId)
      (.value "Capture boot differs from reporting process boot")
    -- A sample that was offered before.
    if seqOf s ≤ (e.maps.seen.get? (keyOf s)).getD 0 then return false
    else do
      modify (·.setMaps fun m => { m with seen := m.seen.set (keyOf s) (seqOf s) })
      enterEpoch s
      showLatest s
      match e.points.get? (keyOf s) with
      | none => raise .key
      | some p => do
        let selected ← select s p
        conclude s selected

end Counts

/-! ## `prepare` -/

/-- The text of a quality. -/
def qualityText : Quality → PyStr
  | .good => py "GOOD"
  | .badTimeout => py "BAD_TIMEOUT"
  | .badConnection => py "BAD_CONNECTION"
  | .badProtocol => py "BAD_PROTOCOL"
  | .badDecode => py "BAD_DECODE"
  | .badConfiguration => py "BAD_CONFIGURATION"
  | .stale => py "STALE"
  | .unknown => py "UNKNOWN"

/-- A value as JSON, which has no infinity and no NaN. -/
def valueJson : Option Value → Except EngineExc Json
  | none => .ok .null
  | some (.bool b) => .ok (.bool b)
  | some (.int n) => .ok (.int n)
  | some (.float (.finite q)) => .ok (.float q)
  | some (.float .negZero) => .ok .negZero
  | some (.float _) => .error (.value "Out of range float values are not JSON compliant")

/-- The entry of an event in `values`. -/
def entryJson (s : Sample) : Except EngineExc Json := do
  let value ← valueJson s.value
  return .obj [(py "deviceId", .str s.deviceId), (py "pointId", .str s.pointId),
    (py "timestamp", s.timestamp.elim .null .int), (py "value", value),
    (py "quality", .str (qualityText s.quality))]

/-- `encode` of `messaging/messages.py` -/
def encode (j : Json) : Except EngineExc Bytes :=
  match utf8Encode (dumps j) with
  | some bytes => .ok bytes
  | none => .error .unicode

def maxPayload : ℕ := 131072

/-- A batch while its events are collected. -/
structure Scan where
  pending : List Sample := []
  size : ℕ := 512
  limit : ℤ := 500

/-- The next event does not go into the batch. -/
def Scan.ends (c : Scan) (s : Sample) (sampleLimit : ℤ) (length : ℕ) : Bool :=
  match c.pending with
  | [] => false
  | first :: _ =>
    c.pending.any (fun t => keyOf t = keyOf s) || s.configVersion != first.configVersion ||
      min c.limit sampleLimit ≤ c.pending.length || maxPayload < c.size + length

def scan : List (Sample × ℤ) → Scan → Except EngineExc (List Sample)
  | [], c => .ok c.pending
  | (s, sampleLimit) :: rest, c => do
    let entry ← entryJson s
    let bytes ← encode entry
    let length := bytes.length + 1
    if c.ends s sampleLimit length then .ok c.pending
    else scan rest ⟨c.pending ++ [s], c.size + length, min c.limit sampleLimit⟩

/-- The payload of a batch. -/
def batchPayload (gateway bootId messageId : PyStr) (wallMs sequence : ℤ) (pending : List Sample) :
    Except EngineExc Bytes := do
  let values ← pending.mapM entryJson
  encode (.obj [(py "schemaVersion", .int 1), (py "gatewayId", .str gateway),
    (py "timestamp", .int wallMs), (py "messageId", .str messageId), (py "bootId", .str bootId),
    (py "sequence", .int sequence),
    (py "configVersion", .int ((pending.head?.map (·.configVersion)).getD 0)),
    (py "values", .arr values)])

namespace Engine

/-- The queue of a class. -/
def classQueue (e : Engine) : Category → List (Sample × ℤ)
  | .new => e.queue
  | .history => e.history

/-- How many frozen batches are of a class. -/
def frozenOf (e : Engine) (c : Category) : ℕ := e.classes.values.count c

def available (e : Engine) (c : Category) : Bool :=
  !(e.classQueue c).isEmpty && e.frozenOf c < 7

def preferred (e : Engine) : Category := if e.preferNew then .new else .history

/-- The class of the next batch. -/
def nextClass (e : Engine) : Option Category :=
  if 8 ≤ e.frozen.items.length then none
  else if e.available e.preferred then some e.preferred
  else [Category.new, .history].find? e.available

/-- The first `n` events of a class are taken off its queue. -/
def popQueue (e : Engine) (c : Category) (n : ℕ) : Engine :=
  match c with
  | .new => { e with queue := e.queue.drop n }
  | .history => { e with history := e.history.drop n }

end Engine

/-- The charge of a frozen batch. -/
def batchCharge (b : ReportBatch) : ℤ := b.payload.length + 256 + 8 * b.samples.length

variable [Footprint]

/-- The loop of `prepare`, with the batches it has so far.  An iteration freezes a
    batch, and there is room for `fuel` of them. -/
def materialize (inp : EngineInputs) (now : ℚ) (wallMs : ℤ) :
    ℕ → List ReportBatch → EngineM (List ReportBatch)
  | 0, batches => return batches
  | fuel + 1, batches => do
    let e ← get
    match e.nextClass with
    | none => return batches
    | some category => do
      let pending ← result (scan ((e.classQueue category).take 500) {})
      check (e.sequence < Contracts.maxSafe)
        (.value "Telemetry sequence exhausted for this process boot")
      let sequence := e.sequence + 1
      let messageId := py "batch-" ++ inp.hex e.batchIds
      modify fun e => { e with sequence, batchIds := e.batchIds + 1 }
      let payload ← result (batchPayload e.gateway e.bootId messageId wallMs sequence pending)
      check (payload.length ≤ maxPayload) (.value "Telemetry batch exceeds byte limit")
      let batch : ReportBatch :=
        ⟨payload, (pending.head?.map (·.configVersion)).getD 0, pending, now, sequence⟩
      -- The number is drawn, and its batch is not frozen.
      if e.maxBytes < e.usedBytes + batchCharge batch then return batches
      else do
        modify fun e => { e with
          frozen := e.frozen.set sequence batch
          accounting := e.accounting.materialized sequence messageId }
        -- The batch stays frozen when the accounting has no place for it.
        check (e.accounting.frozenFull = false)
          (.runtime "Frozen-batch accounting capacity exhausted")
        modify fun e => ({ e with
          classes := e.classes.set sequence category
          usedBytes := e.usedBytes + batchCharge batch
          preferNew := decide (category ≠ Category.new) } : Engine).popQueue category pending.length
        materialize inp now wallMs fuel (batches ++ [batch])

/-- `prepare` -/
def prepare (inp : EngineInputs) (now : ℚ) (wallMs : ℤ) (force : Bool) :
    EngineM (List ReportBatch) := do
  let e ← get
  if ¬ force ∧ now < e.nextBatch then return []
  else do
    modify fun e => { e with nextBatch := e.batchDue now }
    materialize inp now wallMs (8 - e.frozen.items.length) e.frozen.values

/-! ## `committed` and `abandon` -/

/-- `owners[max(owners)]` -/
def newestOwner (owners : Dict ℤ Sample) : Option Sample := owners.keys.max?.bind owners.get?

section Hand

variable [EventCharge]

/-- `_release` -/
def release (s : Sample) : EngineM Unit := do
  modify fun e => { e with owned := e.owned.erase (identity s) }
  forget s
  let e ← get
  let group := (epochOf s, keyOf s)
  match e.owners.get? group with
  | none => raise .key
  | some owners => do
    let rest := owners.erase (seqOf s)
    modify fun e => { e with
      owners := if rest.items = [] then e.owners.erase group else e.owners.set group rest }
    -- Samples of an earlier epoch have no shadow.
    if e.maps.epochs.get? (keyOf s) = some (epochOf s) then
      modify fun e => { e with
        shadows := match newestOwner rest with
          | some newest => e.shadows.set (keyOf s) newest
          | none => e.shadows.erase (keyOf s) }
    else pure ()

/-- A handed over sample of the current epoch is the baseline, unless a newer one is. -/
def keepBaseline (s : Sample) : EngineM Unit := do
  let e ← get
  if e.maps.epochs.get? (keyOf s) = some (epochOf s) then do
    let old := e.maps.baselines.get? (keyOf s)
    if old.all fun old => seqOf old < seqOf s then do
      forgetOld old
      modify (·.setMaps fun m => { m with baselines := m.baselines.set (keyOf s) s })
      retain s
    else pure ()
  else pure ()

/-- `committed` -/
def committed (batch : ReportBatch) : EngineM Unit := do
  let e ← get
  if e.frozen.get? batch.sequence = some batch then do
    modify fun e => { e with
      frozen := e.frozen.erase batch.sequence, classes := e.classes.erase batch.sequence
      usedBytes := e.usedBytes - batchCharge batch, handed := e.handed ++ [batch] }
    each batch.samples fun s => do
      keepBaseline s
      release s
  else pure ()

/-- `abandon` -/
def abandon : EngineM ℕ := do
  let e ← get
  modify fun e => { e with
    accounting := e.accounting.abandon e.owned.values e.frozen.keys
    knownUnsentEvents := e.knownUnsentEvents + e.owned.items.length }
  -- The references of the baselines stay.
  each e.owned.values forget
  modify fun e => { e with
    usedBytes := e.usedBytes - (e.frozen.values.map batchCharge).sum
    queue := [], history := [], frozen := .empty, classes := .empty
    owned := .empty, owners := .empty, shadows := .empty }
  return e.owned.items.length

end Hand

/-! ## Calls -/

/-- A new engine on the same boot context, with the same limits. -/
def Engine.reload (e : Engine) : Engine :=
  { gateway := e.gateway, bootId := e.bootId, capacity := e.capacity, maxBytes := e.maxBytes
    accounting := e.accounting, sequence := e.sequence, checkpoint := e.current
    batchIds := e.batchIds, offered := e.offered }

/-- What the service and the other owners of the boot context do with an engine.
    `share` is anything that sampling and storage do to the accounting. -/
inductive EngineCall where
  | configure (snapshot : Option ConfigSnapshot) (now : ℚ) (generation : Option ℤ)
  | accept (s : Sample)
  | openGate (watermark : ℤ)
  | prepare (now : ℚ) (wallMs : ℤ) (force : Bool)
  | committed (batch : ReportBatch)
  | abandon
  | reload
  | share (accounting : Accounting)

variable [EventCharge] [FloatArith]

def EngineCall.exec (inp : EngineInputs) : EngineCall → EngineM (List ReportBatch)
  | .configure snapshot now generation => do
    Reporting.configure snapshot now generation
    return []
  | .accept s => do
    let _ ← Reporting.accept s
    return []
  | .openGate watermark => do
    Reporting.openGate watermark
    return []
  | .prepare now wallMs force => Reporting.prepare inp now wallMs force
  | .committed batch => do
    Reporting.committed batch
    return []
  | .abandon => do
    let _ ← Reporting.abandon
    return []
  | .reload => do
    modify Engine.reload
    return []
  | .share accounting => do
    modify fun e => { e with accounting }
    return []

end PlcnextIot.Reporting
