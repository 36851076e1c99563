/-
  PlcnextIot.Points.Events

  `PointEvents` of `points/events.py`: the events that a runner puts for its points.
  The first activation of a configuration puts UNKNOWN for each of them, every read
  its result, and a point without a result for too long STALE.

  The maps of an activation are kept in the boot context, and a runner that is made
  anew for the same configuration goes on with them.  So they are sources here,
  numbered as they are made, and a runner's `PointEvents` holds one of them.

  The event loop's clock counts seconds in floats.  A time here is that float, in
  milliseconds, and what `expire` and `next_expiry` compute with it is rounded.

  `history` lists what happened at a point of a source.  It is not part of the
  program, which keeps of it the last result and the last quality.
-/

import PlcnextIot.Points.Buffer
import PlcnextIot.Python.Rounding
import PlcnextIot.Config.Models
import PlcnextIot.Effect.Run

namespace PlcnextIot.Points

open PlcnextIot.Python PlcnextIot.Config PlcnextIot.Effect PlcnextIot.Effect.Prog

/-! ## State -/

/-- `SampleContext` of `devices/runtime.py` -/
structure SampleContext where
  configVersion : ℤ
  device : DeviceConfig
  generation : ℤ := 0
  gatewayId : PyStr := []
  deriving DecidableEq, Repr

/-- The enabled points of the context. -/
def SampleContext.points (c : SampleContext) : List PointConfig := c.device.points.filter (·.enabled)

/-- An entry of `boot.point_sources`.  `nextNominal` is `plan['next_nominal']`, and
    `activated` keeps the first origins. -/
structure PointSource where
  context : SampleContext
  activated : Dict PyStr ℚ
  origins : Dict PyStr ℚ
  lastResult : Dict PyStr ℚ := .empty
  quality : Dict PyStr Quality := .empty
  nextNominal : Dict PyStr ℚ := .empty
  timeEpochs : Dict PyStr ℤ := .empty

/-- What happens at a point: a result is published, and an event is put. -/
inductive PointEvent where
  | published (completed : ℚ)
  | put (completed : ℚ) (sample : Sample)
  deriving DecidableEq, Repr

/-- The sampling side of a boot: its sources, and the source that each `PointEvents`
    object holds. -/
structure Sampling where
  buffer : SampleBuffer
  sources : List PointSource := []
  /-- `boot.point_sources` -/
  pointSources : Dict PyStr ℕ := .empty
  /-- `boot.point_sources_owner` -/
  owner : Option (PyStr × ℤ) := none
  holds : ℕ → Option ℕ := fun _ => none
  clockReads : ℕ := 0
  history : ℕ → PyStr → List PointEvent := fun _ _ => []

inductive EventExc where
  | timeUnavailable
  | keyError
  | capture (e : ValueError)
  deriving DecidableEq, Repr

/-- `time_provider.read`, numbered. -/
structure SamplingInputs where
  clock : ℕ → Option Core.CaptureTime

abbrev SamplingM := Prog Sampling EventExc

/-- A call of the buffer. -/
def onBuffer {α : Type} (x : BufferM α) : SamplingM α := fun w =>
  match x w.buffer with
  | (.ok a, buffer) => (.ok a, { w with buffer })
  | (.error e, buffer) => (.error (.capture e), { w with buffer })

namespace Sampling

def setSource (w : Sampling) (k : ℕ) (f : PointSource → PointSource) : Sampling :=
  { w with sources := w.sources.modify k f }

def note (w : Sampling) (k : ℕ) (point : PyStr) (e : PointEvent) : Sampling :=
  { w with history := fun j q => if j = k ∧ q = point then w.history j q ++ [e] else w.history j q }

end Sampling

/-- `x[key]` -/
def item {α : Type} (x : Option α) : SamplingM α := result (x.elim (.error .keyError) .ok)

/-- `time_provider.read(...)` -/
def readClock (inp : SamplingInputs) : SamplingM Core.CaptureTime := do
  let w ← get
  modify fun w => { w with clockReads := w.clockReads + 1 }
  result ((inp.clock w.clockReads).elim (.error .timeUnavailable) .ok)

/-- The source with this number. -/
def source (k : ℕ) : SamplingM PointSource := do item (← get).sources[k]?

/-! ## `_emit` -/

/-- The first slot of the poll grid through `q` that is not before `since`. -/
def gridSlot (q since interval : ℤ) : ℤ :=
  q + max 0 (Int.fdiv (since - q + interval - 1) interval) * interval

/-- The first event of a clock generation moves the origin to a slot of the
    generation. -/
def regrid (k : ℕ) (p : PointConfig) (clock : Core.CaptureTime) (completed : ℚ)
    (nominal : Option ℚ) : SamplingM Unit := do
  let s ← source k
  match s.timeEpochs.get? p.pointId with
  | some epoch =>
    if epoch ≠ clock.generation then do
      let since := clock.generationStartedMonoMs.getD (roundHalfEven completed)
      let q ← match nominal with
        | some nominal => pure nominal
        | none => do
          let origin ← item (s.origins.get? p.pointId)
          pure ((s.nextNominal.get? p.pointId).getD origin)
      let slot := gridSlot (roundHalfEven q) since p.pollIntervalMs
      modify (·.setSource k fun s => { s with origins := s.origins.set p.pointId slot })
    else pure ()
  | none => pure ()

variable [Reporting.Footprint] [EventCharge]

/-- `_emit` -/
def emit (inp : SamplingInputs) (k : ℕ) (p : PointConfig) (value : Option Value) (quality : Quality)
    (completed : ℚ) (nominal : Option ℚ) (kind : EventKind) (publish : Bool) : SamplingM Unit := do
  let clock ← readClock inp
  -- A discarded result neither moves an origin nor counts for its generation.
  if publish then do
    regrid k p clock completed nominal
    modify (·.setSource k fun s =>
      { s with timeEpochs := s.timeEpochs.set p.pointId clock.generation })
  else pure ()
  let s ← source k
  let origin ← item (s.origins.get? p.pointId)
  let w ← get
  let sample ← onBuffer <| capture
    { version := s.context.configVersion, device := s.context.device.deviceId, point := p.pointId,
      value, quality, completed, nominal, origin, generation := s.context.generation, kind,
      gatewayId := textOr (some s.context.gatewayId) w.buffer.gatewayId, clock }
  if publish then do
    modify (·.setSource k fun s => { s with quality := s.quality.set p.pointId quality })
    let _ ← onBuffer (put sample)
    modify (·.note k p.pointId (.put completed sample))
  else
    onBuffer <| modify fun b => { b with
      versionDiscardedEvents := b.versionDiscardedEvents + 1
      undecidedLostEvents := b.undecidedLostEvents + 1
      accountingComplete := false
      accounting := b.accounting.undecided sample false }

/-! ## The methods -/

/-- A source of its own for a context, and its UNKNOWN events. -/
def begin (inp : SamplingInputs) (object : ℕ) (context : SampleContext) (origins : Dict PyStr ℚ)
    (now : ℚ) : SamplingM Unit := do
  let k := (← get).sources.length
  modify fun w => { w with
    sources := w.sources ++ [{ context, activated := origins, origins }]
    pointSources := w.pointSources.set context.device.deviceId k
    holds := Function.update w.holds object (some k) }
  each context.points fun p => emit inp k p none .unknown now none .qualityState true

/-- The context that an object holds. -/
def Sampling.context? (w : Sampling) (object : ℕ) : Option SampleContext :=
  (w.holds object).bind fun k => (w.sources[k]?).map (·.context)

/-- `activate` -/
def activate (inp : SamplingInputs) (object : ℕ) (context : SampleContext) (origins : Dict PyStr ℚ)
    (now : ℚ) : SamplingM Unit := do
  let w ← get
  if w.context? object = some context then pure ()
  else do
    let owner := (context.gatewayId, context.configVersion)
    -- Another configuration forgets all sources of the boot.
    if w.owner ≠ some owner then
      modify fun w => { w with pointSources := .empty, owner := some owner }
    else pure ()
    let w ← get
    match w.pointSources.get? context.device.deviceId with
    | some k =>
      if (w.sources[k]?).map (·.context) = some context then
        -- A runner that was recreated goes on with the state of its predecessor.
        modify fun w => { w with holds := Function.update w.holds object (some k) }
      else begin inp object context origins now
    | none => begin inp object context origins now

/-- `result` -/
def publishResult (inp : SamplingInputs) (object : ℕ) (context : SampleContext) (p : PointConfig)
    (value : Option Value) (quality : Quality) (nominal completed : ℚ) (publish : Bool) :
    SamplingM Unit := do
  let w ← get
  match w.holds object with
  | none => pure ()
  | some k =>
    -- A result of a context that has been retired does not count.
    if w.context? object = some context then do
      if publish then
        modify fun w => (w.setSource k fun s =>
          { s with lastResult := s.lastResult.set p.pointId completed }).note k p.pointId
            (.published completed)
      else pure ()
      emit inp k p value quality completed (some nominal) .physicalResult publish
    else pure ()

/-- `last_result.get(point_id, origins[point_id])`; the default is looked up first. -/
def PointSource.last (s : PointSource) (point : PyStr) : Option ℚ := do
  let origin ← s.origins.get? point
  return (s.lastResult.get? point).getD origin

section Expiry

variable [Rounding]

/-- `now - last >= stale_after_ms / 1000` -/
def overdue (staleAfterMs : ℤ) (last now : ℚ) : Bool :=
  fl (staleAfterMs / 1000) ≤ fl (now / 1000 - last / 1000)

/-- `last + stale_after_ms / 1000` -/
def expiryAt (staleAfterMs : ℤ) (last : ℚ) : ℚ := 1000 * fl (last / 1000 + fl (staleAfterMs / 1000))

/-- One point of `expire`. -/
def expirePoint (inp : SamplingInputs) (k : ℕ) (now : ℚ) (p : PointConfig) : SamplingM Unit := do
  let s ← source k
  if s.quality.get? p.pointId = some .stale then pure ()
  else do
    let last ← item (s.last p.pointId)
    if overdue p.staleAfterMs last now then
      emit inp k p none .stale now none .qualityState true
    else pure ()

/-- `expire` -/
def expire (inp : SamplingInputs) (object : ℕ) (now : ℚ) : SamplingM Unit := do
  match (← get).holds object with
  | none => pure ()
  | some k =>
    let s ← source k
    each s.context.points (expirePoint inp k now)

/-- The deadlines of the points that are not STALE. -/
def PointSource.deadlines (s : PointSource) : List ℚ :=
  (s.context.points.filter fun p => s.quality.get? p.pointId ≠ some .stale).filterMap fun p =>
    (s.last p.pointId).map (expiryAt p.staleAfterMs)

/-- `next_expiry`; `none` is infinity. -/
def Sampling.nextExpiry (w : Sampling) (object : ℕ) : Option ℚ :=
  (w.holds object).bind fun k => (w.sources[k]?).bind fun s => s.deadlines.min?

/-! ## Calls -/

/-- What the runners do.  `plan` is `plan['next_nominal'][point_id] = slot`. -/
inductive SamplingCall where
  | activate (object : ℕ) (context : SampleContext) (origins : Dict PyStr ℚ) (now : ℚ)
  | result (object : ℕ) (context : SampleContext) (p : PointConfig) (value : Option Value)
      (quality : Quality) (nominal completed : ℚ) (publish : Bool)
  | expire (object : ℕ) (now : ℚ)
  | plan (object : ℕ) (point : PyStr) (slot : ℚ)

def SamplingCall.exec (inp : SamplingInputs) : SamplingCall → SamplingM Unit
  | .activate object context origins now => Points.activate inp object context origins now
  | .result object context p value quality nominal completed publish =>
    publishResult inp object context p value quality nominal completed publish
  | .expire object now => Points.expire inp object now
  | .plan object point slot => modify fun w =>
    match w.holds object with
    | some k => w.setSource k fun s => { s with nextNominal := s.nextNominal.set point slot }
    | none => w

end Expiry

end PlcnextIot.Points
