/-
  PlcnextIot.Points.Buffer

  `SampleBuffer` of `points/samples.py`: capturing an event gives it its identity
  in this boot, and `put` queues it for the reporting side within two limits.

  Times are rational milliseconds.  What an event is charged (`event_charge`) is a
  size of CPython's and a parameter.
-/

import PlcnextIot.Reporting.Accounting
import PlcnextIot.Core.TimeOps
import PlcnextIot.Effect.Prog

namespace PlcnextIot.Points

open PlcnextIot.Python PlcnextIot.Reporting PlcnextIot.Effect PlcnextIot.Effect.Prog

/-- `event_charge` -/
class EventCharge where
  eventCharge : Sample → ℕ

export EventCharge (eventCharge)

/-- `SampleBuffer`, with the counter and the accounting of its `ProcessBootContext`. -/
structure SampleBuffer where
  capacity : ℕ := 4096
  maxBytes : ℕ := 4 * 1024 * 1024
  gatewayId : Option PyStr := none
  accounting : Accounting
  /-- `boot_context._sample_sequence` -/
  sampleSequence : ℤ := 0
  queue : List Sample := []
  usedBytes : ℤ := 0
  dropped : ℤ := 0
  capturedEvents : ℤ := 0
  captureOverflowEvents : ℤ := 0
  undecidedLostEvents : ℤ := 0
  versionDiscardedEvents : ℤ := 0
  accountingComplete : Bool := true
  counterOverflow : Bool := false
  lastOverflowIdentity : Option (Option PyStr × Option ℤ) := none
  lastPutSequence : ℤ := 0

namespace SampleBuffer

/-- `boot_context.boot_id` -/
def bootId (b : SampleBuffer) : PyStr := b.accounting.bootId

end SampleBuffer

abbrev BufferM := Prog SampleBuffer ValueError

/-- The arguments of `capture`. -/
structure CaptureRequest where
  version : ℤ
  device : PyStr
  point : PyStr
  value : Option Value
  quality : Quality
  completed : ℚ
  nominal : Option ℚ
  origin : ℚ
  generation : ℤ
  kind : EventKind
  gatewayId : Option PyStr
  clock : Core.CaptureTime

def timeSource : Core.CaptureSource → TimeSource
  | .hubMqtt => .hubMqtt
  | .systemRtcCompat => .systemRtcCompat

/-- `a or b` of texts -/
def textOr (a b : Option PyStr) : Option PyStr := if a = none ∨ a = some [] then b else a

/-- The event of a request, before its checks.  `round(seconds * 1000)` rounds half to
    even. -/
def CaptureRequest.sample (r : CaptureRequest) (bootId : PyStr) (sequence : ℤ)
    (gatewayId : Option PyStr) : Sample where
  configVersion := r.version
  deviceId := r.device
  pointId := r.point
  timestamp := r.clock.utcMs
  value := r.value
  quality := r.quality
  monotonicTime := some (roundHalfEven r.completed)
  captureBootId := some bootId
  sampleSeq := some sequence
  nominalPollDueMonoMs := r.nominal.map roundHalfEven
  completedMonoMs := some (roundHalfEven r.completed)
  kind := r.kind
  nominalOriginMonoMs := some (roundHalfEven r.origin)
  configGeneration := r.generation
  timeGeneration := r.clock.generation
  timeValid := r.clock.timeValid
  clockRevision := r.clock.clockRevision
  timeSource := timeSource r.clock.source
  gatewayId := textOr r.gatewayId gatewayId

variable [Footprint]

/-- `boot_context.next_sample_sequence`, as `capture` calls it. -/
def nextSampleSequence : BufferM ℤ := do
  let b ← get
  if Contracts.maxSafe ≤ b.sampleSequence then do
    modify fun b => { b with
      counterOverflow := true, accountingComplete := false
      accounting := b.accounting.incomplete false true }
    raise "Sample sequence exhausted for this process boot"
  else do
    modify fun b => { b with sampleSequence := b.sampleSequence + 1 }
    return b.sampleSequence + 1

/-- `capture` -/
def capture (r : CaptureRequest) : BufferM Sample := do
  check (r.kind = .physicalResult ↔ r.nominal.isSome = true)
    "Event kind and physical slot disagree"
  check (r.nominal.all fun nominal => roundHalfEven nominal ≤ roundHalfEven r.completed)
    "Physical result precedes its nominal slot"
  let sequence ← nextSampleSequence
  let b ← get
  match (r.sample b.bootId sequence b.gatewayId).postInit with
  | .error e => do
    modify fun b => { b with
      accountingComplete := false, accounting := b.accounting.incomplete false false }
    raise e
  | .ok sample => do
    modify fun b => { b with
      capturedEvents := b.capturedEvents + 1, accounting := b.accounting.captured sample }
    return sample

variable [EventCharge]

/-- `put` -/
def put (sample : Sample) : BufferM Bool := do
  let b ← get
  check (sample.captureBootId = some b.bootId ∧ sample.sampleSeq.isSome)
    "Ingress requires this process captured-event identity"
  check (b.lastPutSequence < sample.sampleSeq.getD 0)
    "Ingress identity must be submitted once in capture order"
  modify fun b => { b with lastPutSequence := sample.sampleSeq.getD 0 }
  if b.capacity ≤ b.queue.length ∨ (b.maxBytes : ℤ) < b.usedBytes + eventCharge sample then do
    modify fun b => { b with
      dropped := b.dropped + 1
      captureOverflowEvents := b.captureOverflowEvents + 1
      undecidedLostEvents := b.undecidedLostEvents + 1
      accountingComplete := false
      lastOverflowIdentity := some (sample.captureBootId, sample.sampleSeq)
      accounting := b.accounting.undecided sample true }
    return false
  else do
    modify fun b => { b with
      queue := b.queue ++ [sample], usedBytes := b.usedBytes + eventCharge sample }
    return true

end PlcnextIot.Points
