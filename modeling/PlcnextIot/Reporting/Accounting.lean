/-
  PlcnextIot.Reporting.Accounting

  `reporting/accounting.py`: the counters and gauges of one boot, which the
  sampling, selection and storage sides share.

  The gauges describe logical owners: an event is pending from its admission to
  its end, whoever holds it.  `_bound` keeps the bookkeeping itself within a
  byte limit.  The sizes are CPython's own, so what it evicts and whether it
  forgets the pending decisions is a parameter (`Footprint`); gap records and
  the optional recorder only leave their counts and flags here.
-/

import PlcnextIot.Points.Sample
import PlcnextIot.Python.Dict

namespace PlcnextIot.Reporting

open PlcnextIot.Python PlcnextIot.Points

/-- `COUNTERS` -/
inductive Counter where
  | capturedEvents
  | eligibleEvents
  | policyFilteredEvents
  | timeInvalidEvents
  | captureOverflowEvents
  | undecidedLostEvents
  | knownUnsentEvents
  | isolatedEvents
  | uncertainDeliveryEvents
  | storedConfirmedEvents
  | lateStoredEvents
  | enqueueRejectedAttempts
  | missedPollCycles
  | missedReportSlots
  | sourceTimestampRepeatEvents
  | gapRecords
  deriving DecidableEq, Repr

/-- The class of an event or a batch: captured after the last session began, or
    before. -/
inductive Category where
  | new
  | history
  deriving DecidableEq, Repr

/-- Why a batch is `DEAD`. -/
inductive TerminalSource where
  | ageExpired
  | permanentReject
  deriving DecidableEq, Repr

/-- What the accounting reads of a batch. -/
structure BatchFacts where
  messageId : PyStr
  size : ℕ
  dead : Bool
  events : List ℤ
  captureBoot : Option PyStr
  everSent : Bool
  source : Option TerminalSource
  deriving DecidableEq, Repr

/-- `(gateway_id, device_id, point_id)` -/
abbrev PhysicalKey := Option PyStr × PyStr × PyStr

structure Accounting where
  bootId : PyStr
  counters : Counter → ℤ := fun _ => 0
  complete : Bool := true
  overflow : Bool := false
  truncated : Bool := false
  pendingDecisions : Finset (Option ℤ) := ∅
  decisionUnknown : Bool := false
  frozenBatches : Dict ℤ PyStr := .empty
  physical : Dict PhysicalKey (Option ℤ) := .empty
  pending : ℤ := 0
  dead : ℤ := 0
  pendingBatches : ℤ := 0
  deadBatches : ℤ := 0
  payloadBytes : ℤ := 0
  unknownPending : ℤ := 0
  unknownDead : ℤ := 0
  recoveryNoted : Bool := false

/-- What the byte limit of the bookkeeping makes `_bound` do in a state: how many
    of the oldest physical results it evicts, whether it also drops gap records,
    and whether it forgets the pending decisions. -/
class Footprint where
  evicted : Accounting → ℕ
  dropsGaps : Accounting → Bool
  forgets : Accounting → Bool

namespace Accounting

variable [Footprint]

/-- `_add` -/
def add (a : Accounting) (name : Counter) (count : ℤ) : Accounting :=
  let value := a.counters name + count
  { a with
    counters := Function.update a.counters name (min Contracts.maxSafe value)
    overflow := a.overflow || Contracts.maxSafe < value
    complete := a.complete && value ≤ Contracts.maxSafe }

/-- `incomplete` -/
def incomplete (a : Accounting) (truncated overflow : Bool) : Accounting :=
  { a with
    complete := false, truncated := a.truncated || truncated, overflow := a.overflow || overflow }

/-- `_bound` -/
def bound (a : Accounting) : Accounting :=
  let kept := a.physical.items.drop (Footprint.evicted a)
  let lost := Footprint.evicted a != 0 || Footprint.dropsGaps a || Footprint.forgets a
  { a with
    physical := .ofItems kept
    pendingDecisions := if Footprint.forgets a then ∅ else a.pendingDecisions
    decisionUnknown := a.decisionUnknown || Footprint.forgets a
    complete := a.complete && !lost
    truncated := a.truncated || lost }

/-- `_gap` -/
def gap (a : Accounting) : Accounting := (a.add .gapRecords 1).bound

/-- A physical result replaces the one before it of its point; the same source
    time twice is a repeat. -/
def physicalResult (a : Accounting) (s : Sample) : Accounting :=
  let key : PhysicalKey := (s.gatewayId, s.deviceId, s.pointId)
  let repeated := s.timestamp.isSome && a.physical.get? key == some s.timestamp
  let a := if repeated then a.add .sourceTimestampRepeatEvents 1 else a
  -- The newest result of a point is the last to be evicted.
  { a with physical := (a.physical.erase key).set key s.timestamp }

/-- `captured` -/
def captured (a : Accounting) (s : Sample) : Accounting :=
  let a := a.add .capturedEvents 1
  let a :=
    -- Beyond that, whether an event is undecided is not known.
    if a.pendingDecisions.card < 8192 then
      { a with pendingDecisions := insert s.sampleSeq a.pendingDecisions }
    else { a with decisionUnknown := true, complete := false, truncated := true }
  let a := if s.kind = .physicalResult then a.physicalResult s else a
  a.bound

/-- `_decision` finds the event undecided. -/
def awaits (a : Accounting) (s : Sample) : Bool :=
  s.captureBootId = some a.bootId && decide (s.sampleSeq ∈ a.pendingDecisions)

/-- `_decision` -/
def decision (a : Accounting) (s : Sample) : Accounting :=
  { a with pendingDecisions := a.pendingDecisions.erase s.sampleSeq }

/-- `undecided` -/
def undecided (a : Accounting) (s : Sample) (overflow : Bool) : Accounting :=
  if a.awaits s then
    let a := a.decision s
    let a := if overflow then a.add .captureOverflowEvents 1 else a
    let a := a.add .undecidedLostEvents 1
    { a with complete := false }.gap
  else a

/-- Why a selected event is not admitted. -/
inductive Refusal where
  | timeInvalid
  | capacityEviction
  deriving DecidableEq, Repr

/-- `decided(selected=False)` -/
def filtered (a : Accounting) (s : Sample) : Accounting :=
  if a.awaits s then (a.decision s).add .policyFilteredEvents 1 else a

/-- `decided(selected=True, reason=...)` -/
def refused (a : Accounting) (s : Sample) (reason : Refusal) : Accounting :=
  if a.awaits s then
    let a := (a.decision s).add .eligibleEvents 1
    let a := a.add .knownUnsentEvents 1
    let a := a.add (match reason with
      | .timeInvalid => .timeInvalidEvents
      | .capacityEviction => .enqueueRejectedAttempts) 1
    a.gap
  else a

/-- `decided(selected=True, admitted=True)`; it returns whether the event was
    still undecided. -/
def admitted (a : Accounting) (s : Sample) : Accounting :=
  if a.awaits s then
    let a := (a.decision s).add .eligibleEvents 1
    { a with pending := a.pending + 1 }
  else a

/-- `recovery`: one gap record for what an earlier process held in memory. -/
def recovery (a : Accounting) : Accounting :=
  if a.recoveryNoted then a else { a with recoveryNoted := true, complete := false }.gap

/-- `restored` -/
def restored (a : Accounting) (b : BatchFacts) : Accounting :=
  let a := a.recovery
  let a := { a with payloadBytes := a.payloadBytes + b.size }
  if b.dead then { a with deadBatches := a.deadBatches + 1, unknownDead := a.unknownDead + 1 }
  else { a with pendingBatches := a.pendingBatches + 1, unknownPending := a.unknownPending + 1 }

/-- The table of frozen batches is full. -/
def frozenFull (a : Accounting) : Bool := 64 ≤ a.frozenBatches.items.length

/-- `materialized`; a full table only leaves the flags, and the caller sees a
    `RuntimeError`. -/
def materialized (a : Accounting) (sequence : ℤ) (messageId : PyStr) : Accounting :=
  if a.frozenFull then { a with complete := false, truncated := true }
  else { a with
    frozenBatches := a.frozenBatches.set sequence messageId
    pendingBatches := a.pendingBatches + 1 }.bound

/-- The frozen batch of a message, if it is one of this boot. -/
def frozen? (a : Accounting) (messageId : PyStr) : Option ℤ :=
  (a.frozenBatches.items.find? fun kv => kv.2 = messageId).map (·.1)

/-- `committed` -/
def committed (a : Accounting) (b : BatchFacts) : Accounting :=
  let a := match a.frozen? b.messageId with
    | some sequence => { a with frozenBatches := a.frozenBatches.erase sequence }
    | none => { a with pendingBatches := a.pendingBatches + 1 }
  let a := { a with payloadBytes := a.payloadBytes + b.size }
  if b.captureBoot = some a.bootId then a
  else { a with unknownPending := a.unknownPending + 1, complete := false }

/-- What becomes of the events of a terminated batch. -/
def outcomeCounter (b : BatchFacts) (source : TerminalSource) : Counter :=
  if source = .permanentReject then .isolatedEvents
  else if b.everSent then .uncertainDeliveryEvents
  else .knownUnsentEvents

/-- `terminal` -/
def terminal (a : Accounting) (b : BatchFacts) (source : TerminalSource) : Accounting :=
  let n : ℤ := b.events.length
  let a := { a with pendingBatches := a.pendingBatches - 1, deadBatches := a.deadBatches + 1 }
  let a :=
    if b.captureBoot = some a.bootId then
      { a with pending := a.pending - n, dead := a.dead + n }.add (outcomeCounter b source) n
    else
      { a with
        unknownPending := a.unknownPending - 1, unknownDead := a.unknownDead + 1, complete := false }
  a.gap

/-- `removed` -/
def removed (a : Accounting) (b : BatchFacts) (stored pruned : Bool) : Accounting :=
  let n : ℤ := b.events.length
  let a :=
    if b.dead then { a with deadBatches := a.deadBatches - 1 }
    else { a with pendingBatches := a.pendingBatches - 1 }
  let a :=
    if b.captureBoot = some a.bootId then
      let a := if b.dead then { a with dead := a.dead - n } else { a with pending := a.pending - n }
      let a := if stored then a.add .storedConfirmedEvents n else a
      if stored ∧ b.source = some .ageExpired then a.add .lateStoredEvents n else a
    else if b.dead then { a with unknownDead := a.unknownDead - 1 }
    else { a with unknownPending := a.unknownPending - 1 }
  { a with payloadBytes := a.payloadBytes - b.size, truncated := a.truncated || pruned }

/-- The producer gives a frozen batch up. -/
def thaw (a : Accounting) (sequence : ℤ) : Accounting :=
  if (a.frozenBatches.get? sequence).isSome then
    { a with
      frozenBatches := a.frozenBatches.erase sequence, pendingBatches := a.pendingBatches - 1 }
  else a

/-- `abandon`: the events that are still in memory are known to be unsent; there is a
    gap record for each 256 of them. -/
def abandon (a : Accounting) (events : List Sample) (sequences : List ℤ) : Accounting :=
  let a := { a with pending := a.pending - events.length }.add .knownUnsentEvents events.length
  let a := sequences.foldl thaw a
  (List.range ((events.length + 255) / 256)).foldl (fun a _ => a.gap) a

end Accounting

end PlcnextIot.Reporting
