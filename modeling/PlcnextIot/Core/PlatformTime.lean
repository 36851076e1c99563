/-
  PlcnextIot.Core.PlatformTime

  `core/platform_time.py`: the process-owned logical clock, its gates and its
  synchronisation rounds.

  Clock readings, jitter draws and request ids come from outside; `Inputs`
  lists them in the order in which the provider asks, and the provider counts
  how many it has consumed, so time may pass between any two readings, also
  inside one call.  Milliseconds are integers.  The logical UTC, its error bound,
  the residual and the drift are floats: every operation on them is rounded where
  the interpreter rounds it.  What is not modelled is an overflow and an integer
  beyond 2^53 that meets a float.

  Python's early returns become nested conditionals; every assignment, also
  one that precedes a raise, happens in the order of the source.
-/

import PlcnextIot.Contracts.Validate
import PlcnextIot.Effect.Prog
import PlcnextIot.Python.Rounding

namespace PlcnextIot.Core

open PlcnextIot.Python PlcnextIot.Contracts PlcnextIot.Effect PlcnextIot.Effect.Prog

/-! ## Data -/

/-- What the injected callables return, in the order of the calls. -/
structure Inputs where
  mono : Nat → ℤ
  system : Nat → Option ℤ
  jitter : Nat → ℚ → ℚ → ℚ
  uuid : Nat → PyStr

/-- How many of each input have been consumed. -/
structure Reads where
  mono : Nat := 0
  system : Nat := 0
  jitter : Nat := 0
  uuid : Nat := 0
  deriving DecidableEq

inductive Mode where
  | hubMqtt
  | systemRtc
  deriving DecidableEq, Repr

inductive TimeState where
  | unsynced | syncing | synced | holdover | expired | suspect | maintenance
  deriving DecidableEq, Repr

inductive Reason where
  | rollbackRequiresMaintenance | clockContinuityRequiresMaintenance | holdoverExpired
  | inconsistentSamples | timeout | clockDiscontinuity | sourceMismatch | staleRequest
  | invalidResponse | highDelay
  deriving DecidableEq, Repr

/-- What a caller wants to do with the time. -/
inductive Purpose where
  | capture | ackApply | enqueue | controlSend | send
  deriving DecidableEq, Repr

/-- The exceptions of the module; `TimeUnavailable` is a `ValueError`. -/
inductive TimeError where
  | timeUnavailable
  | valueError
  | typeError
  | python (e : PyExc)
  deriving DecidableEq, Repr

structure TimeToken where
  bootId : PyStr
  clockRevision : ℤ
  connectionRevision : ℤ
  issuedMonoMs : ℤ
  deriving DecidableEq, Repr

structure TimeSnapshot where
  bootId : PyStr
  monoMs : ℤ
  utcMs : Option ℤ
  systemUtcMs : Option ℤ
  uncertaintyMs : Option ℤ
  source : Mode
  state : TimeState
  timeValid : Bool
  syncAgeMs : Option ℤ
  clockRevision : ℤ
  timeBasisRef : Option PyStr
  connectionRevision : ℤ
  deriving DecidableEq, Repr

/-- The members of a request, which its response has to echo. -/
structure TimeRequest where
  schemaVersion : ℤ
  gatewayId : PyStr
  requestId : PyStr
  bootId : PyStr
  sessionId : PyStr
  clientMonoMs : ℤ
  deriving DecidableEq, Repr

structure TimeResponse where
  echo : TimeRequest
  serverReceivedAt : ℤ
  serverSentAt : ℤ
  deriving DecidableEq, Repr

/-- An accepted response, as the round stores it. -/
structure Candidate where
  target : ℚ
  receivedMonoMs : ℤ
  path : ℤ
  rtt : ℤ
  error : ℚ
  deriving DecidableEq, Repr

structure PlatformTime where
  gateway : PyStr
  bootId : PyStr
  mode : Mode
  basis : Option PyStr
  driftPpm : ℚ
  revision : ℤ := 0
  connectionRevision : ℤ := 0
  generation : ℤ := 0
  generationStarted : ℤ
  session : Option PyStr := none
  sessionSynced : Bool := false
  heartbeatSubmitted : Bool := false
  getSubmitted : Bool := false
  state : TimeState := .unsynced
  reason : Option Reason := none
  utc : Option ℚ := none
  lastMono : ℤ
  syncMono : Option ℤ := none
  uncertainty : ℚ := 0
  residual : ℚ := 0
  floor : Option ℤ := none
  lastObservedMono : ℤ
  pending : Option TimeRequest := none
  roundStart : Option ℤ := none
  attempts : Nat := 0
  candidates : List Candidate := []
  nextSync : ℤ := 0
  failures : Nat := 0
  suspectConfirm : Bool := false
  reads : Reads := {}
  /-- History variable, never read: a rollback, a basis mismatch or a decreasing
      reading has been detected. -/
  fenced : Bool := false
  deriving DecidableEq

abbrev TimeProg := Prog PlatformTime TimeError

/-! ## Inputs -/

def PlatformTime.readMono (inp : Inputs) : TimeProg ℤ := do
  let s ← get
  modify fun s => { s with reads := { s.reads with mono := s.reads.mono + 1 } }
  return inp.mono s.reads.mono

/-- `self._system()`, dropped unless it is a safe integer. -/
def PlatformTime.readSystem (inp : Inputs) : TimeProg (Option ℤ) := do
  let s ← get
  modify fun s => { s with reads := { s.reads with system := s.reads.system + 1 } }
  return (inp.system s.reads.system).filter fun v => 0 ≤ v ∧ v ≤ maxSafe

def PlatformTime.drawJitter (inp : Inputs) (lo hi : ℚ) : TimeProg ℚ := do
  let s ← get
  modify fun s => { s with reads := { s.reads with jitter := s.reads.jitter + 1 } }
  return inp.jitter s.reads.jitter lo hi

def PlatformTime.freshId (inp : Inputs) : TimeProg PyStr := do
  let s ← get
  modify fun s => { s with reads := { s.reads with uuid := s.reads.uuid + 1 } }
  return py "time-" ++ inp.uuid s.reads.uuid

/-! ## Construction -/

/-- `str.strip()` leaves something. -/
def nonBlank (s : PyStr) : Bool :=
  s.any fun c => !((0x09 ≤ c && c ≤ 0x0D) || (0x1C ≤ c && c ≤ 0x20) || c == 0x85 || c == 0xA0
    || c == 0x1680 || (0x2000 ≤ c && c ≤ 0x200A) || c == 0x2028 || c == 0x2029 || c == 0x202F
    || c == 0x205F || c == 0x3000)

/-- The arguments of the constructor. -/
structure TimeConfig where
  gateway : PyStr
  bootId : PyStr
  mode : Mode
  basis : Option PyStr
  driftPpm : Option ℚ
  driftEvidence : Option PyStr
  deriving DecidableEq

/-- The checks of `__init__`; platform mode needs a basis and a drift bound. -/
def TimeConfig.accepted (c : TimeConfig) : Bool :=
  isId c.gateway && isId c.bootId &&
    match c.mode with
    | .systemRtc => true
    | .hubMqtt =>
      match c.basis, c.driftPpm, c.driftEvidence with
      | some basis, some drift, some evidence =>
        isId basis && 0 ≤ drift && drift ≤ 1000 && nonBlank evidence && evidence.length ≤ 256
      | _, _, _ => false

/-- The provider that the constructor leaves; it reads the monotonic clock twice. -/
def PlatformTime.started (inp : Inputs) (c : TimeConfig) : PlatformTime :=
  { gateway := c.gateway, bootId := c.bootId, mode := c.mode, basis := c.basis,
    driftPpm := c.driftPpm.getD 0, generationStarted := inp.mono 0, lastMono := inp.mono 1,
    lastObservedMono := inp.mono 1, reads := { mono := 2 } }

/-- `PlatformTime(...)` -/
def PlatformTime.create (inp : Inputs) (c : TimeConfig) : Except TimeError PlatformTime :=
  if c.accepted then .ok (started inp c) else .error .valueError

def PlatformTime.platform (s : PlatformTime) : Bool := s.mode == .hubMqtt

/-! ## Revisions and invalidation -/

def PlatformTime.bump (inp : Inputs) : TimeProg Unit := do
  let s ← get
  check (max (max s.revision s.connectionRevision) s.generation < maxSafe) .timeUnavailable
  modify fun s => { s with revision := s.revision + 1, generation := s.generation + 1 }
  let now ← readMono inp
  modify fun s => { s with generationStarted := now }

/-- The states in which time is already closed. -/
def TimeState.closed : TimeState → Bool
  | .unsynced | .expired | .suspect | .maintenance => true
  | _ => false

def PlatformTime.invalidate (inp : Inputs) (state : TimeState) (reason : Reason) : TimeProg Unit := do
  modify fun s => { s with fenced := s.fenced || state == .maintenance }
  -- Time that is closed already has no revision to end.
  if (← get).state.closed then pure () else bump inp
  modify fun s => { s with
    state := state, reason := some reason, sessionSynced := false, heartbeatSubmitted := false,
    getSubmitted := false, pending := none, nextSync := 0 }

def PlatformTime.requireMaintenance (inp : Inputs) : TimeProg Unit :=
  invalidate inp .maintenance .rollbackRequiresMaintenance

/-! ## Sessions -/

def PlatformTime.connect (session : PyStr) : TimeProg Unit := do
  check (isId session) .valueError
  check ((← get).connectionRevision < maxSafe) .timeUnavailable
  modify fun s => { s with
    connectionRevision := s.connectionRevision + 1, session := some session,
    sessionSynced := !s.platform, heartbeatSubmitted := false, getSubmitted := false,
    pending := none, roundStart := none, attempts := 0, candidates := [], nextSync := 0 }

def PlatformTime.disconnect : TimeProg Unit := do
  connect (py "disconnected")
  modify fun s => { s with
    session := none, sessionSynced := false, heartbeatSubmitted := false, getSubmitted := false }

section Clock

variable [Rounding]

/-- The logical clock, with its error bound, lies before the history floor. -/
def PlatformTime.behindFloor (s : PlatformTime) (floor : ℤ) : Bool :=
  match s.utc with
  | some utc => fl (utc + s.uncertainty) < floor
  | none => false

def PlatformTime.loadHistoryBoundary (inp : Inputs) (basis : Option PyStr) (utcLower : Option ℤ) :
    TimeProg Unit := do
  match utcLower with
  | none => pure ()
  | some lower =>
    if basis ≠ (← get).basis then requireMaintenance inp
    else
      let floor := max ((← get).floor.getD 0) lower
      modify fun s => { s with floor := some floor }
      if (← get).behindFloor floor then requireMaintenance inp else pure ()

/-! ## The running clock -/

/-- How much of the residual is worked off while `elapsed` passes. -/
def slewCorrection (elapsed residual : ℚ) : ℚ :=
  max (fl (-elapsed * fl (5 / 1000))) (min (fl (elapsed * fl (5 / 1000))) residual)

/-- Move the logical clock to a reading. -/
def PlatformTime.slew (now : ℤ) (s : PlatformTime) : PlatformTime :=
  match s.utc with
  | none => { s with lastObservedMono := now, lastMono := now }
  | some utc =>
    let elapsed : ℚ := max 0 (now - s.lastMono)
    let correction := slewCorrection elapsed s.residual
    { s with
      lastObservedMono := now, lastMono := now, utc := some (fl (utc + fl (elapsed + correction))),
      residual := fl (s.residual - correction) }

/-- `_advance`: a decreasing reading closes the clock and drops its anchor. -/
def PlatformTime.advance (inp : Inputs) (now : ℤ) : TimeProg Unit := do
  if now < (← get).lastObservedMono then
    invalidate inp .maintenance .clockContinuityRequiresMaintenance
    modify fun s => { s with utc := none }
  else pure ()
  -- A decreasing reading is taken over as well.
  modify (PlatformTime.slew now)

def PlatformTime.age (s : PlatformTime) (now : ℤ) : Option ℤ :=
  s.syncMono.map fun sync => max 0 (now - sync)

/-- `elapsed * drift_ppm / 1_000_000` -/
def drifted (driftPpm : ℚ) (elapsed : ℤ) : ℚ := fl (fl (elapsed * driftPpm) / 1000000)

/-- The published error bound, once there has been a synchronisation. -/
def PlatformTime.errorAt (s : PlatformTime) (now : ℤ) : Option ℤ :=
  (s.age now).map fun age => ⌈fl (fl (s.uncertainty + drifted s.driftPpm age) + |s.residual|)⌉

/-- An anchored clock of bounded age and error whose range is representable. -/
def usable (utc : Option ℚ) (age error : Option ℤ) : Bool :=
  match utc, age, error with
  | some utc, some age, some error =>
    age < 3600000 && error < 1000 && 0 ≤ fl (utc - error) && fl (utc + error) ≤ maxSafe
  | _, _, _ => false

/-- The condition under which the clock, moved to `now`, is valid. -/
def PlatformTime.validAt (s : PlatformTime) (now : ℤ) : Bool :=
  s.platform && (s.state == .synced || s.state == .holdover)
    && usable s.utc (s.age now) (s.errorAt now)

/-- Time is open, but at `now` it is no longer valid. -/
def PlatformTime.expires (s : PlatformTime) (now : ℤ) : Bool :=
  s.platform && (s.state == .synced || s.state == .holdover) && !s.validAt now

/-- The state that `snapshot` publishes: an open clock that is no longer valid
    expires, a valid one is `SYNCED` or in `HOLDOVER`. -/
def PlatformTime.settle (inp : Inputs) (now : ℤ) : TimeProg Unit := do
  let s ← get
  if s.expires now then invalidate inp .expired .holdoverExpired
  else if s.validAt now then
    modify fun s => { s with state := if s.sessionSynced then .synced else .holdover }
  else pure ()

def PlatformTime.snapshot (inp : Inputs) : TimeProg TimeSnapshot := do
  let now ← readMono inp
  advance inp now
  let s ← get
  let age := s.age now
  let error := s.errorAt now
  let valid := s.validAt now
  -- What is returned was computed before the clock expires.
  settle inp now
  let system ← readSystem inp
  let s ← get
  return {
    bootId := s.bootId, monoMs := now,
    utcMs := if valid then s.utc.map fun utc => ⌊utc⌋ else none,
    systemUtcMs := system, uncertaintyMs := error, source := s.mode, state := s.state,
    timeValid := valid, syncAgeMs := age, clockRevision := s.revision,
    timeBasisRef := if s.platform then s.basis else none,
    connectionRevision := s.connectionRevision }

/-! ## Gates -/

def PlatformTime.token (inp : Inputs) : TimeProg TimeToken := do
  let t ← snapshot inp
  return ⟨t.bootId, t.clockRevision, t.connectionRevision, t.monoMs⟩

/-- The token was made by this process, in this revision and connection, less
    than two seconds before the reading. -/
def PlatformTime.current (s : PlatformTime) (now : ℤ) : Option TimeToken → Bool
  | none => true
  | some t => t.bootId == s.bootId && t.clockRevision == s.revision
      && t.connectionRevision == s.connectionRevision
      && (0 ≤ now - t.issuedMonoMs && now - t.issuedMonoMs < 2000)

/-- What each purpose asks for, given a snapshot just taken. -/
def PlatformTime.permits (s : PlatformTime) (t : TimeSnapshot) : Purpose → Bool
  | .capture => true
  | .ackApply => s.session.isSome
  | .enqueue => timeKnown
  | .controlSend => timeKnown && synced
  | .send => timeKnown && synced && (s.heartbeatSubmitted && s.getSubmitted)
where
  timeKnown := if s.platform then t.timeValid else t.systemUtcMs.isSome
  synced := s.session.isSome && s.sessionSynced

def PlatformTime.valid (inp : Inputs) (token : Option TimeToken) (purpose : Purpose) : TimeProg Bool := do
  let t ← snapshot inp
  let s ← get
  return s.current t.monoMs token && s.permits t purpose

/-- The purposes that need an explicit token in platform mode. -/
def Purpose.guarded : Purpose → Bool
  | .enqueue | .controlSend | .send => true
  | _ => false

def PlatformTime.require (inp : Inputs) (token : Option TimeToken) (purpose : Purpose) :
    TimeProg TimeSnapshot := do
  check (¬ ((← get).platform ∧ token = none ∧ purpose.guarded)) .timeUnavailable
  let ok ← valid inp token purpose
  check (ok = true) .timeUnavailable
  -- A second reading, which is not checked.
  snapshot inp

inductive ControlKind where
  | heartbeat | configGet | other
  deriving DecidableEq, Repr

def PlatformTime.controlSubmitted (inp : Inputs) (kind : ControlKind) (token : Option TimeToken) :
    TimeProg Unit := do
  let _ ← require inp token .controlSend
  modify fun s =>
    match kind with
    | .heartbeat => { s with heartbeatSubmitted := true }
    | .configGet => { s with getSubmitted := s.getSubmitted || s.heartbeatSubmitted }
    | .other => s

/-! ## Synchronisation rounds -/

/-- Re-date a candidate to a reading. -/
def Candidate.targetAt (c : Candidate) (now : ℤ) : ℚ := fl (fl (c.target + now) - c.receivedMonoMs)

def Candidate.errorAt (c : Candidate) (driftPpm : ℚ) (now : ℤ) : ℚ :=
  fl (c.error + drifted driftPpm (now - c.receivedMonoMs))

/-- The candidates agree within half a second. -/
def consistent (cs : List Candidate) (now : ℤ) : Bool :=
  cs.all fun a => cs.all fun b => fl (a.targetAt now - b.targetAt now) ≤ 500

def good (cs : List Candidate) : List Candidate := cs.filter fun c => c.rtt ≤ 500

/-- `min(cs, key=lambda c: c.path)`: the first candidate of least path. -/
def leastPath : List Candidate → Option Candidate
  | [] => none
  | c :: cs =>
      match leastPath cs with
      | some d => if d.path < c.path then some d else some c
      | none => some c

/-- The candidate a round adopts: the one of least path among three, or among
    the good ones of fewer. -/
def choose (cs : List Candidate) (now : ℤ) : Option Candidate :=
  if consistent cs now ∧ (3 ≤ cs.length ∨ good cs ≠ []) then
    leastPath (if 3 ≤ cs.length then cs else good cs)
  else none

/-- A large step away from the logical clock. -/
def PlatformTime.jumps (s : PlatformTime) (target : ℚ) : Bool :=
  match s.utc with
  | some utc => 1000 < |fl (target - utc)|
  | none => false

/-- The offered time, with its error bound, lies before the history floor. -/
def PlatformTime.rollsBack (s : PlatformTime) (target error : ℚ) : Bool :=
  match s.floor with
  | some floor => fl (target + error) < floor
  | none => false

/-- The offered time, with its error bound, lies before the logical clock. -/
def PlatformTime.reverses (s : PlatformTime) (target error : ℚ) : Bool :=
  match s.utc with
  | some utc => fl (target + error) < utc
  | none => false

/-- The end of `_adopt`: re-anchor, or slew towards the target. -/
def PlatformTime.anchor (inp : Inputs) (target error : ℚ) (now : ℤ) (single : Bool) : TimeProg Unit := do
  let s ← get
  if s.utc = none ∨ s.state = .expired ∨ s.state = .unsynced ∨ s.state = .syncing then
    bump inp
    modify fun s => { s with utc := some target, residual := 0 }
  else
    -- The difference is worked off: the clock does not jump.
    modify fun s => { s with residual := fl (target - s.utc.getD 0) }
  modify fun s => { s with
    suspectConfirm := false, uncertainty := error, syncMono := some now, state := .synced,
    reason := none, sessionSynced := s.session.isSome }
  let delay ←
    if single then pure (10000 : ℤ)
    else do
      let j ← drawJitter inp (fl (9 / 10)) (fl (11 / 10))
      pure (roundHalfEven (fl (300000 * j)))
  modify fun s => { s with nextSync := now + delay }

/-- The middle of `_adopt`, on a suspect clock: the first large deviation only
    closes the gates, a following round confirms it. -/
def PlatformTime.confirm (inp : Inputs) (target error : ℚ) (now : ℤ) (single : Bool) : TimeProg Unit := do
  if (← get).suspectConfirm then
    if (← get).reverses target error then requireMaintenance inp
    else
      bump inp
      modify fun s => { s with utc := none }
      anchor inp target error now single
  else modify fun s => { s with suspectConfirm := true, nextSync := now }

def PlatformTime.adopt (inp : Inputs) (target error : ℚ) (now : ℤ) (single : Bool) : TimeProg Unit := do
  advance inp now
  let s ← get
  if s.rollsBack target error then requireMaintenance inp
  else if s.jumps target then
    invalidate inp .suspect .clockDiscontinuity
    confirm inp target error now single
  else anchor inp target error now single

/-- The back-off after a failed round, by the number of failures so far. -/
def backoff (failures : Nat) : ℚ :=
  match failures with
  | 0 | 1 => 5000
  | 2 => 10000
  | 3 => 20000
  | 4 => 40000
  | _ => 60000

def PlatformTime.finishRound (inp : Inputs) (now : ℤ) : TimeProg Unit := do
  let s ← get
  match choose s.candidates now with
  | some c =>
    adopt inp (c.targetAt now) (c.errorAt s.driftPpm now) now (s.candidates.length < 3)
    -- Also when `_adopt` has closed the clock: it only returns.
    modify fun s => { s with roundStart := none, pending := none, candidates := [], failures := 0 }
  | none =>
    modify fun s => { s with
      reason := some (if s.candidates = [] then .timeout else .inconsistentSamples),
      failures := min (s.failures + 1) 5 }
    let j ← drawJitter inp 1 (fl (12 / 10))
    modify fun s => { s with
      nextSync := now + min 60000 (roundHalfEven (fl (backoff s.failures * j))),
      roundStart := none, pending := none, candidates := [],
      state := if s.utc = none ∧ s.state ≠ .maintenance then .unsynced else s.state }

/-- The open round has run out of time or of attempts. -/
def PlatformTime.roundOver (s : PlatformTime) (now : ℤ) : Bool :=
  match s.roundStart with
  | some start => start + 30000 ≤ now || (10 ≤ s.attempts && s.pending.isNone)
  | none => false

/-- The end of `request`: open a round if none is open, and ask. -/
def PlatformTime.issue (inp : Inputs) (now : ℤ) : TimeProg (Option TimeRequest) := do
  if now < (← get).nextSync then return none
  else
    if (← get).roundStart = none then
      modify fun s => { s with
        roundStart := some now, attempts := 0, candidates := [],
        state := if s.utc = none then .syncing else s.state }
    else pure ()
    let s ← get
    if s.roundStart.getD now + 30000 ≤ now ∨ 10 ≤ s.attempts then
      finishRound inp now
      return none
    else
      let requestId ← freshId inp
      let pending : TimeRequest :=
        ⟨1, s.gateway, requestId, s.bootId, s.session.getD [], now⟩
      modify fun s => { s with pending := some pending, attempts := s.attempts + 1 }
      return some pending

/-- The middle of `request`, once the outstanding request has waited too long. -/
def PlatformTime.retry (inp : Inputs) (now : ℤ) : TimeProg (Option TimeRequest) := do
  modify fun s => { s with pending := none }
  if 10 ≤ (← get).attempts then finishRound inp now else pure ()
  issue inp now

/-- `request` after it has ended a round that is over. -/
def PlatformTime.ask (inp : Inputs) (now : ℤ) : TimeProg (Option TimeRequest) := do
  match (← get).pending with
  | none => issue inp now
  | some p => if now < p.clientMonoMs + 2000 then return none else retry inp now

/-- `request()`; the bytes sent are the JSON of the result. -/
def PlatformTime.request (inp : Inputs) : TimeProg (Option TimeRequest) := do
  let now := (← snapshot inp).monoMs
  let s ← get
  if !s.platform || s.session.isNone || s.state == .maintenance then return none
  else
    if s.roundOver now then finishRound inp now else pure ()
    ask inp now

/-! ## Responses -/

/-- The members of a valid response. -/
def TimeResponse.ofJson (j : Json) : Option TimeResponse := do
  let .int schemaVersion ← j.get? (py "schemaVersion") | none
  let .str gatewayId ← j.get? (py "gatewayId") | none
  let .str requestId ← j.get? (py "requestId") | none
  let .str bootId ← j.get? (py "bootId") | none
  let .str sessionId ← j.get? (py "sessionId") | none
  let .int clientMonoMs ← j.get? (py "clientMonoMs") | none
  let .int serverReceivedAt ← j.get? (py "serverReceivedAt") | none
  let .int serverSentAt ← j.get? (py "serverSentAt") | none
  return ⟨⟨schemaVersion, gatewayId, requestId, bootId, sessionId, clientMonoMs⟩,
    serverReceivedAt, serverSentAt⟩

/-- `validate_message('timeResponse', ...)` and the message it accepts. -/
def readResponse [JsonSchema] (payload : Bytes) (gateway : PyStr) :
    Except PyExc (Option TimeResponse) := do
  match ← validateMessage .timeResponse payload gateway with
  | [] => return (decodeMessage payload).bind TimeResponse.ofJson
  | _ => return none

/-- The delays of a response. -/
structure Delays where
  rtt : ℤ
  processing : ℤ
  path : ℤ

def TimeResponse.delays (m : TimeResponse) (received : ℤ) : Delays :=
  let rtt := received - m.echo.clientMonoMs
  let processing := m.serverSentAt - m.serverReceivedAt
  ⟨rtt, processing, rtt - processing⟩

def Delays.credible (d : Delays) (received now : ℤ) : Bool :=
  0 ≤ d.rtt && d.rtt < 2000 && 0 ≤ d.processing && d.processing ≤ 500 && -50 ≤ d.path
    && received ≤ now

/-- What an accepted response adds to the round.  The error covers asymmetry,
    a tolerated negative path, quantisation and the dispatch delay. -/
def TimeResponse.candidate (m : TimeResponse) (driftPpm : ℚ) (received now : ℤ) : Candidate :=
  let d := m.delays received
  let half : ℚ := fl (max 0 d.path / 2)
  { target := fl (m.serverSentAt + half), receivedMonoMs := received, path := max 0 d.path,
    rtt := d.rtt
    error := fl (fl (fl (half + max 0 (-d.path)) + 22) + drifted driftPpm (now - received)) }

/-- The candidate's whole range is representable. -/
def Candidate.inRange (c : Candidate) : Bool :=
  0 ≤ fl (c.target - c.error) && fl (c.target + c.error) ≤ maxSafe

/-- What `response` decides about a payload before it changes anything. -/
inductive Verdict where
  /-- Return `False`; the request stays outstanding. -/
  | refuse (reason : Reason)
  /-- Return `False` and give the outstanding request up. -/
  | drop (reason : Reason)
  /-- Add the candidate to the round. -/
  | take (c : Candidate)

def PlatformTime.judge [JsonSchema] (s : PlatformTime) (now : ℤ) (payload : Bytes) (received : ℤ)
    (session : Option PyStr) (retained : Bool) : Except TimeError Verdict :=
  match s.pending with
  | none =>
    .ok (.refuse (if retained ∨ session ≠ s.session then .sourceMismatch else .staleRequest))
  | some request =>
    if retained ∨ session ≠ s.session then .ok (.refuse .sourceMismatch)
    else match s.roundStart with
    | none => .error .typeError
    | some start =>
      if start + 30000 ≤ now ∨ request.clientMonoMs + 2000 ≤ now then .ok (.drop .staleRequest)
      else match readResponse payload s.gateway with
      | .error e => .error (.python e)
      | .ok none => .ok (.refuse .invalidResponse)
      | .ok (some m) =>
        if m.echo ≠ request then .ok (.refuse .staleRequest)
        else if ¬ (m.delays received).credible received now then .ok (.drop .highDelay)
        else if ¬ (m.candidate s.driftPpm received now).inRange then .ok (.drop .invalidResponse)
        else .ok (.take (m.candidate s.driftPpm received now))

/-- Store a candidate; the third one ends the round. -/
def PlatformTime.accept (inp : Inputs) (c : Candidate) (now : ℤ) : TimeProg Unit := do
  modify fun s => { s with candidates := s.candidates ++ [c], pending := none }
  if 3 ≤ (← get).candidates.length then finishRound inp now else pure ()

def PlatformTime.response [JsonSchema] (inp : Inputs) (payload : Bytes) (received : ℤ)
    (session : Option PyStr) (retained : Bool) : TimeProg Bool := do
  let now ← readMono inp
  match (← get).judge now payload received session retained with
  | .error e => raise e
  | .ok (.refuse reason) =>
    modify fun s => { s with reason := some reason }
    return false
  | .ok (.drop reason) =>
    modify fun s => { s with pending := none, reason := some reason }
    return false
  | .ok (.take c) =>
    accept inp c now
    return true

end Clock

end PlcnextIot.Core
