/-
  PlcnextIot.Core.TimeRun

  Calls on the time provider and what each helper of it does, exactly.

  The helpers that only assign are summarised by pure functions (`bumped`,
  `shut`), and the `wp` of each helper is rewritten to them.  Everything later
  modules prove about a call starts from these equations.
-/

import PlcnextIot.Core.PlatformTime
import PlcnextIot.Effect.Run

namespace PlcnextIot.Core

open PlcnextIot.Python PlcnextIot.Contracts PlcnextIot.Effect PlcnextIot.Effect.Prog

/-! ## Calls -/

inductive TimeCall where
  | connect (session : PyStr)
  | disconnect
  | request
  | response (payload : Bytes) (received : ℤ) (session : Option PyStr) (retained : Bool)
  | snapshot
  | token
  | valid (token : Option TimeToken) (purpose : Purpose)
  | require (token : Option TimeToken) (purpose : Purpose)
  | controlSubmitted (kind : ControlKind) (token : Option TimeToken)
  | loadHistoryBoundary (basis : Option PyStr) (utcLower : Option ℤ)
  deriving DecidableEq

inductive TimeOutcome where
  | done
  | request (r : Option TimeRequest)
  | accepted (b : Bool)
  | snapshot (t : TimeSnapshot)
  | token (t : TimeToken)
  | valid (b : Bool)
  deriving DecidableEq

def TimeCall.exec [JsonSchema] [Rounding] (inp : Inputs) : TimeCall → TimeProg TimeOutcome
  | .connect session => do PlatformTime.connect session; return .done
  | .disconnect => do PlatformTime.disconnect; return .done
  | .request => do return .request (← PlatformTime.request inp)
  | .response payload received session retained => do
    return .accepted (← PlatformTime.response inp payload received session retained)
  | .snapshot => do return .snapshot (← PlatformTime.snapshot inp)
  | .token => do return .token (← PlatformTime.token inp)
  | .valid t purpose => do return .valid (← PlatformTime.valid inp t purpose)
  | .require t purpose => do return .snapshot (← PlatformTime.require inp t purpose)
  | .controlSubmitted kind t => do PlatformTime.controlSubmitted inp kind t; return .done
  | .loadHistoryBoundary basis utcLower => do
    PlatformTime.loadHistoryBoundary inp basis utcLower; return .done

/-- A step of a run of the provider. -/
abbrev TimeStep := Step TimeCall PlatformTime TimeError TimeOutcome

/-- The steps of a run that begins with the constructor. -/
def timeTrace [JsonSchema] [Rounding] (inp : Inputs) (s : PlatformTime) (calls : List TimeCall) :
    List TimeStep :=
  trace (TimeCall.exec inp) s calls

/-- The state after a run. -/
def timeRun [JsonSchema] [Rounding] (inp : Inputs) (s : PlatformTime) (calls : List TimeCall) :
    PlatformTime :=
  runCalls (TimeCall.exec inp) s calls

/-! ## A scripted provider -/

/-- Inputs with given readings; there is no system clock, and every draw is the
    middle of its interval. -/
def Inputs.scripted (mono : Nat → ℤ) : Inputs where
  mono := mono
  system _ := none
  jitter _ lo hi := (lo + hi) / 2
  uuid _ := py "0"

def TimeConfig.scripted : TimeConfig :=
  ⟨py "g", py "b", .hubMqtt, some (py "h"), some 50, some (py "e")⟩

/-- The bytes of an answer to the scripted provider's request of `clientMonoMs`. -/
def scriptedAnswer (clientMonoMs serverReceivedAt serverSentAt : ℤ) : Bytes :=
  (utf8Encode (dumps (.obj [
    (py "schemaVersion", .int 1), (py "gatewayId", .str (py "g")),
    (py "requestId", .str (py "time-0")), (py "bootId", .str (py "b")),
    (py "sessionId", .str (py "s")), (py "clientMonoMs", .int clientMonoMs),
    (py "serverReceivedAt", .int serverReceivedAt),
    (py "serverSentAt", .int serverSentAt)]))).getD []

/-- A clock that is read every 10 ms. -/
def steady : Inputs := .scripted fun i => 10 * i

theorem steady_monotone : Monotone steady.mono := by
  intro i j h
  show (10 : ℤ) * i ≤ 10 * j
  omega

/-- One round of three answers, for readings 10 ms apart. -/
def setClock : List TimeCall :=
  [.connect (py "s"), .request, .response (scriptedAnswer 20 1000 1002) 30 (some (py "s")) false,
    .request, .response (scriptedAnswer 40 1020 1022) 50 (some (py "s")) false,
    .request, .response (scriptedAnswer 60 1040 1042) 70 (some (py "s")) false]

/-! ## What the helpers do -/

/-- No revision counter is used up. -/
def PlatformTime.fresh (s : PlatformTime) : Prop :=
  max (max s.revision s.connectionRevision) s.generation < maxSafe

instance (s : PlatformTime) : Decidable s.fresh := by unfold PlatformTime.fresh; infer_instance

def PlatformTime.readNext (s : PlatformTime) : PlatformTime :=
  { s with reads := { s.reads with mono := s.reads.mono + 1 } }

def PlatformTime.bumped (inp : Inputs) (s : PlatformTime) : PlatformTime :=
  { s with
    revision := s.revision + 1, generation := s.generation + 1,
    generationStarted := inp.mono s.reads.mono,
    reads := { s.reads with mono := s.reads.mono + 1 } }

def PlatformTime.shut (state : TimeState) (reason : Reason) (s : PlatformTime) : PlatformTime :=
  { s with
    state := state, reason := some reason, sessionSynced := false, heartbeatSubmitted := false,
    getSubmitted := false, pending := none, nextSync := 0,
    fenced := s.fenced || state == .maintenance }

/-- Bump an open clock. -/
def PlatformTime.closing (inp : Inputs) (s : PlatformTime) : PlatformTime :=
  if s.state.closed then s else s.bumped inp

/-- The history variable of an invalidation. -/
def PlatformTime.noted (state : TimeState) (s : PlatformTime) : PlatformTime :=
  { s with fenced := s.fenced || state == .maintenance }

/-- The state after `settle`. -/
def PlatformTime.settled [Rounding] (inp : Inputs) (now : ℤ) (s : PlatformTime) : PlatformTime :=
  if s.expires now then (s.bumped inp).shut .expired .holdoverExpired
  else if s.validAt now then { s with state := if s.sessionSynced then .synced else .holdover }
  else s

def PlatformTime.systemNext (s : PlatformTime) : PlatformTime :=
  { s with reads := { s.reads with system := s.reads.system + 1 } }

def Inputs.systemAt (inp : Inputs) (s : PlatformTime) : Option ℤ :=
  (inp.system s.reads.system).filter fun v => 0 ≤ v ∧ v ≤ maxSafe

/-- What `snapshot` reports at `now` about a clock `m`: the published state is
    the settled one, the numbers are those from before. -/
def PlatformTime.report [Rounding] (inp : Inputs) (now : ℤ) (m : PlatformTime) : TimeSnapshot :=
  let s := m.settled inp now
  { bootId := s.bootId, monoMs := now,
    utcMs := if m.validAt now then s.utc.map fun utc => ⌊utc⌋ else none,
    systemUtcMs := inp.systemAt s, uncertaintyMs := m.errorAt now, source := s.mode,
    state := s.state, timeValid := m.validAt now, syncAgeMs := m.age now,
    clockRevision := s.revision, timeBasisRef := if s.platform then s.basis else none,
    connectionRevision := s.connectionRevision }

section Helpers

variable {inp : Inputs} {s : PlatformTime} {E : TimeError → PlatformTime → Prop}

@[simp] theorem wp_readMono {Q : ℤ → PlatformTime → Prop} :
    wp (PlatformTime.readMono inp) Q E s ↔ Q (inp.mono s.reads.mono) s.readNext := by
  simp [PlatformTime.readMono, PlatformTime.readNext]

@[simp] theorem wp_bump {Q : Unit → PlatformTime → Prop} :
    wp (PlatformTime.bump inp) Q E s ↔
      (s.fresh → Q () (s.bumped inp)) ∧ (¬ s.fresh → E .timeUnavailable s) := by
  simp [PlatformTime.bump, PlatformTime.bumped, PlatformTime.fresh, PlatformTime.readNext]

/-- An invalidation bumps the revision exactly when time was open. -/
theorem wp_invalidate {Q : Unit → PlatformTime → Prop} (state : TimeState) (reason : Reason) :
    wp (PlatformTime.invalidate inp state reason) Q E s ↔
      (s.state.closed = true → Q () (s.shut state reason)) ∧
      (s.state.closed = false → s.fresh → Q () ((s.bumped inp).shut state reason)) ∧
      (s.state.closed = false → ¬ s.fresh → E .timeUnavailable (s.noted state)) := by
  by_cases h : s.state.closed <;>
    simp [PlatformTime.invalidate, PlatformTime.shut, PlatformTime.bumped, PlatformTime.fresh,
      PlatformTime.noted, h]

@[simp] theorem noted_expired : s.noted .expired = s := by
  simp [PlatformTime.noted, show (TimeState.expired == TimeState.maintenance) = false from rfl]

@[simp] theorem noted_suspect : s.noted .suspect = s := by
  simp [PlatformTime.noted, show (TimeState.suspect == TimeState.maintenance) = false from rfl]

@[simp] theorem wp_readSystem {Q : Option ℤ → PlatformTime → Prop} :
    wp (PlatformTime.readSystem inp) Q E s ↔ Q (inp.systemAt s) s.systemNext := by
  simp [PlatformTime.readSystem, PlatformTime.systemNext, Inputs.systemAt]

variable [Rounding]

/-- An expiring clock is open. -/
theorem closed_of_expires {now : ℤ} (h : s.expires now = true) : s.state.closed = false := by
  unfold PlatformTime.expires at h
  cases hs : s.state <;> simp [hs, TimeState.closed] at h ⊢

theorem wp_settle {Q : Unit → PlatformTime → Prop} {now : ℤ} :
    wp (PlatformTime.settle inp now) Q E s ↔
      (s.expires now = true → ¬ s.fresh → E .timeUnavailable s) ∧
      ((s.expires now = true → s.fresh) → Q () (s.settled inp now)) := by
  by_cases h : s.expires now = true
  · have hc := closed_of_expires h
    by_cases hf : s.fresh <;>
      simp [PlatformTime.settle, PlatformTime.settled, h, hf, wp_invalidate, hc]
  · rw [Bool.not_eq_true] at h
    by_cases hv : s.validAt now = true <;>
      simp [PlatformTime.settle, PlatformTime.settled, h, hv]

@[simp] theorem slew_lastObservedMono (now : ℤ) : (s.slew now).lastObservedMono = now := by
  unfold PlatformTime.slew; split <;> rfl

@[simp] theorem slew_lastMono (now : ℤ) : (s.slew now).lastMono = now := by
  unfold PlatformTime.slew; split <;> rfl

/-- Slewing touches nothing but the clock registers. -/
theorem slew_frame (s : PlatformTime) (now : ℤ) :
    s.slew now = { s with
      lastObservedMono := now, lastMono := now, utc := (s.slew now).utc,
      residual := (s.slew now).residual } := by
  unfold PlatformTime.slew; split <;> simp [*]

/-- The logical clock moves with the reading and works off the residual. -/
theorem slew_utc (s : PlatformTime) (now : ℤ) :
    (s.slew now).utc = s.utc.map fun utc =>
      fl (utc + fl (max 0 ((now : ℚ) - s.lastMono) +
        slewCorrection (max 0 (now - s.lastMono)) s.residual)) := by
  unfold PlatformTime.slew
  split <;> simp [*]

@[simp] theorem slew_readNext (now : ℤ) : s.readNext.slew now = (s.slew now).readNext := by
  unfold PlatformTime.slew PlatformTime.readNext
  cases s.utc <;> rfl

/-- With nondecreasing readings, `_advance` only slews. -/
theorem wp_advance_of_le {Q : Unit → PlatformTime → Prop} {now : ℤ}
    (h : s.lastObservedMono ≤ now) : wp (PlatformTime.advance inp now) Q E s ↔ Q () (s.slew now) := by
  simp [PlatformTime.advance, not_lt.mpr h]

/-- A decreasing reading closes the clock. -/
theorem wp_advance_of_lt {Q : Unit → PlatformTime → Prop} {now : ℤ}
    (h : now < s.lastObservedMono) :
    wp (PlatformTime.advance inp now) Q E s ↔
      wp (PlatformTime.invalidate inp .maintenance .clockContinuityRequiresMaintenance)
        (fun _ s' => Q () (PlatformTime.slew now { s' with utc := none })) E s := by
  simp [PlatformTime.advance, h]

/-- A snapshot looks at the clock that `_advance` left. -/
theorem wp_snapshot {Q : TimeSnapshot → PlatformTime → Prop} :
    wp (PlatformTime.snapshot inp) Q E s ↔
      wp (PlatformTime.advance inp (inp.mono s.reads.mono)) (fun _ m =>
        (m.expires (inp.mono s.reads.mono) = true → ¬ m.fresh → E .timeUnavailable m) ∧
        ((m.expires (inp.mono s.reads.mono) = true → m.fresh) →
          Q (m.report inp (inp.mono s.reads.mono))
            (m.settled inp (inp.mono s.reads.mono)).systemNext))
        E s.readNext := by
  simp only [PlatformTime.snapshot, wp_bind, wp_readMono, wp_get, wp_settle, wp_readSystem,
    wp_pure]
  rfl

end Helpers

end PlcnextIot.Core
