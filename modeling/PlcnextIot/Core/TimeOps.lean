/-
  PlcnextIot.Core.TimeOps

  Every operation of the provider, what it observes, and how it can change the
  state.

  `TimeCall` lists the calls that other modules make; `TimeOp` adds the
  remaining public methods.  `Evolves` says once what an operation can do to
  the revisions, to the openness of the clock and to the three session flags:
  an open clock closes, and a clock is anchored again, only with a new
  revision; a flag is set only by what grants it and survives only in the same
  revision and connection.
-/

import PlcnextIot.Core.TimeGate
import PlcnextIot.Core.TimeFence

namespace PlcnextIot.Core

open PlcnextIot.Python PlcnextIot.Contracts PlcnextIot.Effect PlcnextIot.Effect.Prog

/-! ## The remaining methods -/

inductive CaptureSource where
  | hubMqtt
  | systemRtcCompat
  deriving DecidableEq, Repr

/-- The time of a capture. -/
structure CaptureTime where
  utcMs : Option ℤ
  timeValid : Bool
  clockRevision : ℤ
  generation : ℤ
  source : CaptureSource
  generationStartedMonoMs : Option ℤ
  deriving DecidableEq

section Methods

variable [Rounding]

/-- `read(completed_mono_ms)`; a capture from before the current generation has
    no platform time. -/
def PlatformTime.read (inp : Inputs) (completedMonoMs : ℤ) : TimeProg CaptureTime := do
  let t ← snapshot inp
  let s ← get
  let valid := t.timeValid && s.generationStarted ≤ completedMonoMs
    && completedMonoMs ≤ t.monoMs + 1
  return {
    utcMs := if valid then t.utcMs else if !s.platform then t.systemUtcMs else none
    timeValid := valid, clockRevision := s.revision, generation := s.generation
    source := if s.platform then .hubMqtt else .systemRtcCompat
    generationStartedMonoMs := some s.generationStarted }

structure TimeDiagnostics where
  snapshot : TimeSnapshot
  reason : Option Reason
  sessionSynced : Bool
  controlReady : Bool
  attempts : Nat
  pendingRequest : Bool
  driftEvidence : Option PyStr
  deriving DecidableEq

def PlatformTime.diagnostics (inp : Inputs) (c : TimeConfig) : TimeProg TimeDiagnostics := do
  let t ← snapshot inp
  let s ← get
  return ⟨t, s.reason, s.sessionSynced, s.heartbeatSubmitted && s.getSubmitted, s.attempts,
    s.pending.isSome, c.driftEvidence⟩

end Methods

/-! ## Operations -/

inductive TimeOp where
  | call (c : TimeCall)
  | requireMaintenance
  | read (completedMonoMs : ℤ)
  | diagnostics
  | readMono
  deriving DecidableEq

inductive TimeOpOutcome where
  | call (out : TimeOutcome)
  | done
  | capture (t : CaptureTime)
  | diagnostics (d : TimeDiagnostics)
  | mono (now : ℤ)
  deriving DecidableEq

section Steps

variable [Rounding]

def TimeOp.exec [JsonSchema] (inp : Inputs) (c : TimeConfig) : TimeOp → TimeProg TimeOpOutcome
  | .call k => do return .call (← k.exec inp)
  | .requireMaintenance => do PlatformTime.requireMaintenance inp; return .done
  | .read completed => do return .capture (← PlatformTime.read inp completed)
  | .diagnostics => do return .diagnostics (← PlatformTime.diagnostics inp c)
  | .readMono => do return .mono (← PlatformTime.readMono inp)

/-- A step of a run of any operations. -/
abbrev TimeOpStep := Step TimeOp PlatformTime TimeError TimeOpOutcome

def opTrace [JsonSchema] (inp : Inputs) (c : TimeConfig) (s : PlatformTime) (ops : List TimeOp) :
    List TimeOpStep :=
  trace (TimeOp.exec inp c) s ops

def opRun [JsonSchema] (inp : Inputs) (c : TimeConfig) (s : PlatformTime) (ops : List TimeOp) :
    PlatformTime :=
  runCalls (TimeOp.exec inp c) s ops

/-! ## Observations -/

/-- The snapshot taken in a state, unless it raises. -/
def PlatformTime.observe (inp : Inputs) (s : PlatformTime) : List TimeSnapshot :=
  match (snapshot inp).run s with
  | (.ok t, _) => [t]
  | (.error _, _) => []

/-- The snapshots that `require` takes: one to check the gate, one to return. -/
def PlatformTime.observeGate (inp : Inputs) (s : PlatformTime) (token : Option TimeToken)
    (purpose : Purpose) : List TimeSnapshot :=
  if s.platform ∧ token = none ∧ purpose.guarded then []
  else s.observe inp ++
    match (valid inp token purpose).run s with
    | (.ok true, s') => s'.observe inp
    | _ => []

/-- The snapshots that an operation takes. -/
def TimeOp.observations (inp : Inputs) (s : PlatformTime) : TimeOp → List TimeSnapshot
  | .call .request | .call .snapshot | .call .token | .call (.valid _ _) => s.observe inp
  | .call (.require token purpose) => s.observeGate inp token purpose
  | .call (.controlSubmitted _ token) => s.observeGate inp token .controlSend
  | .read _ | .diagnostics => s.observe inp
  | _ => []

/-- An offer that reopens a closed clock by slewing it. -/
def PlatformTime.resumesOn (s : PlatformTime) (o : ℚ × ℚ) : Bool :=
  (s.state == .suspect || s.state == .maintenance) && s.utc.isSome && !s.rollsBack o.1 o.2
    && !s.jumps o.1

/-- The target and error of the round that an operation ends, if it ends one
    with something to adopt. -/
def TimeOp.offer [JsonSchema] (inp : Inputs) (s : PlatformTime) : TimeOp → Option (ℚ × ℚ)
  | .call .request => s.requestOffer (inp.mono s.reads.mono)
  | .call (.response payload received session retained) =>
    s.responseOffer (inp.mono s.reads.mono) payload received session retained
  | _ => none

/-- The operation adopts a round on a suspect clock and slews it: time is open
    again in the revision in which it was closed. -/
def TimeOp.resumes [JsonSchema] (inp : Inputs) (s : PlatformTime) (op : TimeOp) : Bool :=
  (op.offer inp s).any (s.slew (inp.mono s.reads.mono)).resumesOn

end Steps

/-! ## What a run shows -/

/-- The states in which a snapshot can be valid. -/
def TimeState.isOpen (state : TimeState) : Bool := state == .synced || state == .holdover

def PlatformTime.opened (s : PlatformTime) : Bool := s.state.isOpen

/-- The step changed the connection. -/
def TimeOpStep.Reconnects (st : TimeOpStep) : Prop :=
  st.result.isOk = true ∧ match st.call with
    | .call (.connect _) | .call .disconnect => True
    | _ => False

instance (st : TimeOpStep) : Decidable st.Reconnects := by
  unfold TimeOpStep.Reconnects
  split <;> infer_instance

/-- A clock, moved through some readings in turn. -/
def PlatformTime.through [Rounding] (s : PlatformTime) (readings : List ℤ) : PlatformTime :=
  readings.foldl (fun s now => s.slew now) s

/-- The logical clock ran on: it is where some readings, in order, have moved it. -/
def RanOn [Rounding] (s s' : PlatformTime) : Prop :=
  ∃ readings : List ℤ, (s.lastMono :: readings).IsChain (· ≤ ·) ∧
    s'.lastMono = (s.through readings).lastMono ∧ s'.utc = (s.through readings).utc

/-- Nothing in the step interrupts valid time.  An invalidation of an open clock
    and a re-anchoring both start a new revision, so there is neither; the
    logical clock just runs on. -/
structure Uninterrupted [Rounding] (inp : Inputs) (st : TimeOpStep) : Prop where
  before : st.before.opened = true
  after : st.after.opened = true
  observed : ∀ t ∈ st.call.observations inp st.before, t.timeValid = true
  revision : st.after.revision = st.before.revision
  ran : RanOn st.before st.after
  connected : ¬ st.Reconnects

/-! ## What an operation can change -/

/-- What a step may bring about, besides keeping what there is. -/
structure Grants where
  /-- A clock that is not open may be opened without a new revision. -/
  resumed : Prop := False
  adopted : Prop := False
  heartbeat : Prop := False
  config : Prop := False

/-- The logical clock has been moved to `now`, or stayed where it was.  The residual
    may be replaced once the clock has been moved. -/
def Ran [Rounding] (now : ℤ) (s s' : PlatformTime) : Prop :=
  (s'.lastMono = now ∧ s'.utc = (s.slew now).utc) ∨
    (s'.lastMono = s.lastMono ∧ s'.utc = s.utc ∧ (s'.residual = s.residual ∨ s.lastMono = now))

/-- The same session of an open clock: neither a new revision nor a new
    connection. -/
def SameSession (s s' : PlatformTime) : Prop :=
  s'.revision = s.revision ∧ s'.connectionRevision = s.connectionRevision

/-- How the state can change. -/
structure Evolves (g : Grants) (s s' : PlatformTime) : Prop where
  revision : s.revision ≤ s'.revision
  connection : s.connectionRevision ≤ s'.connectionRevision
  stays : s'.revision = s.revision → s.opened = true → s'.opened = true
  back : s'.revision = s.revision → s'.opened = true → s.opened = true ∨ g.resumed
  synced : s'.sessionSynced = true → (s.sessionSynced = true ∧ SameSession s s') ∨ g.adopted
  heartbeat : s'.heartbeatSubmitted = true →
    (s.heartbeatSubmitted = true ∧ (s.opened = true → SameSession s s')) ∨ g.heartbeat
  config : s'.getSubmitted = true →
    (s.getSubmitted = true ∧ (s.opened = true → SameSession s s')) ∨ g.config

/-- The invariant of the flags and the anchor in platform mode. -/
structure PlatformTime.Regular (s : PlatformTime) : Prop where
  platform : s.platform = true
  anchored : s.opened = true → s.utc ≠ none
  round : s.pending ≠ none → s.roundStart ≠ none
  synced : s.sessionSynced = true → s.state = .synced

/-! ## Running on -/

section Ran

variable [Rounding] {now : ℤ} {s : PlatformTime}

/-- A slew to the reading of the last one only rounds the clock. -/
theorem slew_utc_same (h : s.lastMono = now) : (s.slew now).utc = s.utc.map fl := by
  have hzero : max (0 : ℚ) (now - s.lastMono) = 0 := by simp [h]
  rw [slew_utc, hzero]
  cases s.utc <;> simp [slewCorrection]

/-- What a slew has left is rounded. -/
theorem slew_utc_fl (s : PlatformTime) (now : ℤ) : (s.slew now).utc.map fl = (s.slew now).utc := by
  rw [slew_utc]
  cases s.utc <;> simp

theorem Ran.refl : Ran now s s := .inr ⟨rfl, rfl, .inl rfl⟩

theorem Ran.trans {a b c : PlatformTime} (h : Ran now a b) (h' : Ran now b c) : Ran now a c := by
  rcases h' with ⟨hl', hu'⟩ | ⟨hl', hu', hr'⟩
  · refine .inl ⟨hl', ?_⟩
    rw [hu']
    rcases h with ⟨hl, hu⟩ | ⟨hl, hu, hr | hr⟩
    · rw [slew_utc_same hl, hu, slew_utc_fl]
    · rw [slew_utc, slew_utc, hl, hu, hr]
    · rw [slew_utc_same (hl.trans hr), slew_utc_same hr, hu]
  · rcases h with ⟨hl, hu⟩ | ⟨hl, hu, hr⟩
    · exact .inl ⟨hl'.trans hl, hu'.trans hu⟩
    · refine .inr ⟨hl'.trans hl, hu'.trans hu, ?_⟩
      rcases hr, hr' with ⟨hr | hr, hr' | hr'⟩
      · exact .inl (hr'.trans hr)
      · exact .inr (hl.symm.trans hr')
      · exact .inr hr
      · exact .inr hr

/-- A clock that was moved to one reading ran on. -/
theorem Ran.ranOn {s' : PlatformTime} (h : Ran now s s') (hle : s.lastMono ≤ now) : RanOn s s' := by
  rcases h with ⟨hl, hu⟩ | ⟨hl, hu, -⟩
  · exact ⟨[now], .cons_cons hle (.singleton now), hl.trans (slew_lastMono now).symm, hu⟩
  · exact ⟨[], .singleton _, hl, hu⟩

/-- Exactly: a clock that ran on shows what it would have shown. -/
theorem RanOn.utc (exact : ∀ x : ℚ, fl x = x) {s' : PlatformTime} (h : RanOn s s') :
    s.lastMono ≤ s'.lastMono ∧ s'.utc = (s.slew s'.lastMono).utc := by
  obtain ⟨readings, hchain, hl, hu⟩ := h
  rw [hl, hu]
  clear hl hu
  induction readings generalizing s with
  | nil =>
      refine ⟨le_rfl, ?_⟩
      show s.utc = (s.slew s.lastMono).utc
      rw [slew_utc_same rfl]
      cases s.utc with
      | none => rfl
      | some utc => exact congrArg some (exact utc).symm
  | cons a readings ih =>
      obtain ⟨ha, hrest⟩ := List.isChain_cons_cons.mp hchain
      obtain ⟨hlater, hutc⟩ := ih (s := s.slew a) ((slew_lastMono a).symm ▸ hrest)
      rw [slew_lastMono] at hlater
      refine ⟨ha.trans hlater, hutc.trans ?_⟩
      rw [slew_slew exact ha hlater]
      rfl

end Ran

section Relations

variable {g : Grants} {s : PlatformTime}

theorem SameSession.trans {a b c : PlatformTime} (h : SameSession a b) (h' : SameSession b c) :
    SameSession a c :=
  ⟨h'.1.trans h.1, h'.2.trans h.2⟩

theorem Evolves.refl : Evolves g s s where
  revision := le_rfl
  connection := le_rfl
  stays := fun _ h => h
  back := fun _ h => .inl h
  synced := fun h => .inl ⟨h, rfl, rfl⟩
  heartbeat := fun h => .inl ⟨h, fun _ => ⟨rfl, rfl⟩⟩
  config := fun h => .inl ⟨h, fun _ => ⟨rfl, rfl⟩⟩

/-- Where the ends have the same revision, so has the middle. -/
theorem Evolves.middle {a b c : PlatformTime} (h : Evolves g a b) (h' : Evolves g b c)
    (he : c.revision = a.revision) : b.revision = a.revision ∧ c.revision = b.revision := by
  have h1 := h.revision
  have h2 := h'.revision
  omega

theorem Evolves.trans {a b c : PlatformTime} (h : Evolves g a b) (h' : Evolves g b c) :
    Evolves g a c := by
  have hmid := h.middle h'
  have hkept : (a.opened = true → SameSession a b) → (b.opened = true → SameSession b c) →
      a.opened = true → SameSession a c := by
    intro hab hbc ho
    have hs := hab ho
    exact hs.trans (hbc (h.stays hs.1 ho))
  refine ⟨h.revision.trans h'.revision, h.connection.trans h'.connection, ?_, ?_, ?_, ?_, ?_⟩
  · intro he ho
    obtain ⟨h1, h2⟩ := hmid he
    exact h'.stays h2 (h.stays h1 ho)
  · intro he ho
    obtain ⟨h1, h2⟩ := hmid he
    rcases h'.back h2 ho with hb | hr
    · exact h.back h1 hb
    · exact .inr hr
  · intro hc
    rcases h'.synced hc with ⟨hb, hs'⟩ | hg
    · rcases h.synced hb with ⟨ha, hs⟩ | hg
      · exact .inl ⟨ha, hs.trans hs'⟩
      · exact .inr hg
    · exact .inr hg
  · intro hc
    rcases h'.heartbeat hc with ⟨hb, hs'⟩ | hg
    · rcases h.heartbeat hb with ⟨ha, hs⟩ | hg
      · exact .inl ⟨ha, hkept hs hs'⟩
      · exact .inr hg
    · exact .inr hg
  · intro hc
    rcases h'.config hc with ⟨hb, hs'⟩ | hg
    · rcases h.config hb with ⟨ha, hs⟩ | hg
      · exact .inl ⟨ha, hkept hs hs'⟩
      · exact .inr hg
    · exact .inr hg

/-- More may be granted. -/
theorem Evolves.weaken {g' : Grants} {s' : PlatformTime} (h : Evolves g s s')
    (hr : g.resumed → g'.resumed) (ha : g.adopted → g'.adopted)
    (hh : g.heartbeat → g'.heartbeat) (hc : g.config → g'.config) : Evolves g' s s' where
  revision := h.revision
  connection := h.connection
  stays := h.stays
  back := fun he ho => (h.back he ho).imp_right hr
  synced := fun hs => (h.synced hs).imp_right ha
  heartbeat := fun hs => (h.heartbeat hs).imp_right hh
  config := fun hs => (h.config hs).imp_right hc

/-- A new revision that clears the flags may do anything else. -/
theorem Evolves.of_cleared {s' : PlatformTime} (hrev : s.revision < s'.revision)
    (hconn : s.connectionRevision ≤ s'.connectionRevision) (hs : s'.sessionSynced = true → g.adopted)
    (hh : s'.heartbeatSubmitted = false) (hc : s'.getSubmitted = false) : Evolves g s s' where
  revision := hrev.le
  connection := hconn
  stays := fun he => absurd he hrev.ne'
  back := fun he => absurd he hrev.ne'
  synced := fun h => .inr (hs h)
  heartbeat := fun h => by simp [hh] at h
  config := fun h => by simp [hc] at h

end Relations

end PlcnextIot.Core
