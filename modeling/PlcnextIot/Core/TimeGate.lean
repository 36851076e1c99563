/-
  PlcnextIot.Core.TimeGate

  What a passed time gate returns.

  `require` takes two readings.  It checks the gate on the first and returns a
  snapshot of the second, and the validity of the clock (its age, its error
  bound, its range) can be lost in between.  The callers then stamp their
  message with the system clock.  The returned snapshot is usable exactly when
  the age, the residual and the drift of the clock leave it good for the second
  reading (`inTime`).
-/

import PlcnextIot.Core.TimeTrack

namespace PlcnextIot.Core

open PlcnextIot.Python PlcnextIot.Contracts PlcnextIot.Effect PlcnextIot.Effect.Prog

/-! ## The property and the condition -/

/-- The stamp that `TelemetryPipeline._flush` and `publish_control` put on a
    message. -/
def TimeSnapshot.stamp (t : TimeSnapshot) : Option ℤ :=
  if t.timeValid then t.utcMs else t.systemUtcMs

/-- A snapshot that carries platform time. -/
structure TimeSnapshot.Usable (t : TimeSnapshot) : Prop where
  valid : t.timeValid = true
  utc : t.utcMs ≠ none
  uncertainty : t.uncertaintyMs ≠ none
  stamp : t.stamp = t.utcMs

/-- What a purpose asks of the session. -/
def PlatformTime.ready (s : PlatformTime) : Purpose → Bool
  | .controlSend => s.session.isSome && s.sessionSynced
  | .send => s.session.isSome && s.sessionSynced && (s.heartbeatSubmitted && s.getSubmitted)
  | _ => true

/-- The gate is open at a reading. -/
def PlatformTime.gateOpen [Rounding] (s : PlatformTime) (now : ℤ) (token : Option TimeToken)
    (purpose : Purpose) : Bool :=
  token.isSome && s.current now token && (s.slew now).validAt now && s.ready purpose

/-- What `elapsed` more milliseconds leave of a residual. -/
def workedOff [Rounding] (elapsed : ℤ) (residual : ℚ) : ℚ :=
  fl (residual - slewCorrection elapsed residual)

/-- Where they move a clock that has it. -/
def movedOn [Rounding] (elapsed : ℤ) (utc residual : ℚ) : ℚ :=
  fl (utc + fl (elapsed + slewCorrection elapsed residual))

/-- A clock that is read at `a` is good for a second reading at `b`: the hour since
    the synchronisation is not over, the error bound has not grown to a second, and
    the range around the UTC is representable.  The bound counts the drift since the
    synchronisation and what the two readings leave of the residual. -/
def PlatformTime.inTime [Rounding] (s : PlatformTime) (a b : ℤ) : Bool :=
  match s.utc, s.syncMono with
  | some utc, some sync =>
    let rest := workedOff (a - s.lastMono) s.residual
    let shown := movedOn (b - a) (movedOn (a - s.lastMono) utc s.residual) rest
    let bound := ⌈fl (fl (s.uncertainty + drifted s.driftPpm (b - sync))
      + |workedOff (b - a) rest|)⌉
    b - sync < 3600000 && bound < 1000 && 0 ≤ fl (shown - bound) && fl (shown + bound) ≤ maxSafe
  | _, _ => false

/-! ## Two readings -/

section Gate

variable {inp : Inputs} {s : PlatformTime} {token : Option TimeToken} {purpose : Purpose}

/-- A purpose that asks for a known time asks a valid clock for the session only. -/
theorem permits_eq_ready {t : TimeSnapshot} (hp : s.platform = true)
    (hg : purpose.guarded = true) : s.permits t purpose = (t.timeValid && s.ready purpose) := by
  cases purpose <;> simp [PlatformTime.permits, PlatformTime.permits.timeKnown,
    PlatformTime.permits.synced, PlatformTime.ready, hp, Purpose.guarded, Bool.and_assoc] at hg ⊢

variable [Rounding]

/-- Validity looks at the registers, and at whether the clock is open. -/
theorem validAt_congr {s' : PlatformTime} {now : ℤ}
    (hst : (s'.state == .synced || s'.state == .holdover)
      = (s.state == .synced || s.state == .holdover))
    (hreg : s'.registers = s.registers) : s'.validAt now = s.validAt now := by
  simp only [PlatformTime.registers, Prod.mk.injEq] at hreg
  obtain ⟨hm, hd, -, -, hu, hr, he, hs⟩ := hreg
  have hp : s'.platform = s.platform := by rw [PlatformTime.platform, hm]; rfl
  simp only [PlatformTime.validAt, PlatformTime.errorAt, PlatformTime.age, hp, hst, hd, hu, hr,
    he, hs]

/-- A valid clock that settles only moves between `SYNCED` and `HOLDOVER`. -/
theorem settled_of_validAt (inp : Inputs) {now : ℤ} (h : s.validAt now = true) :
    s.settled inp now = { s with state := if s.sessionSynced then .synced else .holdover } := by
  have he : s.expires now = false := by simp [PlatformTime.expires, h]
  simp [PlatformTime.settled, he, h]

/-- An open clock in platform mode is valid or expires. -/
theorem expires_eq_not_validAt {now : ℤ} (hp : s.platform = true)
    (hst : (s.state == .synced || s.state == .holdover) = true) :
    s.expires now = !s.validAt now := by
  simp [PlatformTime.expires, hp, hst]

theorem state_of_validAt {now : ℤ} (h : s.validAt now = true) :
    (s.state == .synced || s.state == .holdover) = true := by
  unfold PlatformTime.validAt at h
  simp only [Bool.and_eq_true] at h
  exact h.1.2

/-- The state after the gate's own snapshot, which found the clock valid. -/
def PlatformTime.passed (s : PlatformTime) (now : ℤ) : PlatformTime :=
  ({ (s.slew now).readNext with
    state := if (s.slew now).sessionSynced then .synced else .holdover } : PlatformTime).systemNext

section Passed

variable (s) (now : ℤ)

/-- The fields that the gate's snapshot leaves alone. -/
theorem passed_frame :
    s.passed now = { s with
      lastObservedMono := now, lastMono := now, utc := (s.slew now).utc,
      residual := (s.slew now).residual, state := (s.passed now).state,
      reads := (s.passed now).reads } := by
  unfold PlatformTime.passed PlatformTime.systemNext PlatformTime.readNext
  rw [slew_frame]

theorem passed_state :
    (s.passed now).state = if s.sessionSynced then .synced else .holdover := by
  unfold PlatformTime.passed PlatformTime.systemNext PlatformTime.readNext
  rw [slew_frame]

theorem passed_reads : (s.passed now).reads.mono = s.reads.mono + 1 := by
  unfold PlatformTime.passed PlatformTime.systemNext PlatformTime.readNext
  rw [slew_frame]

/-- After the gate's snapshot the clock is open. -/
theorem passed_open :
    ((s.passed now).state == .synced || (s.passed now).state == .holdover) = true := by
  rw [passed_state]
  cases s.sessionSynced <;> rfl

end Passed

/-- Slewing looks at the registers only. -/
theorem slew_registers_congr {s' : PlatformTime} (h : s'.registers = s.registers) (now : ℤ) :
    (s'.slew now).registers = (s.slew now).registers := by
  simp only [PlatformTime.registers, Prod.mk.injEq] at h
  obtain ⟨hm, hd, hlo, hl, hu, hr, he, hs⟩ := h
  unfold PlatformTime.slew
  rw [hu]
  split <;> simp only [PlatformTime.registers, hm, hd, hl, hr, he, hs]

theorem state_slew (now : ℤ) : (s.slew now).state = s.state := by rw [slew_frame]

theorem platform_slew (now : ℤ) : (s.slew now).platform = s.platform := by rw [slew_frame]; rfl

theorem fresh_slew (now : ℤ) : (s.slew now).fresh ↔ s.fresh := by
  unfold PlatformTime.fresh
  rw [slew_frame]

theorem settled_platform (now : ℤ) : (s.settled inp now).platform = s.platform := by
  unfold PlatformTime.settled
  split
  · rfl
  · split <;> rfl

/-- The second reading of a passed gate finds the clock moved on once more. -/
theorem passed_validAt {a b : ℤ} (hv : (s.slew a).validAt a = true) :
    ((s.passed a).readNext.slew b).validAt b = ((s.slew a).slew b).validAt b := by
  refine validAt_congr ?_ (slew_registers_congr ?_ b)
  · rw [state_slew, state_slew]
    exact (passed_open s a).trans (state_of_validAt hv).symm
  · unfold PlatformTime.registers PlatformTime.readNext
    rw [passed_frame, slew_frame]

/-- Slewing at a reading that has been reached, in terms of the registers. -/
theorem slew_of_le {utc : ℚ} (hu : s.utc = some utc) {now : ℤ} (hn : s.lastMono ≤ now) :
    s.slew now = { s with
      lastObservedMono := now, lastMono := now
      utc := some (movedOn (now - s.lastMono) utc s.residual)
      residual := workedOff (now - s.lastMono) s.residual } := by
  have hmax : max (0 : ℚ) (now - s.lastMono) = ((now - s.lastMono : ℤ) : ℚ) := by
    have : (s.lastMono : ℚ) ≤ now := by exact_mod_cast hn
    rw [max_eq_right (by linarith), Int.cast_sub]
  unfold PlatformTime.slew
  rw [hu]
  simp only [hmax, movedOn, workedOff]

/-- The code's own second test of an open clock, in terms of the registers before
    the call. -/
theorem validAt_twice {F : ℤ → ℚ → ℚ → Prop} {d : ℚ} {a b : ℤ} (h : Tracks inp F d s)
    (ha : s.lastMono ≤ a) (hab : a ≤ b) (hopen : (s.state == .synced || s.state == .holdover) = true) :
    ((s.slew a).slew b).validAt b = s.inTime a b := by
  have hp : ((s.slew a).slew b).platform = true := by
    rw [platform_slew, platform_slew, PlatformTime.platform, h.mode]
    rfl
  have hst : ((s.slew a).slew b).state = s.state := (state_slew b).trans (state_slew a)
  unfold PlatformTime.validAt
  rw [hp, hst, hopen, Bool.true_and, Bool.true_and]
  cases hu : s.utc with
  | none =>
      have hnone : ((s.slew a).slew b).utc = none := by rw [slew_utc, slew_utc, hu]; rfl
      simp only [PlatformTime.inTime, hu, hnone, usable]
  | some utc =>
      obtain ⟨sync, hs, hle, -⟩ := h.clock utc hu
      have hage : max 0 (b - sync) = b - sync := by omega
      have hfirst := slew_of_le hu ha
      have hsecond := slew_of_le (s := s.slew a) (congrArg PlatformTime.utc hfirst)
        ((slew_lastMono a).trans_le hab)
      rw [hsecond, hfirst]
      simp only [PlatformTime.inTime, PlatformTime.errorAt, PlatformTime.age, hu, hs, usable, hage,
        Option.map_some]

/-- The snapshot of a valid clock passes the gate exactly when it is open. -/
theorem passed_permits {a : ℤ} {t : TimeSnapshot} (hp : s.platform = true)
    (hg : purpose.guarded = true) (ht : t.timeValid = true) {tok : TimeToken}
    (hv : (s.slew a).validAt a = true) :
    ((s.passed a).current a (some tok) && (s.passed a).permits t purpose)
      = s.gateOpen a (some tok) purpose := by
  have hready : (s.passed a).ready purpose = s.ready purpose := by
    unfold PlatformTime.ready
    rw [passed_frame]
  have hcur : (s.passed a).current a (some tok) = s.current a (some tok) := by
    unfold PlatformTime.current
    rw [passed_frame]
  have hplat : (s.passed a).platform = true := by
    rw [passed_frame]
    exact hp
  rw [permits_eq_ready hplat hg, ht, Bool.true_and, hready, hcur]
  simp [PlatformTime.gateOpen, hv]

/-- `require` returns what its second snapshot reports, if its gate is open at
    the first reading and the second does not raise. -/
theorem wp_require_returns {Q : TimeSnapshot → Prop} (hp : s.platform = true)
    (hg : purpose.guarded = true) (ho : s.lastObservedMono = s.lastMono)
    (ha : s.lastMono ≤ inp.mono s.reads.mono)
    (hab : inp.mono s.reads.mono ≤ inp.mono (s.reads.mono + 1)) :
    let a := inp.mono s.reads.mono
    let b := inp.mono (s.reads.mono + 1)
    let m := (s.passed a).readNext.slew b
    wp (PlatformTime.require inp token purpose) (fun t _ => Q t) (fun _ _ => True) s ↔
      (s.gateOpen a token purpose = true → (m.expires b = true → m.fresh) → Q (m.report inp b)) := by
  intro a b m
  cases token with
  | none => simp [PlatformTime.require, PlatformTime.gateOpen, hp, hg]
  | some tok =>
  have hle : s.readNext.lastObservedMono ≤ a := ho.le.trans ha
  simp only [PlatformTime.require, PlatformTime.valid, wp_bind, wp_get, wp_check, wp_pure]
  rw [wp_snapshot, wp_advance_of_le hle, slew_readNext]
  have hvr : (s.slew a).readNext.validAt a = (s.slew a).validAt a := rfl
  -- Time that is not valid at the first reading opens no gate.
  cases hv : (s.slew a).validAt a with
  | false =>
      have hgate : s.gateOpen a (some tok) purpose = false := by simp [PlatformTime.gateOpen, hv]
      have hshut : ∀ (s' : PlatformTime), s'.platform = true →
          s'.permits ((s.slew a).readNext.report inp a) purpose = false := by
        intro s' hp'
        rw [permits_eq_ready hp' hg, show ((s.slew a).readNext.report inp a).timeValid = false
          from hv, Bool.false_and]
      have hplat : ((s.slew a).readNext.settled inp a).systemNext.platform = true := by
        show ((s.slew a).readNext.settled inp a).platform = true
        rw [settled_platform]
        exact (platform_slew a).trans hp
      simp only [hgate, Bool.false_eq_true, false_implies, implies_true, and_true, iff_true,
        Bool.and_eq_true]
      intro _
      refine ⟨trivial, fun _ hgo => ?_⟩
      exact absurd ((hshut _ hplat).symm.trans hgo.2) Bool.false_ne_true
  | true =>
      have hset : ((s.slew a).readNext.settled inp a).systemNext = s.passed a := by
        rw [settled_of_validAt inp (hvr.trans hv)]
        rfl
      have hrep : ((s.slew a).readNext.report inp a).timeValid = true := hv
      have hexp : (s.slew a).readNext.expires a = false := by
        simp [PlatformTime.expires, hvr, hv]
      have hmono : ((s.slew a).readNext.report inp a).monoMs = a := rfl
      have hle' : (s.passed a).readNext.lastObservedMono ≤ b := by
        rw [passed_frame]
        exact hab
      rw [hset, hexp, hmono, passed_permits hp hg hrep hv, wp_snapshot, passed_reads,
        wp_advance_of_le hle']
      simp only [reduceCtorEq, Bool.false_eq_true, false_implies, true_implies, implies_true,
        and_true, true_and, and_false, false_and, not_false_eq_true]
      rfl

/-- A snapshot is usable exactly when the clock it looks at is valid. -/
theorem report_usable_iff {m : PlatformTime} {now : ℤ} :
    (m.report inp now).Usable ↔ m.validAt now = true := by
  refine ⟨fun h => h.valid, fun hv => ?_⟩
  have husable : usable m.utc (m.age now) (m.errorAt now) = true := by
    unfold PlatformTime.validAt at hv
    simp only [Bool.and_eq_true] at hv
    exact hv.2
  have hset := settled_of_validAt inp hv
  refine ⟨hv, ?_, ?_, ?_⟩
  · unfold PlatformTime.report
    cases hu : m.utc with
    | none => simp [usable, hu] at husable
    | some utc => simp [hv, hset, hu]
  · show m.errorAt now ≠ none
    intro he
    simp [usable, he] at husable
  · exact if_pos hv

/-- The flag of a snapshot and its time go together. -/
structure TimeSnapshot.Coherent (t : TimeSnapshot) : Prop where
  usable : t.timeValid = true → t.Usable
  dated : t.utcMs ≠ none → t.timeValid = true

theorem report_coherent {m : PlatformTime} {now : ℤ} : (m.report inp now).Coherent := by
  refine ⟨fun hv => report_usable_iff.mpr hv, fun hdated => ?_⟩
  by_contra hinvalid
  have hv : ¬ m.validAt now = true := hinvalid
  refine hdated ?_
  unfold PlatformTime.report
  exact if_neg hv

theorem wp_snapshot_coherent :
    wp (PlatformTime.snapshot inp) (fun t _ => t.Coherent) (fun _ _ => True) s := by
  rw [wp_snapshot]
  exact wp_of_forall (fun _ m => ⟨fun _ _ => trivial, fun _ => report_coherent⟩) fun _ _ => trivial

theorem wp_require_coherent :
    wp (PlatformTime.require inp token purpose) (fun t _ => t.Coherent) (fun _ _ => True) s := by
  simp only [PlatformTime.require, wp_bind, wp_get, wp_check]
  refine ⟨fun _ => ?_, fun _ => trivial⟩
  refine wp_of_forall (fun ok t => ?_) fun _ _ => trivial
  exact ⟨fun _ => wp_snapshot_coherent, fun _ => trivial⟩

/-- `require` returns a snapshot of a valid clock exactly when the clock is good for
    the second reading (or the revision counter is used up, so that `require` raises
    instead of expiring). -/
theorem wp_require_valid {Q : TimeSnapshot → Prop} {d : ℚ} (hmono : Monotone inp.mono)
    (htrack : Tracks inp (fun _ _ _ => True) d s) (hg : purpose.guarded = true)
    (hQ : ∀ (m : PlatformTime) now, Q (m.report inp now) ↔ m.validAt now = true) :
    let a := inp.mono s.reads.mono
    let b := inp.mono (s.reads.mono + 1)
    wp (PlatformTime.require inp token purpose) (fun t _ => Q t) (fun _ _ => True) s ↔
      (s.gateOpen a token purpose = true → s.fresh → s.inTime a b = true) := by
  intro a b
  have hp : s.platform = true := by simp [PlatformTime.platform, htrack.mode]
  have ha : s.lastMono ≤ a := htrack.ahead _ le_rfl
  have hab : a ≤ b := hmono (Nat.le_succ _)
  have hiff := @wp_require_returns inp s token purpose _ Q hp hg htrack.observed ha hab
  simp only [hQ] at hiff
  refine hiff.trans (forall_congr' fun hgate => ?_)
  have hv : (s.slew a).validAt a = true := by
    simp only [PlatformTime.gateOpen, Bool.and_eq_true] at hgate
    exact hgate.1.2
  have hsecond : ((s.passed a).readNext.slew b).validAt b = s.inTime a b :=
    (passed_validAt hv).trans (validAt_twice htrack ha hab (state_slew (s := s) a ▸ state_of_validAt hv))
  -- The passed clock is open, so at the second reading it is valid or expires.
  have hexp : ((s.passed a).readNext.slew b).expires b = !s.inTime a b := by
    rw [← hsecond]
    refine expires_eq_not_validAt ?_ ?_
    · rw [platform_slew, passed_frame]
      exact hp
    · rw [state_slew]
      exact passed_open s a
  have hfresh : ((s.passed a).readNext.slew b).fresh ↔ s.fresh :=
    (fresh_slew b).trans (by rw [passed_frame]; rfl)
  rw [hexp, hfresh, hsecond]
  cases s.inTime a b <;> simp

/-- A passed gate returns a usable snapshot exactly when the clock is good for both
    readings. -/
theorem require_usable_iff {d : ℚ} (hmono : Monotone inp.mono)
    (htrack : Tracks inp (fun _ _ _ => True) d s) (hg : purpose.guarded = true) :
    let a := inp.mono s.reads.mono
    let b := inp.mono (s.reads.mono + 1)
    (∀ t s', (PlatformTime.require inp token purpose).run s = (.ok t, s') → t.Usable) ↔
      (s.gateOpen a token purpose = true → s.fresh → s.inTime a b = true) := by
  intro a b
  have hiff := @wp_require_valid inp s token purpose _ _ d hmono htrack hg fun _ _ => report_usable_iff
  rw [wp_iff_run] at hiff
  simpa only [implies_true, and_true] using hiff

end Gate

end PlcnextIot.Core
