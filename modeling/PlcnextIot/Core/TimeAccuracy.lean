/-
  PlcnextIot.Core.TimeAccuracy

  The published error bound of the platform clock is sound.

  Let `U` be true UTC as a function of the monotonic reading.  The registers
  track `U` (`Tracks` for the estimates of `U`), so a valid snapshot reports
  `U` within its uncertainty.  The two milliseconds that an estimate is better
  than the recorded error pay for the rounding of the published value.  The
  arithmetic of the clock is taken to be exact here.
-/

import PlcnextIot.Core.TimeTrack

namespace PlcnextIot.Core

open PlcnextIot.Python PlcnextIot.Contracts PlcnextIot.Effect PlcnextIot.Effect.Prog

/-- A valid snapshot reports true UTC within its uncertainty. -/
def Accurate (U : ℤ → ℚ) (t : TimeSnapshot) : Prop :=
  t.timeValid = true → ∃ utc uncertainty : ℤ, t.utcMs = some utc ∧
    t.uncertaintyMs = some uncertainty ∧ |U t.monoMs - utc| ≤ uncertainty

section Accuracy

variable [Rounding] {inp : Inputs} {U : ℤ → ℚ} {d : ℚ} {s : PlatformTime}

/-- The clock a snapshot looks at, moved to its reading, reports accurately. -/
theorem report_accurate (exact : ∀ x : ℚ, fl x = x) {m : PlatformTime} {now : ℤ}
    (h : Tracks inp (Estimates U) d m) (hnow : m.lastMono = now) :
    Accurate U (m.report inp now) := by
  intro hv
  have hval : m.validAt now = true := hv
  have husable : usable m.utc (m.age now) (m.errorAt now) = true := by
    unfold PlatformTime.validAt at hval
    simp only [Bool.and_eq_true] at hval
    exact hval.2
  cases hu : m.utc with
  | none => simp [hu, usable] at husable
  | some utc =>
      obtain ⟨sync, hs, hle, he⟩ := h.clock utc hu
      have hage : m.age now = some (now - sync) := by
        unfold PlatformTime.age
        rw [hs, Option.map_some, max_eq_right (by omega)]
      have hset : (m.settled inp now).utc = some utc := by
        have : (m.settled inp now).registers = m.registers := settled_registers now
        simp only [PlatformTime.registers, Prod.mk.injEq] at this
        rw [this.2.2.2.2.1, hu]
      refine ⟨⌊utc⌋, ⌈m.uncertainty + ((now - sync : ℤ) : ℚ) * m.driftPpm / 1000000
        + |m.residual|⌉, ?_, ?_, ?_⟩
      · unfold PlatformTime.report
        simp [hval, hset]
      · show m.errorAt now = _
        unfold PlatformTime.errorAt
        rw [hage, Option.map_some, drifted, exact, exact, exact, exact]
      · rw [hnow] at he
        -- The residual and the rounding of the clock are paid for by the bound.
        have hrep := (he.report (y := utc)).report (y := (⌊utc⌋ : ℚ))
        refine le_trans hrep ?_
        have hfl : |utc - (⌊utc⌋ : ℚ)| ≤ 1 := by
          rw [abs_of_nonneg (by linarith [Int.floor_le utc])]
          linarith [Int.lt_floor_add_one utc]
        have hres : |utc + m.residual - utc| = |m.residual| := by ring_nf
        have hceil := Int.le_ceil (m.uncertainty + ((now - sync : ℤ) : ℚ) * m.driftPpm / 1000000
          + |m.residual|)
        rw [hres]
        rw [h.drift] at hceil ⊢
        unfold ppm
        push_cast at hceil ⊢
        linarith

/-- What is assumed about an accepted response: true UTC at its reception lies
    between its sending and its path after that, within 20 ms. -/
def TimeResponse.Bounds (U : ℤ → ℚ) (m : TimeResponse) (received : ℤ) : Prop :=
  (m.serverSentAt : ℚ) - 20 ≤ U received ∧
    U received ≤ m.serverSentAt + max 0 (m.delays received).path + 20

/-- The candidate of such a response estimates true UTC. -/
theorem candidate_covers (exact : ∀ x : ℚ, fl x = x) {m : TimeResponse} {received now : ℤ} {drift : ℚ}
    (hb : m.Bounds U received) (hd : 0 ≤ drift) (hn : received ≤ now) :
    (m.candidate drift received now).Covers (Estimates U) := by
  have hpath : (0 : ℚ) ≤ max 0 (-((m.delays received).path : ℤ)) := by
    exact_mod_cast le_max_left 0 _
  have hage : (0 : ℚ) ≤ (now - received) * drift / 1000000 := by
    have : (received : ℚ) ≤ now := by exact_mod_cast hn
    have := mul_nonneg (sub_nonneg.mpr this) hd
    positivity
  have hest := estimates_midpoint (U := U) (t := received) (s := 20) hb.1 hb.2
  simp only [Candidate.Covers, TimeResponse.candidate, drifted, exact]
  refine hest.weaken ?_
  push_cast at hpath ⊢
  linarith

/-- The response that a step accepts, with its reception: its candidate joins the
    round (the call returns `True`, unless the round that it ends raises). -/
def TimeStep.answer [JsonSchema] (inp : Inputs) (st : TimeStep) : Option (TimeResponse × ℤ) :=
  match st.call with
  | .response payload received session retained =>
    match st.before.judge (inp.mono st.before.reads.mono) payload received session retained,
        readResponse payload st.before.gateway with
    | .ok (.take _), .ok (some m) => some (m, received)
    | _, _ => none
  | _ => none

/-- The assumption on the accepted responses. -/
def TimeStep.Trusted [JsonSchema] (inp : Inputs) (U : ℤ → ℚ) (st : TimeStep) : Prop :=
  ∀ a ∈ TimeStep.answer inp st, a.1.Bounds U a.2

instance (m : TimeResponse) (received : ℤ) : Decidable (m.Bounds U received) :=
  inferInstanceAs (Decidable (_ ∧ _))

instance [JsonSchema] (st : TimeStep) : Decidable (TimeStep.Trusted inp U st) :=
  inferInstanceAs (Decidable (∀ a ∈ TimeStep.answer inp st, a.1.Bounds U a.2))

/-- An accepted response is the step's answer. -/
theorem mem_answer [JsonSchema] {payload : Bytes} {received : ℤ} {session : Option PyStr}
    {retained : Bool} {c : Candidate} {m : TimeResponse} {r : Except TimeError TimeOutcome}
    (hv : s.judge (inp.mono s.reads.mono) payload received session retained = .ok (.take c))
    (hm : readResponse payload s.gateway = .ok (some m)) (s' : PlatformTime) :
    (m, received) ∈ TimeStep.answer inp ⟨s, .response payload received session retained, r, s'⟩ := by
  simp [TimeStep.answer, hv, hm]

/-- Under the assumption, what a call adds to the round estimates true UTC. -/
theorem admits_of_trusted [JsonSchema] (exact : ∀ x : ℚ, fl x = x) (hd : 0 ≤ d) {call : TimeCall}
    (hs : Tracks inp (Estimates U) d s)
    (hst : TimeStep.Trusted inp U (perform (TimeCall.exec inp) s call)) :
    Admits inp (Estimates U) s call := by
  cases call with
  | response payload received session retained =>
      intro c hv
      obtain ⟨m, hm, hle, rfl⟩ := judge_take hv
      exact candidate_covers exact (hst _ (mem_answer hv hm _)) (hs.drift.ge.trans' hd) hle
  | _ => trivial

omit [Rounding] in
/-- An accepted drift bound is not negative. -/
theorem drift_nonneg {c : TimeConfig} (hmode : c.mode = .hubMqtt) (hc : c.accepted = true) :
    0 ≤ c.driftPpm.getD 0 := by
  unfold TimeConfig.accepted at hc
  rw [hmode] at hc
  cases hb : c.basis <;> cases hd : c.driftPpm <;> cases he : c.driftEvidence <;>
    simp_all

/-- In every run, a valid snapshot reports true UTC within its uncertainty. -/
theorem uncertainty_sound [JsonSchema] (exact : ∀ x : ℚ, fl x = x) {c : TimeConfig} (hmode : c.mode = .hubMqtt)
    (hc : PlatformTime.create inp c = .ok s) {calls : List TimeCall}
    (hmono : Monotone inp.mono) (hU : Drifts U (ppm s.driftPpm))
    (hb : ∀ st ∈ timeTrace inp s calls, TimeStep.Trusted inp U st) :
    ∀ st ∈ timeTrace inp s calls, ∀ t, st.result = .ok (.snapshot t) → Accurate U t := by
  unfold PlatformTime.create at hc
  split at hc
  · rename_i hacc
    cases hc
    refine trace_forall (I := Tracks inp (Estimates U) (c.driftPpm.getD 0))
      (C := TimeStep.Trusted inp U)
      (P := fun st => ∀ t, st.result = .ok (.snapshot t) → Accurate U t) ?_
      (tracks_started hmode hmono) hb
    intro s call hs hst
    have hadm : Admits inp (Estimates U) s call :=
      admits_of_trusted exact (drift_nonneg hmode hacc) hs hst
    obtain ⟨hrep, hs'⟩ := perform_tracking hmono ⟨hU.extrapolates, .inl exact⟩ hadm hs
    refine ⟨fun t ht => ?_, hs'⟩
    obtain ⟨m, hm, hlast, ht'⟩ := hrep _ ht
    rw [ht']
    exact report_accurate exact hm hlast
  · cases hc

end Accuracy

/-! ## At concrete inputs -/

section Scripted

attribute [local instance] JsonSchema.atRoot Rounding.exact

/-- True UTC is 975 ms ahead of the monotonic clock. -/
theorem uncertainty_sound_after_round :
    ((timeTrace steady (.started steady .scripted) (setClock ++ [.snapshot, .snapshot])).any fun st =>
      match st.result with
      | .ok (.snapshot t) => t.timeValid
      | _ => false) = true ∧
    ∀ st ∈ timeTrace steady (.started steady .scripted) (setClock ++ [.snapshot, .snapshot]), ∀ t,
      st.result = .ok (.snapshot t) → Accurate (fun t => (t : ℚ) + 975) t := by
  refine ⟨by decide +kernel,
    uncertainty_sound (fun _ => rfl) rfl (if_pos (by decide +kernel)) steady_monotone ?_ (by decide +kernel)⟩
  intro a b h
  have hab : (a : ℚ) ≤ b := by exact_mod_cast h
  have : ((b : ℚ) + 975) - (a + 975) - (b - a) = 0 := by ring
  rw [this, abs_zero]
  exact mul_nonneg (sub_nonneg.mpr hab) (by norm_num [ppm, PlatformTime.started,
    TimeConfig.scripted])

end Scripted

end PlcnextIot.Core
