/-
  PlcnextIot.Core.TimeTrack

  The clock registers along a run with nondecreasing readings.

  The invariant is stated for any notion of estimate `F t x e` that may be
  weakened and extrapolated (`Extrapolates`): the anchored clock, together with
  what is left of its residual, is an estimate at the last reading within
  `uncertainty - 2 + (time since the synchronisation) * drift`, and every
  candidate of the round is one at its reception within its error less two
  milliseconds.  With the trivial notion it still says that the registers are
  dated by readings that have been taken.  An estimate is kept only by exact
  arithmetic; the trivial notion, also by a rounded clock (`Trackable`).
-/

import PlcnextIot.Core.Estimate
import PlcnextIot.Core.TimeRun

namespace PlcnextIot.Core

open PlcnextIot.Python PlcnextIot.Contracts PlcnextIot.Effect PlcnextIot.Effect.Prog

/-- Parts per million of a drift rate. -/
def ppm (d : ℚ) : ℚ := d / 1000000

/-! ## The invariant -/

/-- A candidate is an estimate at its reception. -/
def Candidate.Covers (F : ℤ → ℚ → ℚ → Prop) (c : Candidate) : Prop :=
  F c.receivedMonoMs c.target (c.error - 2)

/-- The mode and the clock registers. -/
def PlatformTime.registers (s : PlatformTime) :
    Mode × ℚ × ℤ × ℤ × Option ℚ × ℚ × ℚ × Option ℤ :=
  (s.mode, s.driftPpm, s.lastObservedMono, s.lastMono, s.utc, s.residual, s.uncertainty, s.syncMono)

/-- The clock registers hold an estimate, whatever is read next. -/
structure Tracks (inp : Inputs) (F : ℤ → ℚ → ℚ → Prop) (d : ℚ) (s : PlatformTime) : Prop where
  mode : s.mode = .hubMqtt
  drift : s.driftPpm = d
  observed : s.lastObservedMono = s.lastMono
  ahead : ∀ i, s.reads.mono ≤ i → s.lastMono ≤ inp.mono i
  clock : ∀ utc, s.utc = some utc → ∃ sync, s.syncMono = some sync ∧ sync ≤ s.lastMono ∧
    F s.lastMono (utc + s.residual) (s.uncertainty - 2 + (s.lastMono - sync) * ppm d)
  covered : ∀ c ∈ s.candidates, c.Covers F
  received : ∀ c ∈ s.candidates, ∀ i, s.reads.mono ≤ i → c.receivedMonoMs ≤ inp.mono i

/-- `now` is a reading that lies between what is recorded and what is read next. -/
structure AtReading (inp : Inputs) (now : ℤ) (s : PlatformTime) : Prop where
  last : s.lastMono ≤ now
  next : ∀ i, s.reads.mono ≤ i → now ≤ inp.mono i
  received : ∀ c ∈ s.candidates, c.receivedMonoMs ≤ now

section Helpers

variable {inp : Inputs} {F : ℤ → ℚ → ℚ → Prop} {d : ℚ} {s s' : PlatformTime} {now : ℤ}

/-- The invariant is about the clock registers and the candidates. -/
theorem Tracks.congr (h : Tracks inp F d s) (hreg : s'.registers = s.registers)
    (hc : s'.candidates ⊆ s.candidates) (hn : s.reads.mono ≤ s'.reads.mono) :
    Tracks inp F d s' := by
  simp only [PlatformTime.registers, Prod.mk.injEq] at hreg
  obtain ⟨hm, hd, hlo, hl, hu, hr, he, hs⟩ := hreg
  exact {
    mode := hm.trans h.mode
    drift := hd.trans h.drift
    observed := by rw [hlo, hl, h.observed]
    ahead := fun i hi => hl ▸ h.ahead i (hn.trans hi)
    clock := by rw [hu, hr, he, hs, hl]; exact h.clock
    covered := fun c hm => h.covered c (hc hm)
    received := fun c hm i hi => h.received c (hc hm) i (hn.trans hi) }

theorem AtReading.congr (h : AtReading inp now s) (hl : s'.lastMono = s.lastMono)
    (hc : s'.candidates ⊆ s.candidates) (hn : s.reads.mono ≤ s'.reads.mono) :
    AtReading inp now s' where
  last := hl ▸ h.last
  next := fun i hi => h.next i (hn.trans hi)
  received := fun c hm => h.received c (hc hm)

end Helpers

/-! ## Slewing exactly -/

section Exact

variable [Rounding] (exact : ∀ x : ℚ, fl x = x)

include exact

theorem slewCorrection_of_nonneg {a r : ℚ} (ha : 0 ≤ a) (hr : 0 ≤ r) :
    slewCorrection a r = min (a * (5 / 1000)) r := by
  simp only [slewCorrection, exact]
  exact max_eq_right (le_min (by linarith) (by linarith))

theorem slewCorrection_of_nonpos {a r : ℚ} (ha : 0 ≤ a) (hr : r ≤ 0) :
    slewCorrection a r = max (-a * (5 / 1000)) r := by
  simp only [slewCorrection, exact]
  rw [min_eq_right (by linarith)]

/-- Slewing in two steps corrects as much as in one. -/
theorem slewCorrection_add {a b r : ℚ} (ha : 0 ≤ a) (hb : 0 ≤ b) :
    slewCorrection a r + slewCorrection b (r - slewCorrection a r) = slewCorrection (a + b) r := by
  have hab : 0 ≤ a + b := add_nonneg ha hb
  rcases le_total 0 r with hr | hr
  · rw [slewCorrection_of_nonneg exact ha hr, slewCorrection_of_nonneg exact hab hr,
      slewCorrection_of_nonneg exact hb (sub_nonneg.mpr (min_le_right _ _))]
    rcases le_total (a * (5 / 1000)) r with h | h
    · rw [min_eq_left h, ← min_add_add_left]
      congr 1 <;> ring
    · rw [min_eq_right h, sub_self, min_eq_right (by positivity), min_eq_right (by linarith)]
      ring
  · rw [slewCorrection_of_nonpos exact ha hr, slewCorrection_of_nonpos exact hab hr,
      slewCorrection_of_nonpos exact hb (sub_nonpos.mpr (le_max_right _ _))]
    rcases le_total (-a * (5 / 1000)) r with h | h
    · rw [max_eq_right h, sub_self, max_eq_right (by linarith), max_eq_right (by linarith)]
      ring
    · rw [max_eq_left h, ← max_add_add_left]
      congr 1 <;> ring

/-- Slewing at an intermediate reading makes no difference. -/
theorem slew_slew {s : PlatformTime} {a b : ℤ} (ha : s.lastMono ≤ a) (hb : a ≤ b) :
    (s.slew a).slew b = s.slew b := by
  have ha' : (0 : ℚ) ≤ a - s.lastMono := sub_nonneg.mpr (by exact_mod_cast ha)
  have hb' : (0 : ℚ) ≤ b - a := sub_nonneg.mpr (by exact_mod_cast hb)
  cases hu : s.utc with
  | none => simp [PlatformTime.slew, hu]
  | some utc =>
      have hadd := slewCorrection_add exact (r := s.residual) ha' hb'
      rw [show (a : ℚ) - s.lastMono + (b - a) = b - s.lastMono by ring] at hadd
      simp only [PlatformTime.slew, hu, exact, max_eq_right ha', max_eq_right hb',
        max_eq_right (show (0 : ℚ) ≤ b - s.lastMono by linarith), ← hadd]
      congr 1
      · congr 1
        ring
      · ring

/-- Slewing moves weight between the clock and the residual. -/
theorem slew_sum {s : PlatformTime} {now : ℤ} {utc : ℚ} (hu : s.utc = some utc)
    (hn : s.lastMono ≤ now) :
    ∃ utc', (s.slew now).utc = some utc' ∧
      utc' + (s.slew now).residual = utc + s.residual + (now - s.lastMono) := by
  have hmax : max (0 : ℚ) (now - s.lastMono) = now - s.lastMono := by
    apply max_eq_right
    have : (s.lastMono : ℚ) ≤ now := by exact_mod_cast hn
    linarith
  unfold PlatformTime.slew
  rw [hu]
  exact ⟨_, rfl, by simp only [hmax, exact]; ring⟩

end Exact

/-! ## What a clock can keep -/

/-- A notion of estimate that the clock keeps: its arithmetic is exact, or the
    notion asks for nothing. -/
structure Trackable [Rounding] (F : ℤ → ℚ → ℚ → Prop) (d : ℚ) : Prop
    extends Extrapolates F (ppm d) where
  exact : (∀ x : ℚ, fl x = x) ∨ ∀ t x e, F t x e

theorem trackable_true [Rounding] {d : ℚ} : Trackable (fun _ _ _ => True) d :=
  ⟨extrapolates_true, .inr fun _ _ _ => trivial⟩

/-- An estimate need only be shown for exact arithmetic. -/
theorem Trackable.of_exact [Rounding] {F : ℤ → ℚ → ℚ → Prop} {d x e : ℚ} {t : ℤ}
    (hF : Trackable F d) (h : (∀ x : ℚ, fl x = x) → F t x e) : F t x e :=
  hF.exact.elim h fun htriv => htriv t x e

/-! ## Rounds -/

section Rounds

variable [Rounding] {inp : Inputs} {F : ℤ → ℚ → ℚ → Prop} {d : ℚ} {s : PlatformTime} {now : ℤ}

theorem Tracks.slew (hF : Trackable F d) (h : Tracks inp F d s) (hn : AtReading inp now s) :
    Tracks inp F d (s.slew now) where
  mode := by rw [slew_frame]; exact h.mode
  drift := by rw [slew_frame]; exact h.drift
  observed := by simp
  ahead := by
    rw [slew_frame]
    exact hn.next
  clock := by
    intro utc' hu'
    rw [slew_lastMono]
    cases hu : s.utc with
    | none => simp [slew_utc, hu] at hu'
    | some utc =>
        obtain ⟨sync, hs, hle, he⟩ := h.clock utc hu
        refine ⟨sync, by rw [slew_frame]; exact hs, hle.trans hn.last, hF.of_exact fun exact => ?_⟩
        obtain ⟨utc'', hu'', hsum⟩ := slew_sum exact hu hn.last
        cases hu'.symm.trans hu''
        have hunc : (s.slew now).uncertainty = s.uncertainty := by rw [slew_frame]
        rw [hsum, hunc]
        exact hF.weaken (hF.extrapolate he hn.last) (by ring_nf; exact le_rfl)
  covered := by rw [slew_frame]; exact h.covered
  received := by rw [slew_frame]; exact h.received

theorem AtReading.slew (h : AtReading inp now s) : AtReading inp now (s.slew now) where
  last := by simp
  next := by rw [slew_frame]; exact h.next
  received := by rw [slew_frame]; exact h.received

/-- A candidate of the round, re-dated to the reading. -/
theorem Candidate.Covers.redate (hF : Trackable F d) {c : Candidate} (h : c.Covers F)
    (hn : c.receivedMonoMs ≤ now) : F now (c.targetAt now) (c.errorAt d now - 2) := by
  refine hF.of_exact fun exact => ?_
  have := hF.extrapolate h hn
  simp only [Candidate.targetAt, Candidate.errorAt, drifted, exact]
  unfold ppm at this
  convert this using 1
  · ring
  · push_cast
    ring

omit [Rounding] in
theorem leastPath_mem {cs : List Candidate} {c : Candidate} (h : leastPath cs = some c) :
    c ∈ cs := by
  induction cs with
  | nil => cases h
  | cons a cs ih =>
      cases hd : leastPath cs with
      | none =>
          rw [leastPath, hd] at h
          cases h
          exact List.mem_cons_self
      | some d =>
          rw [leastPath, hd] at h
          by_cases hlt : d.path < a.path
          · simp only [if_pos hlt, Option.some.injEq] at h
            subst h
            exact List.mem_cons_of_mem _ (ih hd)
          · simp only [if_neg hlt, Option.some.injEq] at h
            subst h
            exact List.mem_cons_self

theorem choose_mem {cs : List Candidate} {c : Candidate} (h : choose cs now = some c) :
    c ∈ cs := by
  unfold choose at h
  split at h
  · have hm := leastPath_mem h
    split at hm
    · exact hm
    · exact List.mem_of_mem_filter hm
  · cases h

/-- The state of a call at a reading: the invariant, and a reading in range. -/
def Tracking (inp : Inputs) (F : ℤ → ℚ → ℚ → Prop) (d : ℚ) (now : ℤ) (s : PlatformTime) : Prop :=
  Tracks inp F d s ∧ AtReading inp now s

omit [Rounding] in
/-- A helper that leaves the clock registers and the candidates alone. -/
theorem Tracking.congr {s' : PlatformTime} (h : Tracking inp F d now s)
    (hreg : s'.registers = s.registers) (hc : s'.candidates ⊆ s.candidates)
    (hn : s.reads.mono ≤ s'.reads.mono) : Tracking inp F d now s' := by
  refine ⟨h.1.congr hreg hc hn, h.2.congr ?_ hc hn⟩
  simp only [PlatformTime.registers, Prod.mk.injEq] at hreg
  exact hreg.2.2.2.1

omit [Rounding] in
theorem bumped_tracking (h : Tracking inp F d now s) : Tracking inp F d now (s.bumped inp) :=
  h.congr rfl (List.Subset.refl _) (Nat.le_succ _)

omit [Rounding] in
theorem wp_invalidate_tracking {state : TimeState} {reason : Reason}
    (h : Tracking inp F d now s) :
    wp (PlatformTime.invalidate inp state reason)
      (fun _ s' => Tracking inp F d now s' ∧ s'.lastMono = s.lastMono)
      (fun _ s' => Tracks inp F d s') s := by
  rw [wp_invalidate]
  refine ⟨fun _ => ⟨?_, rfl⟩, fun _ _ => ⟨?_, rfl⟩, fun _ _ => ?_⟩
  · exact h.congr rfl (List.Subset.refl _) le_rfl
  · exact (bumped_tracking h).congr rfl (List.Subset.refl _) le_rfl
  · exact h.1.congr rfl (List.Subset.refl _) le_rfl

/-- The registers after an adoption: the clock and its residual meet the target. -/
theorem Tracking.anchored (hF : Trackable F d) {s' : PlatformTime} {target error : ℚ}
    (h : Tracking inp F d now s) (hnow : s.lastMono = now) (hest : F now target (error - 2))
    (hm : s'.mode = s.mode) (hd : s'.driftPpm = s.driftPpm)
    (hlo : s'.lastObservedMono = s.lastObservedMono) (hl : s'.lastMono = s.lastMono)
    (hu : (∀ x : ℚ, fl x = x) → ∀ utc, s'.utc = some utc → utc + s'.residual = target)
    (he : s'.uncertainty = error) (hs : s'.syncMono = some now)
    (hc : s'.candidates ⊆ s.candidates) (hn : s.reads.mono ≤ s'.reads.mono) :
    Tracking inp F d now s' := by
  refine ⟨⟨hm.trans h.1.mode, hd.trans h.1.drift, by rw [hlo, hl, h.1.observed], fun i hi => ?_, fun utc hutc => ?_,
    fun c hm => h.1.covered c (hc hm), fun c hm i hi => ?_⟩, h.2.congr hl hc hn⟩
  · rw [hl]
    exact h.1.ahead i (hn.trans hi)
  · refine ⟨now, hs, (hl.trans hnow).ge, hF.of_exact fun exact => ?_⟩
    rw [hl, hnow, hu exact utc hutc, he]
    exact hF.weaken hest (by simp)
  · exact h.1.received c (hc hm) i (hn.trans hi)

theorem wp_anchor_tracking (hF : Trackable F d) {target error : ℚ} {single : Bool}
    (h : Tracking inp F d now s) (hnow : s.lastMono = now) (hest : F now target (error - 2)) :
    wp (PlatformTime.anchor inp target error now single)
      (fun _ s' => Tracking inp F d now s') (fun _ s' => Tracks inp F d s') s := by
  simp only [PlatformTime.anchor, PlatformTime.drawJitter, wp_bind, wp_get, wp_modify, wp_ite,
    wp_bump, wp_pure]
  have hsum : (∀ x : ℚ, fl x = x) → ∀ utc, s.utc = some utc →
      utc + fl (target - s.utc.getD 0) = target := by
    intro exact utc hu
    rw [exact, hu, Option.getD_some]
    ring
  have hzero : (∀ x : ℚ, fl x = x) → ∀ utc, some target = some utc → utc + 0 = target := by
    rintro - utc ⟨⟩
    ring
  refine ⟨fun _ => ⟨fun _ => ⟨fun _ => ?_, fun _ => ?_⟩, fun _ => h.1⟩,
    fun _ => ⟨fun _ => ?_, fun _ => ?_⟩⟩
  · exact h.anchored hF hnow hest rfl rfl rfl rfl hzero rfl rfl (List.Subset.refl _)
      (Nat.le_succ _)
  · exact h.anchored hF hnow hest rfl rfl rfl rfl hzero rfl rfl (List.Subset.refl _)
      (Nat.le_succ _)
  · exact h.anchored hF hnow hest rfl rfl rfl rfl hsum rfl rfl (List.Subset.refl _) le_rfl
  · exact h.anchored hF hnow hest rfl rfl rfl rfl hsum rfl rfl (List.Subset.refl _) le_rfl

theorem wp_confirm_tracking (hF : Trackable F d) {target error : ℚ} {single : Bool} (h : Tracking inp F d now s)
    (hnow : s.lastMono = now) (hest : F now target (error - 2)) :
    wp (PlatformTime.confirm inp target error now single)
      (fun _ s' => Tracking inp F d now s') (fun _ s' => Tracks inp F d s') s := by
  simp only [PlatformTime.confirm, wp_bind, wp_get, wp_ite, wp_bump, wp_modify,
    PlatformTime.requireMaintenance]
  refine ⟨fun _ => ⟨fun _ => ?_, fun _ => ⟨fun _ => ?_, fun _ => h.1⟩⟩, fun _ => ?_⟩
  · exact (wp_invalidate_tracking h).mono (fun _ _ h => h.1) fun _ _ h => h
  · refine wp_anchor_tracking hF ?_ hnow hest
    have hb := bumped_tracking h
    exact ⟨⟨hb.1.mode, hb.1.drift, hb.1.observed, hb.1.ahead, fun _ hu => by (cases hu), hb.1.covered,
      hb.1.received⟩, hb.2.congr rfl (List.Subset.refl _) le_rfl⟩
  · exact h.congr rfl (List.Subset.refl _) le_rfl

theorem wp_adopt_tracking (hF : Trackable F d) {target error : ℚ} {single : Bool}
    (h : Tracking inp F d now s) (hest : F now target (error - 2)) :
    wp (PlatformTime.adopt inp target error now single)
      (fun _ s' => Tracking inp F d now s') (fun _ s' => Tracks inp F d s') s := by
  have hle : s.lastObservedMono ≤ now := h.1.observed ▸ h.2.last
  have hm : Tracking inp F d now (s.slew now) := ⟨h.1.slew hF h.2, h.2.slew⟩
  simp only [PlatformTime.adopt, wp_bind, wp_advance_of_le hle, wp_get, wp_ite,
    PlatformTime.requireMaintenance]
  refine ⟨fun _ => ?_, fun _ => ⟨fun _ => ?_, fun _ => ?_⟩⟩
  · exact (wp_invalidate_tracking hm).mono (fun _ _ h => h.1) fun _ _ h => h
  · refine (wp_invalidate_tracking hm).mono ?_ fun _ _ h => h
    rintro _ s' ⟨h', hl⟩
    exact wp_confirm_tracking hF h' (hl.trans (slew_lastMono now)) hest
  · exact wp_anchor_tracking hF hm (slew_lastMono now) hest

theorem wp_finishRound_tracking (hF : Trackable F d) (h : Tracking inp F d now s) :
    wp (PlatformTime.finishRound inp now)
      (fun _ s' => Tracking inp F d now s') (fun _ s' => Tracks inp F d s') s := by
  simp only [PlatformTime.finishRound, wp_bind, wp_get]
  split
  · rename_i c hc
    rw [wp_bind]
    refine (wp_adopt_tracking hF h ?_).mono ?_ fun _ _ h => h
    · rw [h.1.drift]
      exact (h.1.covered c (choose_mem hc)).redate hF (h.2.received c (choose_mem hc))
    · exact fun _ s' h' => h'.congr rfl (List.nil_subset _) le_rfl
  · simp only [PlatformTime.drawJitter, wp_bind, wp_get, wp_modify, wp_pure]
    exact h.congr rfl (List.nil_subset _) le_rfl

end Rounds

/-! ## Calls -/

/-- A snapshot reports a tracked clock, moved to its reading. -/
def Reported [Rounding] (inp : Inputs) (F : ℤ → ℚ → ℚ → Prop) (d : ℚ) (t : TimeSnapshot) : Prop :=
  ∃ m, Tracks inp F d m ∧ m.lastMono = t.monoMs ∧ t = m.report inp t.monoMs

section Calls

variable [Rounding] {inp : Inputs} {F : ℤ → ℚ → ℚ → Prop} {d : ℚ} {s : PlatformTime}

omit [Rounding] in
/-- The next reading is in range. -/
theorem Tracks.atReading (hmono : Monotone inp.mono) (h : Tracks inp F d s) :
    Tracking inp F d (inp.mono s.reads.mono) s.readNext := by
  refine ⟨h.congr rfl (List.Subset.refl _) (Nat.le_succ _), h.ahead _ le_rfl, fun i hi => ?_,
    fun c hc => h.received c hc _ le_rfl⟩
  exact hmono (le_trans (Nat.le_succ _) hi)

theorem settled_registers (now : ℤ) : (s.settled inp now).registers = s.registers := by
  unfold PlatformTime.settled
  split
  · rfl
  · split <;> rfl

theorem settled_candidates (now : ℤ) : (s.settled inp now).candidates ⊆ s.candidates := by
  unfold PlatformTime.settled
  split
  · exact List.Subset.refl _
  · split <;> exact List.Subset.refl _

theorem settled_reads_le (now : ℤ) : s.reads.mono ≤ (s.settled inp now).reads.mono := by
  unfold PlatformTime.settled
  split
  · exact Nat.le_succ _
  · split <;> exact le_rfl

theorem wp_snapshot_tracking (hmono : Monotone inp.mono) (hF : Trackable F d)
    (h : Tracks inp F d s) :
    wp (PlatformTime.snapshot inp)
      (fun t s' => Tracking inp F d t.monoMs s' ∧ Reported inp F d t) (fun _ s' => Tracks inp F d s')
      s := by
  have hr := h.atReading hmono
  have hm : Tracking inp F d (inp.mono s.reads.mono) (s.readNext.slew (inp.mono s.reads.mono)) :=
    ⟨hr.1.slew hF hr.2, hr.2.slew⟩
  rw [wp_snapshot, wp_advance_of_le (h.observed ▸ h.ahead _ le_rfl)]
  refine ⟨fun _ _ => hm.1, fun _ => ⟨?_, _, hm.1, slew_lastMono _, rfl⟩⟩
  exact hm.congr (settled_registers _) (settled_candidates _) (settled_reads_le _)

theorem wp_issue_tracking (hF : Trackable F d) {now : ℤ} (h : Tracking inp F d now s) :
    wp (PlatformTime.issue inp now) (fun _ s' => Tracks inp F d s')
      (fun _ s' => Tracks inp F d s') s := by
  simp only [PlatformTime.issue, PlatformTime.freshId, wp_bind, wp_get, wp_ite, wp_pure, wp_modify]
  refine ⟨fun _ => h.1, fun _ => ⟨fun _ => ⟨fun hover => ?_, fun _ => ?_⟩,
    fun _ => ⟨fun _ => ?_, fun _ => ?_⟩⟩⟩
  · refine (wp_finishRound_tracking (d := d) hF ?_).mono (fun _ _ h => h.1) fun _ _ h => h
    exact h.congr rfl (List.nil_subset _) le_rfl
  · exact h.1.congr rfl (List.nil_subset _) le_rfl
  · exact (wp_finishRound_tracking hF h).mono (fun _ _ h => h.1) fun _ _ h => h
  · exact h.1.congr rfl (List.Subset.refl _) le_rfl

theorem wp_ask_tracking (hF : Trackable F d) {now : ℤ} (h : Tracking inp F d now s) :
    wp (PlatformTime.ask inp now) (fun _ s' => Tracks inp F d s')
      (fun _ s' => Tracks inp F d s') s := by
  simp only [PlatformTime.ask, wp_bind, wp_get]
  cases s.pending with
  | none => exact wp_issue_tracking hF h
  | some p =>
      simp only [wp_ite, wp_pure, PlatformTime.retry, wp_bind, wp_modify, wp_get]
      have h' : Tracking inp F d now { s with pending := none } :=
        h.congr rfl (List.Subset.refl _) le_rfl
      refine ⟨fun _ => h.1, fun _ => ⟨fun _ => ?_, fun _ => wp_issue_tracking hF h'⟩⟩
      exact (wp_finishRound_tracking hF h').mono (fun _ _ h => wp_issue_tracking hF h)
        fun _ _ h => h

theorem wp_request_tracking (hmono : Monotone inp.mono) (hF : Trackable F d)
    (h : Tracks inp F d s) :
    wp (PlatformTime.request inp) (fun _ s' => Tracks inp F d s')
      (fun _ s' => Tracks inp F d s') s := by
  simp only [PlatformTime.request, wp_bind, wp_get]
  refine (wp_snapshot_tracking hmono hF h).mono ?_ fun _ _ h => h
  rintro t s' ⟨h', -⟩
  rw [wp_ite]
  refine ⟨fun _ => h'.1, fun _ => ?_⟩
  rw [wp_ite]
  refine ⟨fun _ => ?_, fun _ => wp_ask_tracking hF h'⟩
  rw [wp_bind]
  exact (wp_finishRound_tracking hF h').mono (fun _ _ h => wp_ask_tracking hF h) fun _ _ h => h

/-- What a response that is taken has passed. -/
theorem judge_take [JsonSchema] {now : ℤ} {payload : Bytes} {received : ℤ}
    {session : Option PyStr} {retained : Bool} {c : Candidate}
    (h : s.judge now payload received session retained = .ok (.take c)) :
    ∃ m, readResponse payload s.gateway = .ok (some m) ∧ received ≤ now ∧
      c = m.candidate s.driftPpm received now := by
  unfold PlatformTime.judge at h
  split at h
  · cases h
  split at h
  · cases h
  split at h
  · cases h
  split at h
  · cases h
  split at h
  · cases h
  · cases h
  · rename_i m hm
    split at h
    · cases h
    split at h
    · cases h
    rename_i hp
    split at h
    · cases h
    simp only [Except.ok.injEq, Verdict.take.injEq] at h
    simp only [Delays.credible, Bool.and_eq_true, decide_eq_true_eq, not_not] at hp
    exact ⟨m, hm, hp.2, h.symm⟩

theorem wp_response_tracking [JsonSchema] (hmono : Monotone inp.mono) (hF : Trackable F d)
    {payload : Bytes} {received : ℤ} {session : Option PyStr} {retained : Bool}
    (hb : ∀ c, s.judge (inp.mono s.reads.mono) payload received session retained = .ok (.take c) →
      c.Covers F)
    (h : Tracks inp F d s) :
    wp (PlatformTime.response inp payload received session retained)
      (fun _ s' => Tracks inp F d s') (fun _ s' => Tracks inp F d s') s := by
  have hr := h.atReading hmono
  simp only [PlatformTime.response, wp_bind, wp_readMono, wp_get]
  have hj : s.readNext.judge (inp.mono s.reads.mono) payload received session retained
      = s.judge (inp.mono s.reads.mono) payload received session retained := rfl
  rw [hj]
  rcases hv : s.judge (inp.mono s.reads.mono) payload received session retained
    with e | ⟨reason⟩ | ⟨reason⟩ | ⟨c⟩
  · exact hr.1
  · exact hr.1.congr rfl (List.Subset.refl _) le_rfl
  · exact hr.1.congr rfl (List.Subset.refl _) le_rfl
  · obtain ⟨m, -, hle, rfl⟩ := judge_take hv
    simp only [PlatformTime.accept, wp_bind, wp_modify, wp_get, wp_ite, wp_pure]
    -- The new candidate covers the error of its own sample, and the old ones stay.
    have h' : Tracking inp F d (inp.mono s.reads.mono)
        { s.readNext with
          candidates := s.readNext.candidates
            ++ [m.candidate s.driftPpm received (inp.mono s.reads.mono)],
          pending := none } := by
      refine ⟨⟨hr.1.mode, hr.1.drift, hr.1.observed, hr.1.ahead, hr.1.clock, ?_, ?_⟩,
        hr.2.last, hr.2.next, ?_⟩
      all_goals
        intro c hmem
        rcases List.mem_append.mp hmem with hold | hnew
      · exact hr.1.covered c hold
      · rw [List.mem_singleton.mp hnew]
        exact hb _ hv
      · exact hr.1.received c hold
      · rw [List.mem_singleton.mp hnew]
        exact fun i hi => hle.trans (hr.2.next i hi)
      · exact hr.2.received c hold
      · rw [List.mem_singleton.mp hnew]
        exact hle
    exact ⟨fun _ => (wp_finishRound_tracking hF h').mono (fun _ _ h => h.1) fun _ _ h => h,
      fun _ => h'.1⟩

theorem wp_require_tracking (hmono : Monotone inp.mono) (hF : Trackable F d)
    {token : Option TimeToken} {purpose : Purpose} (h : Tracks inp F d s) :
    wp (PlatformTime.require inp token purpose)
      (fun t s' => Reported inp F d t ∧ Tracks inp F d s') (fun _ s' => Tracks inp F d s') s := by
  simp only [PlatformTime.require, PlatformTime.valid, wp_bind, wp_get, wp_check, wp_pure]
  refine ⟨fun _ => ?_, fun _ => h⟩
  refine (wp_snapshot_tracking hmono hF h).mono (fun t s' h' => ⟨fun _ => ?_, fun _ => h'.1.1⟩)
    fun _ _ h => h
  exact (wp_snapshot_tracking hmono hF h'.1.1).mono (fun _ _ h => ⟨h.2, h.1.1⟩) fun _ _ h => h

omit [Rounding] in
theorem wp_connect_tracking {session : PyStr} (h : Tracks inp F d s) :
    wp (PlatformTime.connect session) (fun _ s' => Tracks inp F d s')
      (fun _ s' => Tracks inp F d s') s := by
  simp only [PlatformTime.connect, wp_bind, wp_check, wp_get, wp_modify]
  exact ⟨fun _ => ⟨fun _ => h.congr rfl (List.nil_subset _) le_rfl, fun _ => h⟩, fun _ => h⟩

theorem wp_loadHistoryBoundary_tracking {basis : Option PyStr} {utcLower : Option ℤ}
    (h : Tracks inp F d s) :
    wp (PlatformTime.loadHistoryBoundary inp basis utcLower) (fun _ s' => Tracks inp F d s')
      (fun _ s' => Tracks inp F d s') s := by
  have hshut : ∀ {s' : PlatformTime}, Tracks inp F d s' →
      wp (PlatformTime.requireMaintenance inp) (fun _ s' => Tracks inp F d s')
        (fun _ s' => Tracks inp F d s') s' := by
    intro s' h'
    rw [PlatformTime.requireMaintenance, wp_invalidate]
    exact ⟨fun _ => h'.congr rfl (List.Subset.refl _) le_rfl,
      fun _ _ => h'.congr rfl (List.Subset.refl _) (Nat.le_succ _),
      fun _ _ => h'.congr rfl (List.Subset.refl _) le_rfl⟩
  unfold PlatformTime.loadHistoryBoundary
  cases utcLower with
  | none => exact h
  | some lower =>
      simp only [wp_bind, wp_get, wp_ite, wp_modify, wp_pure]
      have h' : Tracks inp F d { s with floor := some (max (s.floor.getD 0) lower) } :=
        h.congr rfl (List.Subset.refl _) le_rfl
      exact ⟨fun _ => hshut h, fun _ => ⟨fun _ => hshut h', fun _ => h'⟩⟩

/-- The candidate that a call adds to the round is an estimate. -/
def Admits [JsonSchema] (inp : Inputs) (F : ℤ → ℚ → ℚ → Prop) (s : PlatformTime) : TimeCall → Prop
  | .response payload received session retained => ∀ c,
    s.judge (inp.mono s.reads.mono) payload received session retained = .ok (.take c) → c.Covers F
  | _ => True

/-- A snapshot that a call returns reports a tracked clock. -/
def TimeOutcome.Reported (inp : Inputs) (F : ℤ → ℚ → ℚ → Prop) (d : ℚ) : TimeOutcome → Prop
  | .snapshot t => Core.Reported inp F d t
  | _ => True

/-- Every call keeps the invariant and reports only tracked clocks. -/
theorem exec_tracking [JsonSchema] (hmono : Monotone inp.mono) (hF : Trackable F d)
    {call : TimeCall} (hb : Admits inp F s call)
    (h : Tracks inp F d s) :
    wp (call.exec inp) (fun out s' => out.Reported inp F d ∧ Tracks inp F d s')
      (fun _ s' => Tracks inp F d s') s := by
  have hsnap := wp_snapshot_tracking hmono hF h
  cases call with
  | connect session =>
      simp only [TimeCall.exec, wp_bind, wp_pure]
      exact (wp_connect_tracking h).mono (fun _ _ h => ⟨trivial, h⟩) fun _ _ h => h
  | disconnect =>
      simp only [TimeCall.exec, PlatformTime.disconnect, wp_bind, wp_pure, wp_modify]
      exact (wp_connect_tracking h).mono
        (fun _ _ h => ⟨trivial, h.congr rfl (List.Subset.refl _) le_rfl⟩) fun _ _ h => h
  | request =>
      simp only [TimeCall.exec, wp_bind, wp_pure]
      exact (wp_request_tracking hmono hF h).mono (fun _ _ h => ⟨trivial, h⟩) fun _ _ h => h
  | response payload received session retained =>
      simp only [TimeCall.exec, wp_bind, wp_pure]
      exact (wp_response_tracking hmono hF hb h).mono
        (fun _ _ h => ⟨trivial, h⟩) fun _ _ h => h
  | snapshot =>
      simp only [TimeCall.exec, wp_bind, wp_pure]
      exact hsnap.mono (fun _ _ h => ⟨h.2, h.1.1⟩) fun _ _ h => h
  | token =>
      simp only [TimeCall.exec, PlatformTime.token, wp_bind, wp_pure]
      exact hsnap.mono (fun _ _ h => ⟨trivial, h.1.1⟩) fun _ _ h => h
  | valid token purpose =>
      simp only [TimeCall.exec, PlatformTime.valid, wp_bind, wp_pure, wp_get]
      exact hsnap.mono (fun _ _ h => ⟨trivial, h.1.1⟩) fun _ _ h => h
  | require token purpose =>
      simp only [TimeCall.exec, wp_bind, wp_pure]
      exact wp_require_tracking hmono hF h
  | controlSubmitted kind token =>
      simp only [TimeCall.exec, PlatformTime.controlSubmitted, wp_bind, wp_pure, wp_modify]
      refine (wp_require_tracking hmono hF h).mono (fun _ s' h => ⟨trivial, ?_⟩) fun _ _ h => h
      cases kind <;> exact h.2.congr rfl (List.Subset.refl _) le_rfl
  | loadHistoryBoundary basis utcLower =>
      simp only [TimeCall.exec, wp_bind, wp_pure]
      exact (wp_loadHistoryBoundary_tracking h).mono (fun _ _ h => ⟨trivial, h⟩) fun _ _ h => h

omit [Rounding] in
/-- A new provider has nothing to track yet. -/
theorem tracks_started {c : TimeConfig} (hmode : c.mode = .hubMqtt) (hmono : Monotone inp.mono) :
    Tracks inp F (c.driftPpm.getD 0) (.started inp c) where
  mode := hmode
  drift := rfl
  observed := rfl
  ahead := fun _ hi => hmono (le_trans (Nat.le_succ 1) hi)
  clock := fun _ hu => by cases hu
  covered := fun _ hm => absurd hm List.not_mem_nil
  received := fun _ hm => absurd hm List.not_mem_nil

/-- One step of a run. -/
theorem perform_tracking [JsonSchema] (hmono : Monotone inp.mono) (hF : Trackable F d)
    {call : TimeCall} (hb : Admits inp F s call) (h : Tracks inp F d s) :
    (∀ out, (perform (TimeCall.exec inp) s call).result = .ok out → out.Reported inp F d) ∧
      Tracks inp F d (perform (TimeCall.exec inp) s call).after := by
  obtain ⟨hok, herr⟩ := perform_spec (exec_tracking hmono hF hb h)
  cases hr : (perform (TimeCall.exec inp) s call).result with
  | ok out =>
      refine ⟨?_, (hok out hr).2⟩
      rintro out' ⟨⟩
      exact (hok _ hr).1
  | error e => exact ⟨fun _ h => (nomatch h), herr e hr⟩

end Calls

end PlcnextIot.Core
