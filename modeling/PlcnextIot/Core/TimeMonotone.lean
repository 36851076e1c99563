/-
  PlcnextIot.Core.TimeMonotone

  Within a clock revision, logical UTC runs with the monotonic clock.

  A revision that has been open only ever slews: the snapshots taken in it lie
  on one curve whose slope stays within 0.5 % of one.  `Dated` dates the clock
  registers by the readings taken so far, `Sighted` says what a valid snapshot
  shows of the clock it was taken from, and `OnCurve` carries the last sighting
  along a run.  The curve is that of exact arithmetic; a rounded clock drifts
  from it by the roundings of its slews.
-/

import PlcnextIot.Core.TimeToken

namespace PlcnextIot.Core

open PlcnextIot.Python PlcnextIot.Contracts PlcnextIot.Effect PlcnextIot.Effect.Prog

/-! ## The curve -/

/-- `b` follows `a` after `d` milliseconds. -/
def Paced (a b d : ℚ) : Prop := 995 / 1000 * d ≤ b - a ∧ b - a ≤ 1005 / 1000 * d

theorem Paced.refl (a : ℚ) : Paced a a 0 := by
  constructor <;> simp

theorem Paced.trans {a b c d e : ℚ} (h : Paced a b d) (h' : Paced b c e) : Paced a c (d + e) := by
  obtain ⟨h1, h2⟩ := h
  obtain ⟨h3, h4⟩ := h'
  constructor <;> linarith

/-- The correction is at most half a percent of the time that passed. -/
theorem slewCorrection_bounds [Rounding] (exact : ∀ x : ℚ, fl x = x) {elapsed : ℚ} (he : 0 ≤ elapsed) (residual : ℚ) :
    -(5 / 1000 * elapsed) ≤ slewCorrection elapsed residual ∧
      slewCorrection elapsed residual ≤ 5 / 1000 * elapsed := by
  have hneg : -elapsed * (5 / 1000) = -(5 / 1000 * elapsed) := by ring
  have hpos : elapsed * (5 / 1000) = 5 / 1000 * elapsed := by ring
  simp only [slewCorrection, exact]
  rw [hneg, hpos]
  refine ⟨le_max_left _ _, max_le (by linarith) (min_le_left _ _)⟩

section Helpers

variable {inp : Inputs} {s : PlatformTime} {m : ℤ}

/-- A clock moved to a later reading follows the one before. -/
theorem slew_paced [Rounding] (exact : ∀ x : ℚ, fl x = x) {u : ℚ} (hu : s.utc = some u) {now : ℤ} (hle : s.lastMono ≤ now) :
    ∃ v, (s.slew now).utc = some v ∧ Paced u v (now - s.lastMono) := by
  have hd : (0 : ℚ) ≤ now - s.lastMono := sub_nonneg.mpr (by exact_mod_cast hle)
  obtain ⟨hlo, hhi⟩ := slewCorrection_bounds exact hd s.residual
  refine ⟨_, by rw [slew_utc, hu, Option.map_some], ?_⟩
  rw [max_eq_right hd, exact, exact]
  constructor <;> linarith

/-! ## Dated registers -/

/-- The clock registers are not older than a reading, and no later reading is. -/
structure Dated (inp : Inputs) (m : ℤ) (s : PlatformTime) : Prop where
  last : m ≤ s.lastMono
  ahead : ∀ i, s.reads.mono ≤ i → m ≤ inp.mono i

theorem Dated.congr {s' : PlatformTime} (h : Dated inp m s) (hl : s'.lastMono = s.lastMono)
    (hr : s.reads.mono ≤ s'.reads.mono) : Dated inp m s' :=
  ⟨hl ▸ h.last, fun i hi => h.ahead i (hr.trans hi)⟩

theorem keeps_get {α : Type} {f : PlatformTime → TimeProg α} {I : PlatformTime → Prop}
    (h : ∀ s, Keeps I (f s)) : Keeps I (Prog.get >>= f) := by
  intro s hs
  rw [wp_bind, wp_get]
  exact h s s hs

theorem keeps_ite {α : Type} {c : Prop} [Decidable c] {x y : TimeProg α} {I : PlatformTime → Prop}
    (hx : Keeps I x) (hy : Keeps I y) : Keeps I (if c then x else y) := by
  split
  · exact hx
  · exact hy

/-- An assignment to anything but the clock registers. -/
theorem keeps_modify {f : PlatformTime → PlatformTime}
    (hl : ∀ s, (f s).lastMono = s.lastMono) (hr : ∀ s, (f s).reads.mono = s.reads.mono) :
    Keeps (Dated inp m) (modify f : TimeProg Unit) := fun s hs => hs.congr (hl s) (hr s).ge

theorem keeps_check {c : Prop} [Decidable c] {e : TimeError} :
    Keeps (Dated inp m) (check c e : TimeProg Unit) := by
  intro s hs
  rw [wp_check]
  exact ⟨fun _ => hs, fun _ => hs⟩

theorem keeps_readMono {α : Type} {f : ℤ → TimeProg α}
    (h : ∀ now, m ≤ now → Keeps (Dated inp m) (f now)) :
    Keeps (Dated inp m) (PlatformTime.readMono inp >>= f) := by
  intro s hs
  rw [wp_bind, wp_readMono]
  exact h _ (hs.ahead _ le_rfl) _ (hs.congr rfl (Nat.le_succ _))

theorem keeps_bump : Keeps (Dated inp m) (PlatformTime.bump inp) := by
  intro s hs
  rw [wp_bump]
  exact ⟨fun _ => hs.congr rfl (Nat.le_succ _), fun _ => hs⟩

theorem keeps_invalidate {state : TimeState} {reason : Reason} :
    Keeps (Dated inp m) (PlatformTime.invalidate inp state reason) := by
  intro s hs
  rw [wp_invalidate]
  exact ⟨fun _ => hs.congr rfl le_rfl, fun _ _ => hs.congr rfl (Nat.le_succ _),
    fun _ _ => hs.congr rfl le_rfl⟩

variable [Rounding]

theorem keeps_slew {now : ℤ} (hnow : m ≤ now) :
    Keeps (Dated inp m) (modify (PlatformTime.slew now) : TimeProg Unit) := by
  intro s hs
  refine ⟨?_, ?_⟩
  · rw [slew_lastMono]
    exact hnow
  · rw [slew_frame]
    exact hs.ahead

theorem keeps_advance {now : ℤ} (hnow : m ≤ now) :
    Keeps (Dated inp m) (PlatformTime.advance inp now) := by
  refine keeps_get fun s => keeps_ite ?_ (keeps_slew hnow)
  refine .bind keeps_invalidate fun _ => .bind ?_ fun _ => keeps_slew hnow
  exact keeps_modify (fun _ => rfl) fun _ => rfl

theorem keeps_settle {now : ℤ} : Keeps (Dated inp m) (PlatformTime.settle inp now) := by
  refine keeps_get fun s => keeps_ite keeps_invalidate (keeps_ite ?_ (.pure ()))
  exact keeps_modify (fun _ => rfl) fun _ => rfl

/-- A snapshot dates the clock by its own reading. -/
theorem wp_snapshot_dated (hmono : Monotone inp.mono) (hs : Dated inp m s) :
    wp (PlatformTime.snapshot inp) (fun t σ => Dated inp m σ ∧ Dated inp t.monoMs σ ∧ m ≤ t.monoMs)
      (fun _ σ => Dated inp m σ) s := by
  obtain ⟨now, hnow⟩ : ∃ now, inp.mono s.reads.mono = now := ⟨_, rfl⟩
  have hm : m ≤ now := hnow ▸ hs.ahead _ le_rfl
  have hread : ∀ i, s.readNext.reads.mono ≤ i → now ≤ inp.mono i := by
    intro i hi
    rw [← hnow]
    exact hmono (le_trans (Nat.le_succ _) hi)
  simp only [PlatformTime.snapshot, wp_bind, wp_readMono, wp_get, hnow]
  have hstart : Dated inp m s.readNext := hs.congr rfl (Nat.le_succ _)
  -- After the advance the clock is dated by the reading itself.
  have hadvance : wp (PlatformTime.advance inp now) (fun _ σ => Dated inp now σ ∧ Dated inp m σ)
      (fun _ σ => Dated inp m σ) s.readNext := by
    have hkeeps := keeps_advance hm _ hstart
    have hahead : Keeps (fun σ => ∀ i, σ.reads.mono ≤ i → now ≤ inp.mono i)
        (PlatformTime.invalidate inp .maintenance .clockContinuityRequiresMaintenance) := by
      intro σ hσ
      rw [wp_invalidate]
      exact ⟨fun _ => hσ, fun _ _ i hi => hσ i (le_trans (Nat.le_succ _) hi), fun _ _ => hσ⟩
    suffices hdated : wp (PlatformTime.advance inp now) (fun _ σ => Dated inp now σ) (fun _ _ => True)
        s.readNext from
      (hkeeps.and hdated).mono (fun _ _ h => ⟨h.2, h.1⟩) fun _ _ h => h.1
    have hslew : ∀ σ : PlatformTime, (∀ i, σ.reads.mono ≤ i → now ≤ inp.mono i) →
        Dated inp now (σ.slew now) := by
      intro σ hσ
      refine ⟨(slew_lastMono now).ge, ?_⟩
      rw [slew_frame]
      exact hσ
    simp only [PlatformTime.advance, wp_bind, wp_get, wp_ite, wp_modify]
    refine ⟨fun _ => ?_, fun _ => hslew _ hread⟩
    exact (hahead _ hread).mono (fun _ σ hσ => hslew _ hσ) fun _ _ _ => trivial
  refine hadvance.mono ?_ fun _ _ h => h
  rintro _ σ ⟨hat, hσ⟩
  refine ((keeps_settle _ hat).and (keeps_settle _ hσ)).mono ?_ fun _ _ h => h.2
  rintro _ τ ⟨hτ, hτ'⟩
  simp only [wp_readSystem, wp_pure]
  exact ⟨hτ'.congr rfl le_rfl, hτ.congr rfl le_rfl, hm⟩

/-- What follows a snapshot may rely on its reading. -/
theorem keeps_snapshot {α : Type} {f : TimeSnapshot → TimeProg α} (hmono : Monotone inp.mono)
    (h : ∀ t, m ≤ t.monoMs → Keeps (Dated inp m) (f t)) :
    Keeps (Dated inp m) (PlatformTime.snapshot inp >>= f) := by
  intro s hs
  rw [wp_bind]
  exact (wp_snapshot_dated hmono hs).mono (fun t σ ht => h t ht.2.2 σ ht.1) fun _ _ h => h

/-! ## Every operation keeps the date -/

omit [Rounding] in
theorem keeps_drawJitter {α : Type} {lo hi : ℚ} {f : ℚ → TimeProg α}
    (h : ∀ j, Keeps (Dated inp m) (f j)) :
    Keeps (Dated inp m) (PlatformTime.drawJitter inp lo hi >>= f) := by
  intro s hs
  simp only [PlatformTime.drawJitter, wp_bind, wp_get, wp_modify, wp_pure]
  exact h _ _ (hs.congr rfl le_rfl)

omit [Rounding] in
/-- The assignments of a round. -/
theorem keeps_assign {α : Type} {f : PlatformTime → PlatformTime} {g : Unit → TimeProg α}
    (hl : ∀ s, (f s).lastMono = s.lastMono) (hr : ∀ s, (f s).reads.mono = s.reads.mono)
    (hg : Keeps (Dated inp m) (g ())) :
    Keeps (Dated inp m) ((modify f : TimeProg Unit) >>= g) :=
  .bind (keeps_modify hl hr) fun _ => hg

theorem keeps_anchor {target error : ℚ} {now : ℤ} {single : Bool} :
    Keeps (Dated inp m) (PlatformTime.anchor inp target error now single) := by
  have hrest : ∀ delay : ℤ, Keeps (Dated inp m)
      (modify fun s => { s with nextSync := now + delay } : TimeProg Unit) :=
    fun delay => keeps_modify (fun _ => rfl) fun _ => rfl
  have htail : Keeps (Dated inp m) (do
      modify fun s => { s with
        suspectConfirm := false, uncertainty := error, syncMono := some now, state := .synced,
        reason := none, sessionSynced := s.session.isSome }
      if single then modify fun s => { s with nextSync := now + 10000 }
      else do
        let j ← PlatformTime.drawJitter inp (fl (9 / 10)) (fl (11 / 10))
        modify fun s => { s with nextSync := now + roundHalfEven (fl (300000 * j)) } : TimeProg Unit) :=
    keeps_assign (fun _ => rfl) (fun _ => rfl)
      (keeps_ite (hrest 10000) (keeps_drawJitter fun j => hrest _))
  refine keeps_get fun s => keeps_ite ?_ ?_
  · exact .bind keeps_bump fun _ => keeps_assign (fun _ => rfl) (fun _ => rfl) htail
  · exact keeps_assign (fun _ => rfl) (fun _ => rfl) htail

theorem keeps_confirm {target error : ℚ} {now : ℤ} {single : Bool} :
    Keeps (Dated inp m) (PlatformTime.confirm inp target error now single) := by
  refine keeps_get fun s => keeps_ite (keeps_get fun s' => keeps_ite keeps_invalidate ?_) ?_
  · exact .bind keeps_bump fun _ => keeps_assign (fun _ => rfl) (fun _ => rfl) keeps_anchor
  · exact keeps_modify (fun _ => rfl) fun _ => rfl

theorem keeps_adopt {target error : ℚ} {now : ℤ} {single : Bool} (hnow : m ≤ now) :
    Keeps (Dated inp m) (PlatformTime.adopt inp target error now single) := by
  refine .bind (keeps_advance hnow) fun _ => keeps_get fun s => ?_
  refine keeps_ite keeps_invalidate (keeps_ite ?_ keeps_anchor)
  exact .bind keeps_invalidate fun _ => keeps_confirm

theorem keeps_finishRound {now : ℤ} (hnow : m ≤ now) :
    Keeps (Dated inp m) (PlatformTime.finishRound inp now) := by
  refine keeps_get fun s => ?_
  split
  · exact .bind (keeps_adopt hnow) fun _ => keeps_modify (fun _ => rfl) fun _ => rfl
  · refine keeps_assign (fun _ => rfl) (fun _ => rfl) (keeps_drawJitter fun j => ?_)
    exact keeps_modify (fun _ => rfl) fun _ => rfl

theorem keeps_issue {now : ℤ} (hnow : m ≤ now) :
    Keeps (Dated inp m) (PlatformTime.issue inp now) := by
  have hask : ∀ f : PyStr → TimeProg (Option TimeRequest), (∀ id, Keeps (Dated inp m) (f id)) →
      Keeps (Dated inp m) (PlatformTime.freshId inp >>= f) := by
    intro f hf s hs
    simp only [PlatformTime.freshId, wp_bind, wp_get, wp_modify, wp_pure]
    exact hf _ _ (hs.congr rfl le_rfl)
  have hrest : Keeps (Dated inp m) (do
      let s ← Prog.get
      if s.roundStart.getD now + 30000 ≤ now ∨ 10 ≤ s.attempts then
        PlatformTime.finishRound inp now
        return none
      else
        let requestId ← PlatformTime.freshId inp
        let pending : TimeRequest :=
          ⟨1, s.gateway, requestId, s.bootId, s.session.getD [], now⟩
        modify fun s => { s with pending := some pending, attempts := s.attempts + 1 }
        return some pending : TimeProg (Option TimeRequest)) := by
    refine keeps_get fun s => keeps_ite ?_ ?_
    · exact .bind (keeps_finishRound hnow) fun _ => .pure _
    · exact hask _ fun id => keeps_assign (fun _ => rfl) (fun _ => rfl) (.pure _)
  refine keeps_get fun s => keeps_ite (.pure _) (keeps_get fun s' => keeps_ite ?_ hrest)
  exact keeps_assign (fun _ => rfl) (fun _ => rfl) hrest

theorem keeps_retry {now : ℤ} (hnow : m ≤ now) :
    Keeps (Dated inp m) (PlatformTime.retry inp now) := by
  refine keeps_assign (fun _ => rfl) (fun _ => rfl) (keeps_get fun s => keeps_ite ?_ (keeps_issue hnow))
  exact .bind (keeps_finishRound hnow) fun _ => keeps_issue hnow

theorem keeps_ask {now : ℤ} (hnow : m ≤ now) : Keeps (Dated inp m) (PlatformTime.ask inp now) := by
  refine keeps_get fun s => ?_
  split
  · exact keeps_issue hnow
  · exact keeps_ite (.pure _) (keeps_retry hnow)

/-- What `request` does after its snapshot. -/
theorem keeps_request_tail {now : ℤ} (hnow : m ≤ now) :
    Keeps (Dated inp m) (do
      let s ← Prog.get
      if !s.platform || s.session.isNone || s.state == .maintenance then return none
      else
        if s.roundOver now then PlatformTime.finishRound inp now else pure ()
        PlatformTime.ask inp now : TimeProg (Option TimeRequest)) := by
  refine keeps_get fun s => keeps_ite (.pure _) (keeps_ite ?_ (keeps_ask hnow))
  exact .bind (keeps_finishRound hnow) fun _ => keeps_ask hnow

theorem keeps_response [JsonSchema] {payload : Bytes} {received : ℤ} {session : Option PyStr}
    {retained : Bool} :
    Keeps (Dated inp m) (PlatformTime.response inp payload received session retained) := by
  refine keeps_readMono fun now hnow => keeps_get fun s => ?_
  split
  · exact .raise _
  · exact keeps_assign (fun _ => rfl) (fun _ => rfl) (.pure _)
  · exact keeps_assign (fun _ => rfl) (fun _ => rfl) (.pure _)
  · refine .bind ?_ fun _ => .pure _
    refine keeps_assign (fun _ => rfl) (fun _ => rfl) (keeps_get fun s' => ?_)
    exact keeps_ite (keeps_finishRound hnow) (.pure ())

omit [Rounding] in
theorem keeps_connect {session : PyStr} : Keeps (Dated inp m) (PlatformTime.connect session) := by
  refine .bind keeps_check fun _ => keeps_get fun s => .bind keeps_check fun _ => ?_
  exact keeps_modify (fun _ => rfl) fun _ => rfl

theorem keeps_loadHistoryBoundary {basis : Option PyStr} {utcLower : Option ℤ} :
    Keeps (Dated inp m) (PlatformTime.loadHistoryBoundary inp basis utcLower) := by
  unfold PlatformTime.loadHistoryBoundary
  cases utcLower with
  | none => exact .pure ()
  | some lower =>
      refine keeps_get fun s => keeps_ite keeps_invalidate (keeps_get fun s' => ?_)
      refine keeps_assign (fun _ => rfl) (fun _ => rfl) (keeps_get fun s'' => ?_)
      exact keeps_ite keeps_invalidate (.pure ())

theorem keeps_valid (hmono : Monotone inp.mono) {token : Option TimeToken} {purpose : Purpose} :
    Keeps (Dated inp m) (PlatformTime.valid inp token purpose) :=
  keeps_snapshot hmono fun _ _ => keeps_get fun _ => .pure _

theorem keeps_require (hmono : Monotone inp.mono) {token : Option TimeToken} {purpose : Purpose} :
    Keeps (Dated inp m) (PlatformTime.require inp token purpose) := by
  refine keeps_get fun s => .bind keeps_check fun _ => .bind (keeps_valid hmono) fun ok => ?_
  refine .bind keeps_check fun _ => fun s hs => ?_
  exact (wp_snapshot_dated hmono hs).mono (fun _ _ h => h.1) fun _ _ h => h

/-! ## What the snapshots of an operation show -/

/-- A valid snapshot shows the clock it was taken from, moved to its reading. -/
structure Sighted (s : PlatformTime) (t : TimeSnapshot) : Prop where
  opened : s.opened = true
  revision : t.clockRevision = s.revision
  later : s.lastMono ≤ t.monoMs
  utc : t.utcMs = (s.slew t.monoMs).utc.map fun utc => ⌊utc⌋

theorem wp_snapshot_sighted (hle : s.lastObservedMono ≤ inp.mono s.reads.mono)
    (hlast : s.lastMono ≤ inp.mono s.reads.mono) :
    wp (PlatformTime.snapshot inp) (fun t _ => t.timeValid = true → Sighted s t) (fun _ _ => True)
      s := by
  generalize hnow : inp.mono s.reads.mono = now at hle hlast
  have hle' : s.readNext.lastObservedMono ≤ now := hle
  rw [wp_snapshot, hnow, wp_advance_of_le hle', slew_readNext]
  refine ⟨fun _ _ => trivial, fun _ hv => ?_⟩
  have hvalid : (s.slew now).readNext.validAt now = true := hv
  have hset := settled_of_validAt inp hvalid
  have hopen := state_of_validAt hvalid
  refine ⟨?_, ?_, hlast, ?_⟩
  · rw [show (s.slew now).readNext.state = (s.slew now).state from rfl, state_slew] at hopen
    exact hopen
  · show ((s.slew now).readNext.settled inp now).revision = s.revision
    rw [hset, slew_frame]
    rfl
  · show (if (s.slew now).readNext.validAt now then
        ((s.slew now).readNext.settled inp now).utc.map fun utc => ⌊utc⌋ else none) = _
    rw [if_pos hvalid, hset]
    rfl

/-- A snapshot taken in a state of the run. -/
theorem observe_sighted (ht : Timed inp s) {t : TimeSnapshot} (hmem : t ∈ s.observe inp)
    (hv : t.timeValid = true) : Sighted s t := by
  have hwp := wp_snapshot_sighted ht.le (ht.ahead _ le_rfl)
  unfold PlatformTime.observe at hmem
  split at hmem
  · rename_i t' σ hrun
    rw [List.mem_singleton] at hmem
    subst hmem
    exact hwp.of_ok hrun hv
  · cases hmem

/-- What follows a snapshot leaves a clock dated by it. -/
theorem wp_observe_dated {α : Type} {f : TimeSnapshot → TimeProg α} (hmono : Monotone inp.mono)
    (hs : Dated inp m s) (hf : ∀ t, Keeps (Dated inp t.monoMs) (f t)) :
    wp (PlatformTime.snapshot inp >>= f) (fun _ σ => ∀ t ∈ s.observe inp, Dated inp t.monoMs σ)
      (fun _ σ => ∀ t ∈ s.observe inp, Dated inp t.monoMs σ) s := by
  rw [wp_bind]
  refine (wp_snapshot_dated hmono hs).run.mono ?_ ?_
  · rintro t σ ⟨⟨-, hσ, -⟩, hrun⟩
    rw [observe_of_ok hrun]
    refine (hf t σ hσ).mono ?_ ?_
    · intro _ τ hτ t' ht'
      rw [List.mem_singleton.mp ht']
      exact hτ
    · intro _ τ hτ t' ht'
      rw [List.mem_singleton.mp ht']
      exact hτ
  · rintro e σ ⟨-, hrun⟩ t ht
    rw [observe_of_error hrun] at ht
    cases ht

/-- Both snapshots of a gate show the clock it was asked on. -/
theorem observeGate_sighted (exact : ∀ x : ℚ, fl x = x) (hmono : Monotone inp.mono) (hs : s.Regular) (ht : Timed inp s)
    {token : Option TimeToken} {purpose : Purpose} {t : TimeSnapshot}
    (hmem : t ∈ s.observeGate inp token purpose) (hv : t.timeValid = true) : Sighted s t := by
  unfold PlatformTime.observeGate at hmem
  split at hmem
  · cases hmem
  · rcases List.mem_append.mp hmem with h | h
    · exact observe_sighted ht h hv
    · split at h
      · rename_i σ hrun
        -- The second snapshot is taken in the state that the check left.
        obtain ⟨⟨hbecomes, -, t₁, hseen, -⟩, htrack⟩ :=
          ((wp_valid_evolves hs ht.le).and (wp_valid_timed hmono ht)).of_ok hrun
        obtain ⟨htracks, hat⟩ := htrack
        have hnow := hseen.registers
        have hσ := wp_snapshot_sighted (s := σ)
          (hseen.looks.last ▸ hat.next _ le_rfl) (by
            simp only [PlatformTime.registers, Prod.mk.injEq] at hnow
            rw [hnow.2.2.2.1, slew_lastMono]
            exact hat.next _ le_rfl)
        have hsight : Sighted σ t := by
          unfold PlatformTime.observe at h
          split at h
          · rename_i t' τ hrun'
            rw [List.mem_singleton] at h
            subst h
            exact hσ.of_ok hrun' hv
          · cases h
        have hopen₁ : t₁.timeValid = true := hseen.valid.trans hsight.opened
        have hrev : σ.revision = s.revision := hseen.kept hopen₁
        have hregs := slew_registers_congr hnow t.monoMs
        have hlast : σ.lastMono = inp.mono s.reads.mono := by
          simp only [PlatformTime.registers, Prod.mk.injEq] at hnow
          rw [hnow.2.2.2.1, slew_lastMono]
        have hlater : inp.mono s.reads.mono ≤ t.monoMs := hlast ▸ hsight.later
        rw [slew_slew exact (ht.ahead _ le_rfl) hlater] at hregs
        simp only [PlatformTime.registers, Prod.mk.injEq] at hregs
        refine ⟨(hbecomes.evolves.back hrev hsight.opened).resolve_right id,
          hsight.revision.trans hrev, (ht.ahead _ le_rfl).trans hlater, ?_⟩
        rw [hsight.utc, hregs.2.2.2.2.1]
      · cases h

/-- A gate leaves a clock dated by each of its snapshots. -/
theorem wp_require_dated (hmono : Monotone inp.mono) (hs : Dated inp m s) {token : Option TimeToken}
    {purpose : Purpose} :
    wp (PlatformTime.require inp token purpose)
      (fun _ σ => ∀ t ∈ s.observeGate inp token purpose, Dated inp t.monoMs σ)
      (fun _ σ => ∀ t ∈ s.observeGate inp token purpose, Dated inp t.monoMs σ) s := by
  simp only [PlatformTime.require, wp_bind, wp_get, wp_check]
  refine ⟨fun hguard => ?_, fun hguard => ?_⟩
  · have hgate : s.observeGate inp token purpose = s.observe inp ++ _ := if_neg hguard
    rw [hgate]
    have hfirst : wp (PlatformTime.valid inp token purpose)
        (fun _ σ => ∀ t ∈ s.observe inp, Dated inp t.monoMs σ)
        (fun _ σ => ∀ t ∈ s.observe inp, Dated inp t.monoMs σ) s :=
      wp_observe_dated hmono hs fun t => keeps_get fun _ => .pure _
    refine (hfirst.and (keeps_valid hmono s hs)).run.mono ?_ ?_
    · rintro b σ ⟨⟨h, hσ⟩, hrun⟩
      rw [hrun]
      cases b with
      | false => exact ⟨fun h => Bool.noConfusion h, fun _ => by simpa using h⟩
      | true =>
          refine ⟨fun _ => ?_, fun hne => absurd rfl hne⟩
          -- The second snapshot dates the clock once more and keeps the first date.
          have hsecond := wp_observe_dated (f := pure) hmono hσ fun t => Keeps.pure t
          simp only [wp_bind, wp_pure] at hsecond
          have hkept : ∀ t ∈ s.observe inp, wp (PlatformTime.snapshot inp)
              (fun _ τ => Dated inp t.monoMs τ) (fun _ τ => Dated inp t.monoMs τ) σ := fun t ht =>
            (wp_snapshot_dated hmono (h t ht)).mono (fun _ _ h => h.1) fun _ _ h => h
          have hboth : ∀ {τ : PlatformTime}, (∀ t ∈ σ.observe inp, Dated inp t.monoMs τ) →
              (∀ t ∈ s.observe inp, Dated inp t.monoMs τ) →
              ∀ t ∈ s.observe inp ++ σ.observe inp, Dated inp t.monoMs τ := by
            intro τ h2 h1 t ht
            rcases List.mem_append.mp ht with ht | ht
            · exact h1 t ht
            · exact h2 t ht
          refine (hsecond.run).mono ?_ ?_
          · rintro t τ ⟨h2, hrun'⟩
            exact hboth h2 fun t' ht' => (hkept t' ht').of_ok hrun'
          · rintro e τ ⟨h2, hrun'⟩
            exact hboth h2 fun t' ht' => (hkept t' ht').of_error hrun'
    · rintro e σ ⟨⟨h, -⟩, hrun⟩
      rw [hrun]
      simpa using h
  · have hgate : s.observeGate inp token purpose = [] := if_pos (by simpa using hguard)
    rw [hgate]
    exact fun t ht => absurd ht List.not_mem_nil

theorem exec_keeps [JsonSchema] {c : TimeConfig} (hmono : Monotone inp.mono) (op : TimeOp) :
    Keeps (Dated inp m) (op.exec inp c) := by
  have hsnapshot : ∀ {α : Type} (f : TimeSnapshot → TimeProg α), (∀ t, Keeps (Dated inp m) (f t)) →
      Keeps (Dated inp m) (PlatformTime.snapshot inp >>= f) :=
    fun f hf => keeps_snapshot hmono fun t _ => hf t
  cases op with
  | requireMaintenance => exact .bind keeps_invalidate fun _ => .pure _
  | read completed => exact .bind (hsnapshot _ fun t => keeps_get fun _ => .pure _) fun _ => .pure _
  | diagnostics => exact .bind (hsnapshot _ fun t => keeps_get fun _ => .pure _) fun _ => .pure _
  | readMono => exact keeps_readMono fun now _ => .pure _
  | call k =>
      refine .bind ?_ fun _ => .pure _
      cases k with
      | connect session => exact .bind keeps_connect fun _ => .pure _
      | disconnect =>
          refine .bind (.bind keeps_connect fun _ => ?_) fun _ => .pure _
          exact keeps_modify (fun _ => rfl) fun _ => rfl
      | request =>
          exact .bind (keeps_snapshot hmono fun t ht => keeps_request_tail ht) fun _ => .pure _
      | response payload received session retained => exact .bind keeps_response fun _ => .pure _
      | snapshot => exact hsnapshot _ fun t => .pure _
      | token => exact .bind (hsnapshot _ fun t => .pure _) fun _ => .pure _
      | valid token purpose => exact .bind (keeps_valid hmono) fun _ => .pure _
      | require token purpose => exact .bind (keeps_require hmono) fun _ => .pure _
      | controlSubmitted kind token =>
          refine .bind (.bind (keeps_require hmono) fun _ => ?_) fun _ => .pure _
          refine keeps_modify (fun s => ?_) fun s => ?_ <;> cases kind <;> rfl
      | loadHistoryBoundary basis utcLower =>
          exact .bind keeps_loadHistoryBoundary fun _ => .pure _

/-- An operation leaves a clock dated by each of its snapshots. -/
theorem exec_dated [JsonSchema] {c : TimeConfig} (hmono : Monotone inp.mono) (op : TimeOp)
    (hs : Dated inp m s) :
    wp (op.exec inp c) (fun _ σ => ∀ t ∈ op.observations inp s, Dated inp t.monoMs σ)
      (fun _ σ => ∀ t ∈ op.observations inp s, Dated inp t.monoMs σ) s := by
  have hnone : ∀ {α : Type} {x : TimeProg α},
      wp x (fun _ σ => ∀ t ∈ ([] : List TimeSnapshot), Dated inp t.monoMs σ)
        (fun _ σ => ∀ t ∈ ([] : List TimeSnapshot), Dated inp t.monoMs σ) s :=
    wp_of_forall (fun _ _ _ h => absurd h List.not_mem_nil) fun _ _ _ h => absurd h List.not_mem_nil
  -- What follows the snapshot only has to keep its date.
  have hsnapshot : ∀ {α : Type} {f : TimeSnapshot → TimeProg α},
      (∀ t, Keeps (Dated inp t.monoMs) (f t)) →
      wp (PlatformTime.snapshot inp >>= f) (fun _ σ => ∀ t ∈ s.observe inp, Dated inp t.monoMs σ)
        (fun _ σ => ∀ t ∈ s.observe inp, Dated inp t.monoMs σ) s :=
    fun hf => wp_observe_dated hmono hs hf
  cases op with
  | requireMaintenance => exact hnone
  | readMono => exact hnone
  | read completed =>
      simp only [TimeOp.exec, wp_bind (β := TimeOpOutcome), wp_pure]
      exact hsnapshot fun t => keeps_get fun _ => .pure _
  | diagnostics =>
      simp only [TimeOp.exec, wp_bind (β := TimeOpOutcome), wp_pure]
      exact hsnapshot fun t => keeps_get fun _ => .pure _
  | call k =>
      simp only [TimeOp.exec, wp_bind (β := TimeOpOutcome), wp_pure]
      cases k with
      | connect session => exact hnone
      | disconnect => exact hnone
      | response payload received session retained => exact hnone
      | loadHistoryBoundary basis utcLower => exact hnone
      | request =>
          simp only [TimeCall.exec, wp_bind (β := TimeOutcome), wp_pure]
          exact hsnapshot fun t => keeps_request_tail le_rfl
      | snapshot =>
          simp only [TimeCall.exec]
          exact hsnapshot fun t => .pure _
      | token =>
          simp only [TimeCall.exec, wp_bind (β := TimeOutcome), wp_pure]
          exact hsnapshot fun t => .pure _
      | valid token purpose =>
          simp only [TimeCall.exec, wp_bind (β := TimeOutcome), wp_pure]
          exact hsnapshot fun t => keeps_get fun _ => .pure _
      | require token purpose =>
          simp only [TimeCall.exec, wp_bind (β := TimeOutcome), wp_pure]
          exact wp_require_dated hmono hs
      | controlSubmitted kind token =>
          simp only [TimeCall.exec, PlatformTime.controlSubmitted, wp_bind, wp_modify, wp_pure]
          refine (wp_require_dated hmono hs).mono (fun _ σ h t ht => ?_) fun _ _ h => h
          refine (h t ht).congr ?_ (le_of_eq ?_) <;> cases kind <;> rfl

/-- Every valid snapshot of an operation shows the clock it was called on. -/
theorem observations_sighted [JsonSchema] (exact : ∀ x : ℚ, fl x = x)
    (hmono : Monotone inp.mono) (hs : s.Steady inp)
    {op : TimeOp} {t : TimeSnapshot} (hmem : t ∈ op.observations inp s) (hv : t.timeValid = true) :
    Sighted s t := by
  have hgate : ∀ token purpose, t ∈ s.observeGate inp token purpose → Sighted s t :=
    fun token purpose h => observeGate_sighted exact hmono hs.regular hs.timed h hv
  have hone : t ∈ s.observe inp → Sighted s t := fun h => observe_sighted hs.timed h hv
  cases op with
  | requireMaintenance => cases hmem
  | readMono => cases hmem
  | read completed => exact hone hmem
  | diagnostics => exact hone hmem
  | call k =>
      cases k with
      | connect session => cases hmem
      | disconnect => cases hmem
      | response payload received session retained => cases hmem
      | loadHistoryBoundary basis utcLower => cases hmem
      | request => exact hone hmem
      | snapshot => exact hone hmem
      | token => exact hone hmem
      | valid token purpose => exact hone hmem
      | require token purpose => exact hgate _ _ hmem
      | controlSubmitted kind token => exact hgate _ _ hmem

/-! ## Along a run -/

/-- While the clock is in revision `r`, it is open and follows a sighting of `u` at the
    reading `m`; it never comes back to that revision. -/
structure OnCurve (inp : Inputs) (r m : ℤ) (u : ℚ) (s : PlatformTime) : Prop where
  dated : Dated inp m s
  grown : r ≤ s.revision
  follows : s.revision = r → s.opened = true ∧
    ∃ v, s.utc = some v ∧ Paced u v (s.lastMono - m)

/-- What the clock would show at a later reading follows the sighting. -/
theorem OnCurve.slew (exact : ∀ x : ℚ, fl x = x) {r : ℤ} {u : ℚ} (h : OnCurve inp r m u s) (hr : s.revision = r) {now : ℤ}
    (hnow : s.lastMono ≤ now) : ∃ v, (s.slew now).utc = some v ∧ Paced u v (now - m) := by
  obtain ⟨-, v, hv, hpaced⟩ := h.follows hr
  obtain ⟨w, hw, hpaced'⟩ := slew_paced exact hv hnow
  refine ⟨w, hw, ?_⟩
  have := hpaced.trans hpaced'
  rwa [show (s.lastMono : ℚ) - m + (now - s.lastMono) = now - m by ring] at this

omit [Rounding] in
/-- The registers of a running clock stay dated by themselves. -/
theorem dated_self (ht : Timed inp s) : Dated inp s.lastMono s := ⟨le_rfl, ht.ahead⟩

theorem after_later [JsonSchema] {c : TimeConfig} (hmono : Monotone inp.mono) (hs : s.Steady inp)
    (op : TimeOp) : s.lastMono ≤ (perform (TimeOp.exec inp c) s op).after.lastMono :=
  ((exec_keeps (c := c) hmono op).final (dated_self hs.timed)).last

/-- One step keeps to the curve. -/
theorem OnCurve.perform [JsonSchema] (exact : ∀ x : ℚ, fl x = x) {c : TimeConfig} (hmono : Monotone inp.mono)
    (hs : s.Steady inp) {r : ℤ} {u : ℚ} (h : OnCurve inp r m u s) (op : TimeOp) :
    OnCurve inp r m u (perform (TimeOp.exec inp c) s op).after := by
  obtain ⟨hperf, -, -⟩ := perform_steady (c := c) hmono op hs
  have hgrown := hperf.evolves.revision
  have hlater := after_later (c := c) hmono hs op
  have hdated : Dated inp m (Effect.perform (TimeOp.exec inp c) s op).after :=
    (exec_keeps (c := c) hmono op).final h.dated
  generalize (Effect.perform (TimeOp.exec inp c) s op).after = s' at hperf hgrown hlater hdated ⊢
  refine ⟨hdated, h.grown.trans hgrown, fun hr => ?_⟩
  have hgrown' := h.grown
  have hsame : s'.revision = s.revision := by omega
  have hr' : s.revision = r := by omega
  have hopen := (h.follows hr').1
  obtain ⟨v, hv, hpaced⟩ := h.slew exact hr' hlater
  exact ⟨hperf.evolves.stays hsame hopen, v, ((hperf.ran hsame hopen).utc exact).2.trans hv, hpaced⟩

/-- A sighting puts the rest of the run on its curve. -/
theorem onCurve_of_sighted [JsonSchema] (exact : ∀ x : ℚ, fl x = x) {c : TimeConfig} (hmono : Monotone inp.mono)
    (hs : s.Steady inp) {op : TimeOp} {t : TimeSnapshot} (hmem : t ∈ op.observations inp s)
    (hsight : Sighted s t) {u : ℚ} (hu : (s.slew t.monoMs).utc = some u) :
    OnCurve inp s.revision t.monoMs u (perform (TimeOp.exec inp c) s op).after := by
  obtain ⟨hperf, -, -⟩ := perform_steady (c := c) hmono op hs
  have hdated : Dated inp t.monoMs (perform (TimeOp.exec inp c) s op).after :=
    (exec_dated (c := c) hmono op (dated_self hs.timed)).final t hmem
  generalize (perform (TimeOp.exec inp c) s op).after = s' at hperf hdated ⊢
  refine ⟨hdated, hperf.evolves.revision, fun hr => ?_⟩
  have hlast : (s.slew t.monoMs).lastMono ≤ s'.lastMono := by
    rw [slew_lastMono]
    exact hdated.last
  obtain ⟨v, hv, hpaced⟩ := slew_paced exact hu hlast
  rw [slew_slew exact hsight.later hdated.last] at hv
  rw [slew_lastMono] at hpaced
  exact ⟨hperf.evolves.stays hr hsight.opened, v,
    ((hperf.ran hr hsight.opened).utc exact).2.trans hv, hpaced⟩

/-- The logical times of two valid snapshots, the first taken no later. -/
def Follows (t₁ t₂ : TimeSnapshot) : Prop :=
  t₁.monoMs ≤ t₂.monoMs ∧ ∃ u₁ u₂ : ℚ, t₁.utcMs = some ⌊u₁⌋ ∧ t₂.utcMs = some ⌊u₂⌋ ∧
    Paced u₁ u₂ (t₂.monoMs - t₁.monoMs)

/-- A sighting shows a logical time. -/
theorem Sighted.shown (hs : s.Regular) {t : TimeSnapshot} (h : Sighted s t) :
    ∃ u, (s.slew t.monoMs).utc = some u ∧ t.utcMs = some ⌊u⌋ := by
  obtain ⟨v, hv⟩ := Option.ne_none_iff_exists'.mp (hs.anchored h.opened)
  have hu := slew_utc s t.monoMs
  rw [hv, Option.map_some] at hu
  exact ⟨_, hu, by rw [h.utc, hu, Option.map_some]⟩

/-- Two sightings from one state. -/
theorem follows_of_sighted (exact : ∀ x : ℚ, fl x = x) (hs : s.Regular) {t₁ t₂ : TimeSnapshot} (h₁ : Sighted s t₁)
    (h₂ : Sighted s t₂) (hle : t₁.monoMs ≤ t₂.monoMs) : Follows t₁ t₂ := by
  obtain ⟨u₁, hu₁, hshown₁⟩ := h₁.shown hs
  obtain ⟨u₂, hu₂, hshown₂⟩ := h₂.shown hs
  have hlast : (s.slew t₁.monoMs).lastMono ≤ t₂.monoMs := by
    rw [slew_lastMono]
    exact hle
  obtain ⟨v, hv, hpaced⟩ := slew_paced exact hu₁ hlast
  rw [slew_slew exact h₁.later hle, hu₂] at hv
  cases hv
  rw [slew_lastMono] at hpaced
  exact ⟨hle, u₁, u₂, hshown₁, hshown₂, hpaced⟩

/-- The sightings later in a run follow one before it. -/
theorem follows_of_onCurve [JsonSchema] (exact : ∀ x : ℚ, fl x = x) {c : TimeConfig} (hmono : Monotone inp.mono)
    (hs : s.Steady inp) {r : ℤ} {u : ℚ} (hcurve : OnCurve inp r m u s) (ops : List TimeOp) :
    ∀ st ∈ opTrace inp c s ops, ∀ t ∈ st.call.observations inp st.before, t.timeValid = true →
      t.clockRevision = r → m ≤ t.monoMs ∧ ∃ v, t.utcMs = some ⌊v⌋ ∧ Paced u v (t.monoMs - m) := by
  refine trace_forall (I := fun s => s.Steady inp ∧ OnCurve inp r m u s) (C := fun _ => True)
    (P := fun st : TimeOpStep => ∀ t ∈ st.call.observations inp st.before, t.timeValid = true →
      t.clockRevision = r → m ≤ t.monoMs ∧ ∃ v, t.utcMs = some ⌊v⌋ ∧ Paced u v (t.monoMs - m))
    ?_ ⟨hs, hcurve⟩ fun _ _ => trivial
  rintro s op ⟨hs, hcurve⟩ -
  refine ⟨fun t hmem hv hr => ?_, (perform_steady hmono op hs).2.2, hcurve.perform exact hmono hs op⟩
  have hsight := observations_sighted exact hmono hs hmem hv
  obtain ⟨v, hv', hpaced⟩ := hcurve.slew exact (hsight.revision.symm.trans hr) hsight.later
  exact ⟨hcurve.dated.last.trans hsight.later, v, by rw [hsight.utc]; exact congrArg _ hv', hpaced⟩

/-- Any two valid snapshots of one revision, in the order they were taken. -/
theorem follows_of_trace [JsonSchema] (exact : ∀ x : ℚ, fl x = x) {c : TimeConfig} (hmono : Monotone inp.mono)
    (hs : s.Steady inp) (ops : List TimeOp) {st₁ st₂ : TimeOpStep}
    (h₁ : st₁ ∈ opTrace inp c s ops) (h₂ : st₂ ∈ opTrace inp c s ops) {t₁ t₂ : TimeSnapshot}
    (hmem₁ : t₁ ∈ st₁.call.observations inp st₁.before)
    (hmem₂ : t₂ ∈ st₂.call.observations inp st₂.before) (hv₁ : t₁.timeValid = true)
    (hv₂ : t₂.timeValid = true) (hr : t₁.clockRevision = t₂.clockRevision) :
    Follows t₁ t₂ ∨ Follows t₂ t₁ := by
  induction ops generalizing s with
  | nil => cases h₁
  | cons op ops ih =>
      have hnext := (perform_steady (c := c) hmono op hs).2.2
      -- A snapshot of the first step, and one of the rest of the run.
      have hcross : ∀ {t t' : TimeSnapshot} {st : TimeOpStep}, t ∈ op.observations inp s →
          t.timeValid = true → st ∈ opTrace inp c (perform (TimeOp.exec inp c) s op).after ops →
          t' ∈ st.call.observations inp st.before → t'.timeValid = true →
          t'.clockRevision = t.clockRevision → Follows t t' := by
        intro t t' st hmem hv hst hmem' hv' hrev
        have hsight := observations_sighted exact hmono hs hmem hv
        obtain ⟨u, hu, hshown⟩ := hsight.shown hs.regular
        have hcurve := onCurve_of_sighted exact (c := c) hmono hs hmem hsight hu
        obtain ⟨hle, v, hv'', hpaced⟩ := follows_of_onCurve exact hmono hnext hcurve ops st hst t' hmem' hv'
          (hrev.trans hsight.revision)
        exact ⟨hle, u, v, hshown, hv'', hpaced⟩
      rcases List.mem_cons.mp h₁ with rfl | h₁ <;> rcases List.mem_cons.mp h₂ with rfl | h₂
      · have hsight₁ := observations_sighted exact hmono hs hmem₁ hv₁
        have hsight₂ := observations_sighted exact hmono hs hmem₂ hv₂
        rcases le_total t₁.monoMs t₂.monoMs with hle | hle
        · exact .inl (follows_of_sighted exact hs.regular hsight₁ hsight₂ hle)
        · exact .inr (follows_of_sighted exact hs.regular hsight₂ hsight₁ hle)
      · exact .inl (hcross hmem₁ hv₁ h₂ hmem₂ hv₂ hr.symm)
      · exact .inr (hcross hmem₂ hv₂ h₁ hmem₁ hv₁ hr)
      · exact ih hnext h₁ h₂

end Helpers

/-! ## The theorem -/

/-- Valid snapshots of one revision are ordered as their readings, within half a
    percent and the rounding to milliseconds. -/
theorem utc_monotone [JsonSchema] [Rounding] (exact : ∀ x : ℚ, fl x = x) {inp : Inputs}
    {c : TimeConfig} {s₀ : PlatformTime} (hmode : c.mode = .hubMqtt) (hc : PlatformTime.create inp c = .ok s₀)
    (hmono : Monotone inp.mono) {ops : List TimeOp} {st₁ st₂ : TimeOpStep}
    (h₁ : st₁ ∈ opTrace inp c s₀ ops) (h₂ : st₂ ∈ opTrace inp c s₀ ops) {t₁ t₂ : TimeSnapshot}
    (hmem₁ : t₁ ∈ st₁.call.observations inp st₁.before)
    (hmem₂ : t₂ ∈ st₂.call.observations inp st₂.before) (hv₁ : t₁.timeValid = true)
    (hv₂ : t₂.timeValid = true) (hr : t₁.clockRevision = t₂.clockRevision)
    (hle : t₁.monoMs ≤ t₂.monoMs) :
    ∃ utc₁ utc₂ : ℤ, t₁.utcMs = some utc₁ ∧ t₂.utcMs = some utc₂ ∧ utc₁ ≤ utc₂ ∧
      (995 / 1000 : ℚ) * (t₂.monoMs - t₁.monoMs) - 1 ≤ utc₂ - utc₁ ∧
      (utc₂ : ℚ) - utc₁ ≤ 1005 / 1000 * (t₂.monoMs - t₁.monoMs) + 1 := by
  have hs₀ : s₀.Steady inp := steady_create hmode hmono hc
  have hd : (0 : ℚ) ≤ t₂.monoMs - t₁.monoMs := sub_nonneg.mpr (by exact_mod_cast hle)
  -- Snapshots taken in the other order have the same reading, and show the same time.
  obtain ⟨u₁, u₂, hu₁, hu₂, hpaced⟩ : ∃ u₁ u₂ : ℚ, t₁.utcMs = some ⌊u₁⌋ ∧ t₂.utcMs = some ⌊u₂⌋ ∧
      Paced u₁ u₂ (t₂.monoMs - t₁.monoMs) := by
    rcases follows_of_trace exact hmono hs₀ ops h₁ h₂ hmem₁ hmem₂ hv₁ hv₂ hr with
      ⟨-, h⟩ | ⟨hle', u₂, u₁, hu₂, hu₁, hpaced⟩
    · exact h
    · have heq : t₁.monoMs = t₂.monoMs := le_antisymm hle hle'
      rw [heq, sub_self] at hpaced ⊢
      refine ⟨u₁, u₂, hu₁, hu₂, ?_⟩
      obtain ⟨h1, h2⟩ := hpaced
      constructor <;> linarith
  obtain ⟨hlo, hhi⟩ := hpaced
  have hup : u₁ ≤ u₂ := by
    have : 0 ≤ 995 / 1000 * ((t₂.monoMs : ℚ) - t₁.monoMs) := by positivity
    linarith
  have h1 := Int.floor_le u₁
  have h2 := Int.lt_floor_add_one u₁
  have h3 := Int.floor_le u₂
  have h4 := Int.lt_floor_add_one u₂
  exact ⟨⌊u₁⌋, ⌊u₂⌋, hu₁, hu₂, Int.floor_le_floor hup, by linarith, by linarith⟩

section Scripted

attribute [local instance] JsonSchema.atRoot Rounding.exact

/-- The clock that the first round has set. -/
def roundClock (monoMs utcMs : ℤ) : TimeSnapshot :=
  { bootId := py "b", monoMs := monoMs, utcMs := some utcMs, systemUtcMs := none
    uncertaintyMs := some 27, source := .hubMqtt, state := .synced, timeValid := true
    syncAgeMs := some (monoMs - 70), clockRevision := 1, timeBasisRef := some (py "h")
    connectionRevision := 1 }

/-- Two snapshots that are 10 ms apart. -/
theorem utc_monotone_next :
    (roundClock 90 1066).timeValid = true ∧ ∃ utc₁ utc₂ : ℤ, (roundClock 90 1066).utcMs = some utc₁ ∧
      (roundClock 100 1076).utcMs = some utc₂ ∧ utc₁ ≤ utc₂ ∧
      (995 / 1000 : ℚ) * ((100 : ℤ) - (90 : ℤ)) - 1 ≤ utc₂ - utc₁ ∧
      (utc₂ : ℚ) - utc₁ ≤ 1005 / 1000 * ((100 : ℤ) - (90 : ℤ)) + 1 := by
  have hc : PlatformTime.create steady .scripted = .ok (.started steady .scripted) :=
    if_pos (by decide +kernel)
  have hcut := scripted_cut steady setClock [] .snapshot .snapshot
  have h₁ : scriptedStep steady setClock .snapshot ∈ opTrace steady .scripted
      (.started steady .scripted) (asOps (setClock ++ [.snapshot] ++ [] ++ [.snapshot])) := by
    rw [hcut]
    exact List.mem_append_right _ List.mem_cons_self
  have h₂ : scriptedStep steady (setClock ++ [.snapshot] ++ []) .snapshot ∈ opTrace steady .scripted
      (.started steady .scripted) (asOps (setClock ++ [.snapshot] ++ [] ++ [.snapshot])) := by
    rw [hcut]
    exact List.mem_append_right _ (List.mem_cons_of_mem _ (List.mem_append_right _ List.mem_cons_self))
  have hobs : ∀ calls, (scriptedStep steady calls .snapshot).call.observations steady
      (scriptedStep steady calls .snapshot).before = (scriptedState steady calls).observe steady :=
    fun _ => rfl
  have hmem₁ : roundClock 90 1066 ∈ (scriptedState steady setClock).observe steady := by
    decide +kernel
  have hmem₂ : roundClock 100 1076 ∈
      (scriptedState steady (setClock ++ [.snapshot] ++ [])).observe steady := by
    decide +kernel
  rw [← hobs] at hmem₁ hmem₂
  exact ⟨rfl, utc_monotone (fun _ => rfl) rfl hc steady_monotone h₁ h₂ hmem₁ hmem₂ rfl rfl rfl (by decide)⟩

end Scripted

end PlcnextIot.Core
