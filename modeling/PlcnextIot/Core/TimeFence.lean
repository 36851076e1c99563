/-
  PlcnextIot.Core.TimeFence

  The maintenance fence of the platform clock.

  A rollback against the history floor or the current clock, a basis mismatch
  or a decreasing reading closes the clock for the life of the process.  The
  fence is kept by every call except two, each of which goes on assigning after
  a helper has closed the clock:

    * a `response` whose third candidate arrives with a decreasing reading:
      `_advance` drops the anchor and closes the clock, and `_adopt` re-anchors;
    * a `request` that ends a round whose candidate closes the clock: it opens
      a new round in the same call.

  Where a revision counter is used up, the bump of a closing call raises before
  the state is assigned.  `keepsFence` says when a call does none of this, in
  terms of the state before the call and its reading.
-/

import PlcnextIot.Core.TimeRun

namespace PlcnextIot.Core

open PlcnextIot.Python PlcnextIot.Contracts PlcnextIot.Effect PlcnextIot.Effect.Prog

/-! ## The condition -/

section Condition

variable [Rounding]

/-- Adopting a target closes the clock for good: it lies before the history
    floor, or it confirms a jump to before the logical clock. -/
def PlatformTime.fencesOn (s : PlatformTime) (target error : ℚ) : Bool :=
  s.rollsBack target error || (s.jumps target && s.suspectConfirm && s.reverses target error)

/-- What the round adopts at `now`, as target and error. -/
def PlatformTime.offer (s : PlatformTime) (cs : List Candidate) (now : ℤ) : Option (ℚ × ℚ) :=
  (choose cs now).map fun c => (c.targetAt now, c.errorAt s.driftPpm now)

/-- The outstanding request is still worth waiting for. -/
def PlatformTime.awaits (s : PlatformTime) (now : ℤ) : Bool :=
  !(s.slew now).expires now && s.pending.any fun p => now < p.clientMonoMs + 2000

/-- A request at `now` ends the open round. -/
def PlatformTime.closesRound (s : PlatformTime) (now : ℤ) : Bool :=
  s.roundStart.any fun start =>
    start + 30000 ≤ now || (10 ≤ s.attempts && !s.awaits now)

/-- A request at `now` adopts a target. -/
def PlatformTime.requestOffer (s : PlatformTime) (now : ℤ) : Option (ℚ × ℚ) :=
  if s.session.isSome && s.state != .maintenance && s.lastObservedMono ≤ now && s.closesRound now
  then s.offer s.candidates now
  else none

/-- A response at `now` adopts a target. -/
def PlatformTime.responseOffer [JsonSchema] (s : PlatformTime) (now : ℤ) (payload : Bytes)
    (received : ℤ) (session : Option PyStr) (retained : Bool) : Option (ℚ × ℚ) :=
  match s.judge now payload received session retained with
  | .ok (.take c) =>
    if 3 ≤ (s.candidates ++ [c]).length then s.offer (s.candidates ++ [c]) now else none
  | _ => none

/-- The call closes the clock for good and then opens it again. -/
def PlatformTime.reopens [JsonSchema] (inp : Inputs) (s : PlatformTime) : TimeCall → Bool
  | .request =>
    let now := inp.mono s.reads.mono
    0 ≤ now && (s.requestOffer now).any fun o => (s.slew now).fencesOn o.1 o.2
  | .response payload received session retained =>
    let now := inp.mono s.reads.mono
    now < s.lastObservedMono &&
      (s.responseOffer now payload received session retained).any fun o =>
        !s.rollsBack o.1 o.2 && (s.closing inp).fresh
  | _ => false

/-- The call runs into a reason to close the clock for good. -/
def PlatformTime.detects [JsonSchema] (inp : Inputs) (s : PlatformTime) : TimeCall → Bool
  | .connect _ | .disconnect => false
  | .request =>
    let now := inp.mono s.reads.mono
    now < s.lastObservedMono || (s.requestOffer now).any fun o => s.rollsBack o.1 o.2
  | .response payload received session retained =>
    let now := inp.mono s.reads.mono
    (s.responseOffer now payload received session retained).any fun o =>
      now < s.lastObservedMono || s.rollsBack o.1 o.2
  | .snapshot | .token | .valid _ _ => inp.mono s.reads.mono < s.lastObservedMono
  | .require _ _ | .controlSubmitted _ _ =>
    inp.mono s.reads.mono < s.lastObservedMono
      || inp.mono (s.reads.mono + 1) < inp.mono s.reads.mono
  | .loadHistoryBoundary basis utcLower =>
    utcLower.any fun lower => basis != s.basis || s.behindFloor (max (s.floor.getD 0) lower)

/-- The call cannot break the fence: it does not reopen the clock, and it does
    not have to close an open one when a revision counter is used up. -/
def PlatformTime.keepsFence [JsonSchema] (inp : Inputs) (s : PlatformTime) (call : TimeCall) : Bool :=
  if s.fresh || s.state.closed then !s.reopens inp call else !s.detects inp call

end Condition

/-! ## The property -/

/-- What a closed clock may answer. -/
def TimeCall.shutOn : TimeCall → TimeOutcome → Prop
  | .valid _ purpose, .valid b => purpose.guarded = true → b = false
  | _, .request r => r = none
  | _, .snapshot t => t.timeValid = false
  | _, _ => True

/-- The call passes a gate that a closed clock keeps shut. -/
def TimeCall.guarded : TimeCall → Bool
  | .require _ purpose => purpose.guarded
  | .controlSubmitted _ _ => true
  | _ => false

/-- A step that respects the fence: it stays up, and behind it the state is
    `MAINTENANCE`, no request is issued, no snapshot is valid and no gate opens. -/
structure FenceHolds (st : TimeStep) : Prop where
  stays : st.before.fenced = true → st.after.fenced = true
  maintenance : st.after.fenced = true → st.after.state = .maintenance
  shut : st.after.fenced = true → ∀ out, st.result = .ok out → st.call.shutOn out
  gates : st.before.fenced = true → st.call.guarded = true → ∀ out, st.result ≠ .ok out

/-- The invariant of the provider in platform mode. -/
structure PlatformTime.Sealed (s : PlatformTime) : Prop where
  platform : s.platform = true
  shut : s.fenced = true → s.state = .maintenance ∧ s.pending = none
  round : s.pending ≠ none → s.roundStart ≠ none

/-! ## Helpers -/

section Helpers

variable {inp : Inputs} {s : PlatformTime} {E : TimeError → PlatformTime → Prop}

theorem closed_of_maintenance (h : s.state = .maintenance) : s.state.closed = true := by
  rw [h]; rfl

/-- `_invalidate` cannot fail: a bump is possible, or not needed. -/
def PlatformTime.room (s : PlatformTime) : Prop := s.fresh ∨ s.state.closed = true

/-- With room for a bump, `_invalidate` succeeds. -/
theorem wp_invalidate_of_room {Q : Unit → PlatformTime → Prop} {state : TimeState}
    {reason : Reason} (h : s.room) :
    wp (PlatformTime.invalidate inp state reason) Q E s ↔
      Q () ((s.closing inp).shut state reason) := by
  rw [wp_invalidate]
  unfold PlatformTime.closing
  unfold PlatformTime.room at h
  cases hc : s.state.closed with
  | true => simp
  | false => simp_all

theorem closing_frame (inp : Inputs) (s : PlatformTime) :
    s.closing inp = { s with
      revision := (s.closing inp).revision, generation := (s.closing inp).generation,
      generationStarted := (s.closing inp).generationStarted, reads := (s.closing inp).reads } := by
  unfold PlatformTime.closing
  split <;> rfl

theorem closing_of_closed (h : s.state.closed = true) : s.closing inp = s := if_pos h

theorem closing_fresh_congr {a b : PlatformTime} (hst : a.state = b.state)
    (hr : a.revision = b.revision) (hc : a.connectionRevision = b.connectionRevision)
    (hg : a.generation = b.generation) : (a.closing inp).fresh ↔ (b.closing inp).fresh := by
  unfold PlatformTime.closing PlatformTime.fresh PlatformTime.bumped
  rw [hst]
  split <;> simp only [hr, hc, hg]

/-- A closed clock in platform mode is sealed. -/
theorem sealed_shut {state : TimeState} {reason : Reason} (hp : s.platform = true)
    (hf : s.fenced = true → state = .maintenance) : (s.shut state reason).Sealed := by
  refine ⟨hp, fun h => ⟨?_, rfl⟩, fun h => absurd rfl h⟩
  rcases Bool.or_eq_true_iff.mp h with h | h
  · exact hf h
  · exact eq_of_beq h

theorem PlatformTime.Sealed.readNext (hs : s.Sealed) : s.readNext.Sealed :=
  ⟨hs.platform, hs.shut, hs.round⟩

theorem PlatformTime.Sealed.systemNext (hs : s.Sealed) : s.systemNext.Sealed :=
  ⟨hs.platform, hs.shut, hs.round⟩

/-- With room for a bump, `require_maintenance` fences. -/
theorem requireMaintenance_sealed (hp : s.platform = true) (h : s.room) :
    wp (PlatformTime.requireMaintenance inp) (fun _ s' => s'.Sealed ∧ s'.fenced = true)
      (fun _ _ => False) s := by
  rw [PlatformTime.requireMaintenance, wp_invalidate_of_room h, closing_frame]
  exact ⟨sealed_shut hp fun _ => rfl, Bool.or_true _⟩

/-- The clock after a decreasing reading. -/
def PlatformTime.cut (inp : Inputs) (now : ℤ) (s : PlatformTime) : PlatformTime :=
  { (s.closing inp).shut .maintenance .clockContinuityRequiresMaintenance with
    utc := none, lastObservedMono := now, lastMono := now }

@[simp] theorem cut_state (now : ℤ) : (s.cut inp now).state = .maintenance := rfl

@[simp] theorem cut_fenced (now : ℤ) : (s.cut inp now).fenced = true := Bool.or_true _

theorem PlatformTime.Sealed.cut (hs : s.Sealed) (now : ℤ) : (s.cut inp now).Sealed := by
  refine ⟨?_, fun _ => ⟨rfl, rfl⟩, fun h => absurd rfl h⟩
  show (s.closing inp).platform = true
  rw [closing_frame]
  exact hs.platform

variable [Rounding]

/-- A second slew to the same reading does nothing: what the first one left is
    rounded. -/
theorem slew_slew_same (now : ℤ) : (s.slew now).slew now = s.slew now := by
  unfold PlatformTime.slew
  cases h : s.utc with
  | none => rfl
  | some utc => simp [slewCorrection]

theorem PlatformTime.Sealed.slew (hs : s.Sealed) (now : ℤ) : (s.slew now).Sealed := by
  rw [slew_frame]
  exact ⟨hs.platform, hs.shut, hs.round⟩

/-- `_advance` fences on a decreasing reading and slews on any other. -/
theorem wp_advance_sealed {Q : Unit → PlatformTime → Prop} {now : ℤ}
    (hroom : now < s.lastObservedMono → s.room)
    (hle : s.lastObservedMono ≤ now → Q () (s.slew now))
    (hlt : now < s.lastObservedMono → Q () (s.cut inp now)) :
    wp (PlatformTime.advance inp now) Q E s := by
  rcases lt_or_ge now s.lastObservedMono with h | h
  · rw [wp_advance_of_lt h, wp_invalidate_of_room (hroom h)]
    exact hlt h
  · rw [wp_advance_of_le h]
    exact hle h

/-- A closed clock is not valid. -/
theorem validAt_of_maintenance (h : s.state = .maintenance) (now : ℤ) : s.validAt now = false := by
  unfold PlatformTime.validAt
  rw [h]
  simp [show (TimeState.maintenance == TimeState.synced) = false from rfl,
    show (TimeState.maintenance == TimeState.holdover) = false from rfl]

theorem expires_of_maintenance (h : s.state = .maintenance) (now : ℤ) : s.expires now = false := by
  unfold PlatformTime.expires
  rw [h]
  simp [show (TimeState.maintenance == TimeState.synced) = false from rfl,
    show (TimeState.maintenance == TimeState.holdover) = false from rfl]

theorem settled_of_maintenance (h : s.state = .maintenance) (now : ℤ) : s.settled inp now = s := by
  simp [PlatformTime.settled, expires_of_maintenance h, validAt_of_maintenance h]

/-- Only an open clock changes when it settles, and it does not end in `MAINTENANCE`. -/
theorem PlatformTime.Sealed.settled (hs : s.Sealed) (now : ℤ) : (s.settled inp now).Sealed := by
  unfold PlatformTime.settled
  by_cases he : s.expires now = true
  · rw [if_pos he]
    refine sealed_shut hs.platform fun hf => ?_
    rw [expires_of_maintenance (hs.shut hf).1] at he
    cases he
  · rw [if_neg he]
    split
    · rename_i hv
      refine ⟨hs.platform, fun hf => ?_, hs.round⟩
      rw [validAt_of_maintenance (hs.shut hf).1] at hv
      cases hv
    · exact hs

/-- A snapshot that fences reports an invalid time; any other one looks at the
    slewed clock. -/
theorem wp_snapshot_sealed {Q : TimeSnapshot → PlatformTime → Prop} (hs : s.Sealed)
    (hroom : inp.mono s.reads.mono < s.lastObservedMono → s.room)
    (hE : ∀ s' : PlatformTime, s'.Sealed → s'.fenced = s.fenced → E .timeUnavailable s')
    (hlt : inp.mono s.reads.mono < s.lastObservedMono → ∀ t (s' : PlatformTime), s'.Sealed →
      s'.fenced = true → t.timeValid = false → Q t s')
    (hle : let now := inp.mono s.reads.mono
      let m := (s.slew now).readNext
      s.lastObservedMono ≤ now → (m.expires now = true → m.fresh) →
        Q (m.report inp now) (m.settled inp now).systemNext) :
    wp (PlatformTime.snapshot inp) Q E s := by
  rw [wp_snapshot]
  refine wp_advance_sealed hroom (fun h => ?_) (fun h => ?_)
  · rw [slew_readNext]
    refine ⟨fun _ _ => hE _ (hs.slew _).readNext ?_, hle h⟩
    rw [slew_frame]
    rfl
  · have hm : (s.readNext.cut inp (inp.mono s.reads.mono)).state = .maintenance := rfl
    rw [expires_of_maintenance hm, settled_of_maintenance hm]
    refine ⟨fun he => absurd he Bool.false_ne_true, fun _ => hlt h _ _ ?_ ?_ ?_⟩
    · exact (hs.readNext.cut _).systemNext
    · exact cut_fenced (inp.mono s.reads.mono)
    · exact validAt_of_maintenance hm _

/-! ## Rounds -/

/-- What a helper of a round leaves alone. -/
structure SameRound (s s' : PlatformTime) : Prop where
  platform : s'.platform = s.platform
  roundStart : s'.roundStart = s.roundStart
  pending : s'.pending = none ∨ s'.pending = s.pending

omit [Rounding] in
theorem SameRound.trans {a b c : PlatformTime} (h : SameRound a b) (h' : SameRound b c) :
    SameRound a c := by
  refine ⟨h'.platform.trans h.platform, h'.roundStart.trans h.roundStart, ?_⟩
  rcases h'.pending with hp | hp
  · exact .inl hp
  · rw [hp]
    exact h.pending

theorem sameRound_slew (s : PlatformTime) (now : ℤ) : SameRound s (s.slew now) := by
  rw [slew_frame]
  exact ⟨rfl, rfl, .inr rfl⟩

omit [Rounding] in
theorem sameRound_closing (s : PlatformTime) (state : TimeState) (reason : Reason) :
    SameRound s ((s.closing inp).shut state reason) := by
  rw [closing_frame]
  exact ⟨rfl, rfl, .inl rfl⟩

/-- Anchoring says nothing about the fence. -/
theorem wp_anchor_sealed {target error : ℚ} {now : ℤ} {single : Bool} (hf : s.fenced = false) :
    wp (PlatformTime.anchor inp target error now single)
      (fun _ s' => SameRound s s' ∧ s'.fenced = false)
      (fun _ s' => SameRound s s' ∧ s'.fenced = false) s := by
  simp only [PlatformTime.anchor, PlatformTime.drawJitter, wp_bind, wp_get, wp_modify, wp_ite,
    wp_bump, wp_pure]
  refine ⟨fun _ => ⟨fun _ => ⟨fun _ => ?_, fun _ => ?_⟩, fun _ => ?_⟩,
    fun _ => ⟨fun _ => ?_, fun _ => ?_⟩⟩
  all_goals exact ⟨⟨rfl, rfl, .inr rfl⟩, hf⟩

theorem slew_fenced (s : PlatformTime) (now : ℤ) : (s.slew now).fenced = s.fenced := by
  rw [slew_frame]

theorem PlatformTime.room.slew (h : s.room) (now : ℤ) : (s.slew now).room := by
  rw [slew_frame]
  exact h

/-- A confirmed jump fences when it leads backwards. -/
theorem wp_confirm_sealed {target error : ℚ} {now : ℤ} {single : Bool} (hf : s.fenced = false)
    (hc : s.state.closed = true) :
    wp (PlatformTime.confirm inp target error now single)
      (fun _ s' => SameRound s s' ∧ (s'.fenced = true →
        (s.suspectConfirm = true ∧ s.reverses target error = true)
          ∧ s'.state = .maintenance ∧ s'.nextSync = 0))
      (fun _ s' => SameRound s s' ∧ s'.fenced = false) s := by
  simp only [PlatformTime.confirm, wp_bind, wp_get, wp_ite, wp_bump, wp_modify,
    PlatformTime.requireMaintenance]
  refine ⟨fun hsc => ⟨fun hr => ?_, fun hr => ⟨fun hfr => ?_, fun hfr => ?_⟩⟩, fun hsc => ?_⟩
  · rw [wp_invalidate_of_room (.inr hc)]
    exact ⟨sameRound_closing .., fun _ => ⟨⟨hsc, hr⟩, rfl, rfl⟩⟩
  · refine (wp_anchor_sealed (s := { s.bumped inp with utc := none }) hf).mono ?_ ?_
    · rintro _ s' ⟨hR, hf'⟩
      exact ⟨⟨hR.platform, hR.roundStart, hR.pending⟩, fun h => absurd h (by simp [hf'])⟩
    · rintro _ s' ⟨hR, hf'⟩
      exact ⟨⟨hR.platform, hR.roundStart, hR.pending⟩, hf'⟩
  · exact ⟨⟨rfl, rfl, .inr rfl⟩, hf⟩
  · exact ⟨⟨rfl, rfl, .inr rfl⟩, fun h => absurd h (by simp [hf])⟩

/-- Adopting with a nondecreasing reading fences only on an offer to fence on. -/
theorem wp_adopt_sealed {target error : ℚ} {now : ℤ} {single : Bool} (hf : s.fenced = false)
    (hle : s.lastObservedMono ≤ now) (hroom : s.rollsBack target error = true → s.room) :
    wp (PlatformTime.adopt inp target error now single)
      (fun _ s' => SameRound s s' ∧ (s'.fenced = true → (s.room ∧
        (s.slew now).fencesOn target error = true) ∧ s'.state = .maintenance ∧ s'.nextSync = 0))
      (fun _ s' => SameRound s s' ∧ s'.fenced = false) s := by
  have hrb : (s.slew now).rollsBack target error = s.rollsBack target error := by
    rw [slew_frame]
    rfl
  have hmf : (s.slew now).fenced = false := (slew_fenced s now).trans hf
  simp only [PlatformTime.adopt, wp_bind, wp_advance_of_le hle, wp_get, wp_ite]
  refine ⟨fun hr => ?_, fun hr => ⟨fun hj => ?_, fun hj => ?_⟩⟩
  · rw [PlatformTime.requireMaintenance,
      wp_invalidate_of_room ((hroom (hrb ▸ hr)).slew now)]
    refine ⟨(sameRound_slew s now).trans (sameRound_closing ..), fun _ => ⟨⟨hroom (hrb ▸ hr), ?_⟩, rfl, rfl⟩⟩
    simp [PlatformTime.fencesOn, hr]
  · -- The clock becomes suspect, with or without a bump, and keeps its registers.
    rw [wp_invalidate]
    have hsus : ∀ m' : PlatformTime, SameRound (s.slew now) m' → m'.fenced = false →
        m'.state.closed = true → m'.suspectConfirm = (s.slew now).suspectConfirm →
        m'.reverses target error = (s.slew now).reverses target error → s.room →
        wp (PlatformTime.confirm inp target error now single)
          (fun _ s' => SameRound s s' ∧ (s'.fenced = true → (s.room ∧
            (s.slew now).fencesOn target error = true) ∧ s'.state = .maintenance ∧ s'.nextSync = 0))
          (fun _ s' => SameRound s s' ∧ s'.fenced = false) m' := by
      intro m' hR hf' hc' hsc hrev hrm
      refine (wp_confirm_sealed hf' hc').mono ?_ ?_
      · rintro _ s' ⟨hR', h⟩
        refine ⟨((sameRound_slew s now).trans hR).trans hR', fun hx => ?_⟩
        obtain ⟨⟨h1, h2⟩, h3⟩ := h hx
        rw [hsc] at h1
        rw [hrev] at h2
        exact ⟨⟨hrm, by simp [PlatformTime.fencesOn, hj, h1, h2]⟩, h3⟩
      · rintro _ s' ⟨hR', h⟩
        exact ⟨((sameRound_slew s now).trans hR).trans hR', h⟩
    have hmf' : ((s.slew now).fenced || TimeState.suspect == TimeState.maintenance) = false := by
      rw [hmf]
      rfl
    have hroom' : (s.slew now).room → s.room := fun h => by rwa [slew_frame] at h
    refine ⟨fun hc => hsus _ ?_ hmf' rfl rfl rfl (hroom' (.inr hc)),
      fun _ hfr => hsus _ ?_ hmf' rfl rfl rfl (hroom' (.inl hfr)), fun _ _ => ⟨?_, ?_⟩⟩
    · exact ⟨rfl, rfl, .inl rfl⟩
    · exact ⟨rfl, rfl, .inl rfl⟩
    · rw [noted_suspect]
      exact sameRound_slew s now
    · exact hmf'
  · refine (wp_anchor_sealed hmf).mono ?_ ?_
    · rintro _ s' ⟨hR, hf'⟩
      exact ⟨(sameRound_slew s now).trans hR, fun h => absurd h (by simp [hf'])⟩
    · rintro _ s' ⟨hR, hf'⟩
      exact ⟨(sameRound_slew s now).trans hR, hf'⟩

/-- Adopting with a decreasing reading fences, unless the clock is anchored again. -/
theorem wp_adopt_cut {target error : ℚ} {now : ℤ} {single : Bool} (hs : s.Sealed)
    (hlt : now < s.lastObservedMono) (hroom : s.room)
    (hno : s.rollsBack target error = false → ¬ (s.closing inp).fresh) :
    wp (PlatformTime.adopt inp target error now single)
      (fun _ s' => s'.Sealed ∧ s'.fenced = true) (fun _ s' => s'.Sealed ∧ s'.fenced = true) s := by
  have hcut : (s.cut inp now).Sealed := hs.cut now
  have hrb : (s.cut inp now).rollsBack target error = s.rollsBack target error := by
    unfold PlatformTime.rollsBack PlatformTime.cut
    rw [closing_frame]
    rfl
  simp only [PlatformTime.adopt, wp_bind, wp_get, wp_ite]
  refine wp_advance_sealed (fun _ => hroom) (fun hle => absurd hlt (not_lt.mpr hle)) fun _ => ?_
  refine ⟨fun hr => ?_, fun hr => ⟨fun hj => ?_, fun hj => ?_⟩⟩
  · rw [PlatformTime.requireMaintenance, wp_invalidate_of_room (.inr rfl)]
    rw [closing_of_closed rfl]
    exact ⟨sealed_shut hcut.platform fun _ => rfl, Bool.or_true _⟩
  · -- There is no anchor left to jump away from.
    exact absurd hj Bool.false_ne_true
  · have hnf : ¬ (s.cut inp now).fresh := hno (by rw [← hrb]; simpa using hr)
    simp only [PlatformTime.anchor, wp_bind, wp_get, wp_ite, wp_bump]
    refine ⟨fun _ => ⟨fun hf => absurd hf hnf, fun _ => ⟨hcut, cut_fenced now⟩⟩, fun hn => ?_⟩
    exact absurd (.inl rfl) hn

/-- A round that ends with a nondecreasing reading fences only on an offer to
    fence on. -/
theorem wp_finishRound_sealed {now : ℤ} (hs : s.Sealed) (hf : s.fenced = false)
    (hle : s.lastObservedMono ≤ now)
    (hroom : ∀ o ∈ s.offer s.candidates now, s.rollsBack o.1 o.2 = true → s.room) :
    wp (PlatformTime.finishRound inp now)
      (fun _ s' => s'.Sealed ∧ s'.roundStart = none ∧ s'.pending = none ∧
        (s'.fenced = true → s'.nextSync = 0 ∧ s.room ∧
          ∃ o ∈ s.offer s.candidates now, (s.slew now).fencesOn o.1 o.2 = true))
      (fun _ s' => s'.Sealed ∧ s'.fenced = false) s := by
  simp only [PlatformTime.finishRound, wp_bind, wp_get]
  split
  · rename_i c hc
    have ho : (c.targetAt now, c.errorAt s.driftPpm now) ∈ s.offer s.candidates now := by
      simp [PlatformTime.offer, hc]
    rw [wp_bind]
    refine (wp_adopt_sealed hf hle (hroom _ ho)).mono ?_ ?_
    · rintro _ s' ⟨hR, hfen⟩
      refine ⟨⟨hR.platform.trans hs.platform, fun h => ⟨(hfen h).2.1, rfl⟩, fun h => absurd rfl h⟩,
        rfl, rfl, fun h => ⟨(hfen h).2.2, (hfen h).1.1, _, ho, (hfen h).1.2⟩⟩
    · rintro _ s' ⟨hR, hf'⟩
      refine ⟨⟨hR.platform.trans hs.platform, fun h => ?_, fun h => ?_⟩, hf'⟩
      · rw [hf'] at h
        cases h
      · rcases hR.pending with hp | hp
        · exact absurd hp h
        · rw [hR.roundStart]
          exact hs.round (hp ▸ h)
  · simp only [PlatformTime.drawJitter, wp_bind, wp_get, wp_modify, wp_pure]
    have hno : ∀ {P : Prop}, s.fenced = true → P := fun h => by rw [hf] at h; cases h
    refine ⟨⟨hs.platform, fun h => hno h, fun h => absurd rfl h⟩, ?_⟩
    exact ⟨trivial, trivial, fun h => hno h⟩

/-- Issuing on an open clock whose round is not over. -/
theorem wp_issue_sealed {now : ℤ} (hs : s.Sealed) (hf : s.fenced = false)
    (hp : s.pending = none) (hover : s.roundOver now = false) :
    wp (PlatformTime.issue inp now) (fun _ s' => s'.Sealed ∧ s'.fenced = false)
      (fun _ s' => s'.Sealed ∧ s'.fenced = false) s := by
  have hno : ∀ {P : Prop}, s.fenced = true → P := fun h => by rw [hf] at h; cases h
  simp only [PlatformTime.issue, PlatformTime.freshId, wp_bind, wp_get, wp_ite, wp_pure, wp_modify]
  refine ⟨fun _ => ⟨hs, hf⟩, fun _ => ⟨fun hr => ⟨fun h => ?_, fun h => ?_⟩,
    fun hr => ⟨fun h => ?_, fun h => ?_⟩⟩⟩
  · exfalso
    simp at h
  · exact ⟨⟨hs.platform, fun h => hno h, fun _ h => by cases h⟩, hf⟩
  · -- The open round would have been over.
    exfalso
    obtain ⟨start, hst⟩ := Option.ne_none_iff_exists'.mp hr
    simp only [PlatformTime.roundOver, hst, hp, Option.isNone_none, Bool.and_true,
      Bool.or_eq_false_iff, decide_eq_false_iff_not] at hover
    simp only [hst, Option.getD_some] at h
    omega
  · exact ⟨⟨hs.platform, fun h => hno h, fun _ => hr⟩, hf⟩

/-- Behind the fence nothing is issued before time zero. -/
theorem wp_issue_early {Q : Option TimeRequest → PlatformTime → Prop} {now : ℤ}
    (h : now < s.nextSync) : wp (PlatformTime.issue inp now) Q E s ↔ Q none s := by
  simp [PlatformTime.issue, h]

/-- A finished asking: behind the fence nothing is issued. -/
def Asked (r : Option TimeRequest) (s' : PlatformTime) : Prop :=
  s'.Sealed ∧ (s'.fenced = true → r = none)

/-- The offers of a round at `now` that fence do so only before time zero, where
    nothing is issued. -/
def PlatformTime.Harmless (s : PlatformTime) (now : ℤ) : Prop :=
  ∀ o ∈ s.offer s.candidates now, (s.rollsBack o.1 o.2 = true → s.room) ∧
    (s.room → (s.slew now).fencesOn o.1 o.2 = true → now < 0)

/-- An offer is judged by the clock, the floor and the confirmation. -/
theorem fencesOn_slew_congr {a b : PlatformTime} {target error : ℚ} {now : ℤ}
    (hu : a.utc = b.utc) (hl : a.lastMono = b.lastMono) (hr : a.residual = b.residual)
    (hf : a.floor = b.floor) (hc : a.suspectConfirm = b.suspectConfirm) :
    (a.slew now).fencesOn target error = (b.slew now).fencesOn target error := by
  have hutc : (a.slew now).utc = (b.slew now).utc := by rw [slew_utc, slew_utc, hu, hl, hr]
  have hfl : (a.slew now).floor = (b.slew now).floor := by rw [slew_frame, slew_frame b, hf]
  have hsc : (a.slew now).suspectConfirm = (b.slew now).suspectConfirm := by
    rw [slew_frame, slew_frame b, hc]
  simp only [PlatformTime.fencesOn, PlatformTime.rollsBack, PlatformTime.jumps,
    PlatformTime.reverses, hutc, hfl, hsc]

/-- The outstanding request has no part in it. -/
theorem PlatformTime.Harmless.giveUp {now : ℤ} (h : s.Harmless now) :
    PlatformTime.Harmless { s with pending := none } now := by
  intro o ho
  refine ⟨(h o ho).1, fun hr hon => (h o ho).2 hr ?_⟩
  exact (fencesOn_slew_congr (a := s) (b := { s with pending := none })
    rfl rfl rfl rfl rfl).trans hon

/-- With nothing outstanding, to ask is to issue. -/
theorem wp_ask_of_idle {Q : Option TimeRequest → PlatformTime → Prop} {now : ℤ}
    (h : s.pending = none) :
    wp (PlatformTime.ask inp now) Q E s ↔ wp (PlatformTime.issue inp now) Q E s := by
  simp [PlatformTime.ask, h]

/-- End the round, then issue. -/
theorem wp_finishRound_then {now : ℤ} {next : TimeProg (Option TimeRequest)}
    (hnext : ∀ Q E (s' : PlatformTime), s'.pending = none →
      (wp next Q E s' ↔ wp (PlatformTime.issue inp now) Q E s'))
    (hs : s.Sealed) (hf : s.fenced = false) (hle : s.lastObservedMono ≤ now)
    (hh : s.Harmless now) :
    wp (PlatformTime.finishRound inp now)
      (fun _ => wp next Asked (fun _ s' => s'.Sealed ∧ s'.fenced = false))
      (fun _ s' => s'.Sealed ∧ s'.fenced = false) s := by
  refine (wp_finishRound_sealed hs hf hle fun o ho => (hh o ho).1).mono ?_ (fun _ _ h => h)
  rintro _ s' ⟨h, hr, hp, hfen⟩
  rw [hnext _ _ s' hp]
  cases hf' : s'.fenced with
  | true =>
      obtain ⟨hn, hrm, o, ho, hon⟩ := hfen hf'
      rw [wp_issue_early (hn ▸ (hh o ho).2 hrm hon)]
      exact ⟨h, fun _ => rfl⟩
  | false =>
      refine (wp_issue_sealed h hf' hp ?_).mono ?_ (fun _ _ h => h)
      · simp [PlatformTime.roundOver, hr]
      · rintro r s'' ⟨h1, h2⟩
        exact ⟨h1, fun h => absurd (h2 ▸ h) Bool.false_ne_true⟩

/-- `ask`, in a round that is either not over or has nothing harmful to offer. -/
theorem wp_ask_sealed {now : ℤ} (hs : s.Sealed) (hf : s.fenced = false)
    (hle : s.lastObservedMono ≤ now) (hover : s.roundOver now = false)
    (hh : ∀ p, s.pending = some p → p.clientMonoMs + 2000 ≤ now → 10 ≤ s.attempts →
      s.Harmless now) :
    wp (PlatformTime.ask inp now) Asked (fun _ s' => s'.Sealed ∧ s'.fenced = false) s := by
  have hopen : ∀ s'' : PlatformTime, s''.Sealed → s''.fenced = false → s''.pending = none →
      s''.roundOver now = false → wp (PlatformTime.issue inp now) Asked
        (fun _ s' => s'.Sealed ∧ s'.fenced = false) s'' := by
    intro s'' h1 h2 h3 h4
    refine (wp_issue_sealed h1 h2 h3 h4).mono ?_ (fun _ _ h => h)
    rintro r s' ⟨h1, h2⟩
    exact ⟨h1, fun h => absurd (h2 ▸ h) Bool.false_ne_true⟩
  simp only [PlatformTime.ask, wp_bind, wp_get]
  cases hp : s.pending with
  | none => exact hopen s hs hf hp hover
  | some p =>
      simp only [wp_ite, wp_pure, PlatformTime.retry, wp_bind, wp_modify, wp_get]
      refine ⟨fun _ => ⟨hs, fun h => absurd (hf ▸ h) Bool.false_ne_true⟩, fun hw => ?_⟩
      have hs' : PlatformTime.Sealed { s with pending := none } :=
        ⟨hs.platform, fun h => ⟨(hs.shut h).1, rfl⟩, fun h => absurd rfl h⟩
      refine ⟨fun ha => ?_, fun ha => hopen _ hs' hf rfl ?_⟩
      · exact wp_finishRound_then (fun _ _ _ _ => Iff.rfl) hs' hf hle
          (hh p hp (not_lt.mp hw) ha).giveUp
      · unfold PlatformTime.roundOver at hover ⊢
        cases hr : s.roundStart with
        | none => rfl
        | some start =>
            rw [hr] at hover
            simp_all

/-! ## What a snapshot leaves -/

theorem settled_frame (inp : Inputs) (s : PlatformTime) (now : ℤ) :
    s.settled inp now = { s with
      state := (s.settled inp now).state, reason := (s.settled inp now).reason,
      sessionSynced := (s.settled inp now).sessionSynced,
      heartbeatSubmitted := (s.settled inp now).heartbeatSubmitted,
      getSubmitted := (s.settled inp now).getSubmitted,
      pending := (s.settled inp now).pending, nextSync := (s.settled inp now).nextSync,
      revision := (s.settled inp now).revision, generation := (s.settled inp now).generation,
      generationStarted := (s.settled inp now).generationStarted,
      reads := (s.settled inp now).reads, fenced := (s.settled inp now).fenced } := by
  unfold PlatformTime.settled
  split
  · rfl
  · split <;> rfl

/-- Expiry gives the outstanding request up. -/
theorem settled_pending (now : ℤ) :
    (s.settled inp now).pending = if s.expires now then none else s.pending := by
  unfold PlatformTime.settled
  split
  · rfl
  · split <;> rfl

theorem settled_fenced (now : ℤ) : (s.settled inp now).fenced = s.fenced := by
  unfold PlatformTime.settled
  split
  · exact Bool.or_false s.fenced
  · split <;> rfl

/-- A valid clock is open. -/
theorem open_of_validAt {now : ℤ} (h : s.validAt now = true) : s.state.closed = false := by
  unfold PlatformTime.validAt at h
  cases hs : s.state <;> simp [hs, TimeState.closed] at h ⊢

theorem settled_room {now : ℤ} (hfresh : s.expires now = true → s.fresh) :
    (s.settled inp now).room ↔ s.room := by
  unfold PlatformTime.settled
  by_cases he : s.expires now = true
  · rw [if_pos he]
    exact ⟨fun _ => .inl (hfresh he), fun _ => .inr rfl⟩
  · rw [if_neg he]
    split
    · rename_i hv
      have hc := open_of_validAt hv
      refine or_congr Iff.rfl ?_
      rw [hc]
      cases s.sessionSynced <;> exact Iff.rfl
    · rfl

/-- An offer to a clock that has just been settled is judged as before. -/
theorem fencesOn_settled (target error : ℚ) (now : ℤ) :
    ((((s.slew now).readNext.settled inp now).systemNext).slew now).fencesOn target error
      = (s.slew now).fencesOn target error := by
  conv_rhs => rw [← slew_slew_same]
  have hfr := settled_frame inp (s.slew now).readNext now
  apply fencesOn_slew_congr
  all_goals
    unfold PlatformTime.systemNext
    rw [hfr]
    rfl

/-- What a snapshot with a nondecreasing reading leaves of the state. -/
structure LooksAt (s σ : PlatformTime) (now : ℤ) : Prop where
  last : σ.lastObservedMono = now
  fenced : σ.fenced = s.fenced
  session : σ.session = s.session
  roundStart : σ.roundStart = s.roundStart
  attempts : σ.attempts = s.attempts
  pending : σ.pending = if (s.slew now).expires now then none else s.pending
  offer : σ.offer σ.candidates now = s.offer s.candidates now
  rollsBack : ∀ target error, σ.rollsBack target error = s.rollsBack target error
  fencesOn : ∀ target error,
    (σ.slew now).fencesOn target error = (s.slew now).fencesOn target error
  room : σ.room ↔ s.room

theorem looksAt_settled {now : ℤ}
    (hfresh : (s.slew now).readNext.expires now = true → (s.slew now).readNext.fresh) :
    LooksAt s ((s.slew now).readNext.settled inp now).systemNext now := by
  have hfr := settled_frame inp (s.slew now).readNext now
  have hroom : (s.slew now).room ↔ s.room := by rw [slew_frame]; rfl
  constructor
  case fenced => exact (settled_fenced now).trans (slew_fenced s now)
  case pending =>
      refine (settled_pending now).trans ?_
      rw [slew_frame]
      rfl
  case fencesOn => exact fun target error => fencesOn_settled target error now
  case room => exact (settled_room hfresh).trans hroom
  case offer =>
      unfold PlatformTime.systemNext PlatformTime.offer
      rw [hfr, slew_frame]
      rfl
  all_goals
    unfold PlatformTime.systemNext
    rw [hfr, slew_frame]
    first | done | rfl | exact fun _ _ => rfl

/-- The offer that ends a round over by the clock or the count of attempts. -/
theorem LooksAt.closesRound_of_over {σ : PlatformTime} {now : ℤ} (h : LooksAt s σ now)
    (hover : σ.roundOver now = true) : s.closesRound now = true := by
  unfold PlatformTime.roundOver at hover
  rw [h.roundStart, h.attempts, h.pending] at hover
  unfold PlatformTime.closesRound PlatformTime.awaits
  cases hr : s.roundStart with
  | none => simp [hr] at hover
  | some start =>
      simp only [hr, Bool.or_eq_true, Bool.and_eq_true, decide_eq_true_eq] at hover
      simp only [Option.any_some, Bool.or_eq_true, Bool.and_eq_true, decide_eq_true_eq]
      refine hover.imp_right fun ⟨ha, hp⟩ => ⟨ha, ?_⟩
      by_cases he : (s.slew now).expires now = true
      · simp [he]
      · rw [if_neg he, Option.isNone_iff_eq_none] at hp
        simp [hp]

/-- The offer that ends a round whose last request is stale. -/
theorem LooksAt.closesRound_of_stale {σ : PlatformTime} {now : ℤ} (h : LooksAt s σ now)
    (hround : σ.pending ≠ none → σ.roundStart ≠ none) {p : TimeRequest} (hp : σ.pending = some p)
    (hw : p.clientMonoMs + 2000 ≤ now) (ha : 10 ≤ σ.attempts) : s.closesRound now = true := by
  obtain ⟨start, hr⟩ := Option.ne_none_iff_exists'.mp
    (hround (by rw [hp]; exact Option.some_ne_none p))
  rw [h.roundStart] at hr
  rw [h.attempts] at ha
  rw [h.pending] at hp
  unfold PlatformTime.closesRound PlatformTime.awaits
  by_cases he : (s.slew now).expires now = true
  · rw [if_pos he] at hp
    cases hp
  · rw [if_neg he] at hp
    simp [hr, ha, hp, not_lt.mpr hw]

/-- A round that ends with a decreasing reading fences, unless it has nothing to
    adopt or the clock is anchored again. -/
theorem wp_finishRound_cut {now : ℤ} (hs : s.Sealed) (hf : s.fenced = false)
    (hlt : now < s.lastObservedMono)
    (ho : ∀ o ∈ s.offer s.candidates now, s.room ∧
      (s.rollsBack o.1 o.2 = false → ¬ (s.closing inp).fresh)) :
    wp (PlatformTime.finishRound inp now) (fun _ s' => s'.Sealed) (fun _ s' => s'.Sealed) s := by
  simp only [PlatformTime.finishRound, wp_bind, wp_get]
  split
  · rename_i c hc
    obtain ⟨hroom, hno⟩ := ho (c.targetAt now, c.errorAt s.driftPpm now)
      (by simp [PlatformTime.offer, hc])
    rw [wp_bind]
    refine (wp_adopt_cut hs hlt hroom hno).mono ?_ fun _ _ h => h.1
    rintro _ s' ⟨h, -⟩
    exact ⟨h.platform, fun hf => ⟨(h.shut hf).1, rfl⟩, fun hp => absurd rfl hp⟩
  · simp only [PlatformTime.drawJitter, wp_bind, wp_get, wp_modify, wp_pure]
    exact ⟨hs.platform, fun h => absurd (hf ▸ h) Bool.false_ne_true, fun hp => absurd rfl hp⟩

end Helpers

/-! ## Calls -/

section Calls

variable [JsonSchema] [Rounding] {inp : Inputs} {s : PlatformTime}

/-- What a call that respects the fence ends in. -/
def Fencing (s : PlatformTime) (call : TimeCall) : TimeOutcome → PlatformTime → Prop :=
  fun out s' => s'.Sealed ∧ (s.fenced = true → s'.fenced = true) ∧
    (s'.fenced = true → call.shutOn out) ∧ (s.fenced = true → call.guarded = false)

/-- The same for a call that raises. -/
def FencingRaise (s : PlatformTime) : TimeError → PlatformTime → Prop :=
  fun _ s' => s'.Sealed ∧ (s.fenced = true → s'.fenced = true)

theorem keepsFence_iff {call : TimeCall} :
    s.keepsFence inp call = true ↔
      (s.room → s.reopens inp call = false) ∧ (¬ s.room → s.detects inp call = false) := by
  unfold PlatformTime.keepsFence PlatformTime.room
  by_cases h : s.fresh ∨ s.state.closed = true
  · simp [h]
  · rw [if_neg (by simpa using h)]
    simp [h]

theorem request_fencing (hs : s.Sealed) (hk : s.keepsFence inp .request = true) :
    wp (PlatformTime.request inp)
      (fun r s' => s'.Sealed ∧ (s.fenced = true → s'.fenced = true) ∧ (s'.fenced = true → r = none))
      (FencingRaise s) s := by
  obtain ⟨hopen, hfull⟩ := keepsFence_iff.mp hk
  simp only [PlatformTime.request, wp_bind, wp_get]
  refine wp_snapshot_sealed hs ?_ (fun s' h h' => ⟨h, fun hf => h'.trans hf⟩) ?_ ?_
  · intro hlt
    by_contra hr
    have := hfull hr
    simp [PlatformTime.detects, hlt] at this
  -- A decreasing reading has fenced, and a fenced clock asks for nothing.
  · intro _ t s' h hf _
    rw [wp_ite]
    refine ⟨fun _ => ⟨h, fun _ => hf, fun _ => rfl⟩, fun hn => ?_⟩
    simp [h.platform, (h.shut hf).1] at hn
  · intro now m hle hfresh
    have hmono : (PlatformTime.report inp now m).monoMs = now := rfl
    have hsm : m.Sealed := (hs.slew now).readNext
    have hss : (m.settled inp now).systemNext.Sealed := (hsm.settled now).systemNext
    have hroom : (m.settled inp now).room ↔ m.room := settled_room hfresh
    have hfr := settled_frame inp m now
    rw [hmono, wp_ite]
    refine ⟨fun _ => ⟨hss, fun hf => ?_, fun _ => rfl⟩, fun hask => ?_⟩
    · exact (settled_fenced now).trans ((slew_fenced s now).trans hf)
    simp only [Bool.or_eq_true, Bool.not_eq_true', not_or] at hask
    obtain ⟨⟨-, hsess⟩, hst⟩ := hask
    have hstate : s.state ≠ .maintenance := by
      intro h
      have hm' : m.state = .maintenance := by
        show (s.slew now).state = _
        rw [slew_frame]
        exact h
      apply hst
      rw [settled_of_maintenance hm']
      exact beq_iff_eq.mpr hm'
    have hopened : s.fenced = false := by
      rw [← Bool.not_eq_true]
      exact fun h => hstate (hs.shut h).1
    have hL : LooksAt s (m.settled inp now).systemNext now := looksAt_settled hfresh
    generalize (m.settled inp now).systemNext = σ at *
    -- What the round offers does no harm, by the condition on the state before the call.
    have hharm : s.closesRound now = true → σ.Harmless now := by
      intro hcl o ho
      rw [hL.offer] at ho
      have hoff : s.requestOffer now = some o := by
        unfold PlatformTime.requestOffer
        rw [if_pos]
        · exact ho
        · rw [hL.session, Option.isNone_iff_eq_none] at hsess
          simp [Option.isSome_iff_ne_none.mpr hsess, hstate, hle, hcl]
      rw [hL.room, hL.rollsBack, hL.fencesOn]
      refine ⟨fun hrb => ?_, fun hr hon => ?_⟩
      · by_contra hr
        have := hfull hr
        simp only [PlatformTime.detects, Bool.or_eq_false_iff] at this
        rw [hoff] at this
        simp [hrb] at this
      · have := hopen hr
        simp only [PlatformTime.reopens, Bool.and_eq_false_iff, decide_eq_false_iff_not] at this
        rw [hoff] at this
        simp only [Option.any_some] at this
        exact not_le.mp (this.resolve_right fun h => by rw [hon] at h; cases h)
    have hσf : σ.fenced = false := hL.fenced.trans hopened
    have hσl : σ.lastObservedMono ≤ now := hL.last.le
    have hweak : ∀ r (s' : PlatformTime), Asked r s' →
        s'.Sealed ∧ (s.fenced = true → s'.fenced = true) ∧ (s'.fenced = true → r = none) := by
      intro r s' h
      exact ⟨h.1, fun hf => absurd (hopened ▸ hf) Bool.false_ne_true, h.2⟩
    have hweakE : ∀ e (s' : PlatformTime), (s'.Sealed ∧ s'.fenced = false) → FencingRaise s e s' := by
      intro e s' h
      exact ⟨h.1, fun hf => absurd (hopened ▸ hf) Bool.false_ne_true⟩
    rw [wp_ite]
    refine ⟨fun hover => ?_, fun hover => ?_⟩
    · rw [wp_bind]
      refine (wp_finishRound_then (fun _ _ _ h => wp_ask_of_idle h) hss hσf hσl
        (hharm (hL.closesRound_of_over hover))).mono (fun _ s' h => h.mono hweak hweakE) hweakE
    · refine (wp_ask_sealed hss hσf hσl (by simpa using hover) ?_).mono hweak hweakE
      exact fun p hp hw ha => hharm (hL.closesRound_of_stale hss.round hp hw ha)

/-- Only an outstanding request can be answered. -/
theorem pending_of_take {now : ℤ} {payload : Bytes} {received : ℤ} {session : Option PyStr}
    {retained : Bool} {c : Candidate}
    (h : s.judge now payload received session retained = .ok (.take c)) : s.pending ≠ none := by
  intro hp
  simp [PlatformTime.judge, hp] at h

theorem response_fencing {payload : Bytes} {received : ℤ} {session : Option PyStr}
    {retained : Bool} (hs : s.Sealed)
    (hk : s.keepsFence inp (.response payload received session retained) = true) :
    wp (PlatformTime.response inp payload received session retained)
      (fun _ s' => s'.Sealed ∧ (s.fenced = true → s'.fenced = true)) (FencingRaise s) s := by
  obtain ⟨hopen, hfull⟩ := keepsFence_iff.mp hk
  simp only [PlatformTime.response, wp_bind, wp_readMono, wp_get]
  generalize hnow : inp.mono s.reads.mono = now
  have hj : s.readNext.judge now payload received session retained
      = s.judge now payload received session retained := rfl
  rw [hj]
  rcases hv : s.judge now payload received session retained with e | ⟨reason⟩ | ⟨reason⟩ | ⟨c⟩
  · exact ⟨hs.readNext, id⟩
  · exact ⟨⟨hs.platform, hs.shut, hs.round⟩, id⟩
  · exact ⟨⟨hs.platform, fun h => ⟨(hs.shut h).1, rfl⟩, fun h => absurd rfl h⟩, id⟩
  · have hf : s.fenced = false := by
      rw [← Bool.not_eq_true]
      exact fun h => pending_of_take hv (hs.shut h).2
    simp only [PlatformTime.accept, wp_bind, wp_modify, wp_get, wp_ite, wp_pure]
    have hs2 : PlatformTime.Sealed
        { s.readNext with candidates := s.readNext.candidates ++ [c], pending := none } :=
      ⟨hs.platform, fun h => absurd (hf ▸ h) Bool.false_ne_true, fun h => absurd rfl h⟩
    have hoff : 3 ≤ (s.candidates ++ [c]).length → ∀ o ∈ s.offer (s.candidates ++ [c]) now,
        s.responseOffer now payload received session retained = some o := by
      intro hlen o ho
      simp only [PlatformTime.responseOffer, hv]
      rw [if_pos hlen]
      exact ho
    have hweak : ∀ s' : PlatformTime, s'.Sealed →
        s'.Sealed ∧ (s.fenced = true → s'.fenced = true) :=
      fun s' h => ⟨h, fun hx => absurd (hf ▸ hx) Bool.false_ne_true⟩
    refine ⟨fun hlen => ?_, fun _ => hweak _ hs2⟩
    -- A reading behind the last one observed fences before the offer is looked at.
    rcases lt_or_ge now s.lastObservedMono with hlt | hge
    · refine (wp_finishRound_cut hs2 hf hlt fun o ho => ?_).mono (fun _ s' => hweak s')
        (fun _ s' => hweak s')
      have hr : s.room := by
        by_contra hr
        have := hfull hr
        simp only [PlatformTime.detects, hnow] at this
        rw [hoff hlen o ho] at this
        simp [hlt] at this
      refine ⟨hr, fun hrb hfr => ?_⟩
      have := hopen hr
      simp only [PlatformTime.reopens, hnow] at this
      rw [hoff hlen o ho] at this
      have hrb' : s.rollsBack o.1 o.2 = false := hrb
      have hfr' : (s.closing inp).fresh :=
        Iff.mp (by exact closing_fresh_congr rfl rfl rfl rfl) hfr
      simp [hlt, hrb', hfr'] at this
    · refine (wp_finishRound_sealed hs2 hf hge fun o ho hrb => ?_).mono
        (fun _ s' h => hweak s' h.1) (fun _ s' h => hweak s' h.1)
      by_contra hr
      have := hfull hr
      simp only [PlatformTime.detects, hnow] at this
      rw [hoff hlen o ho] at this
      have hrb' : s.rollsBack o.1 o.2 = true := hrb
      simp [hrb'] at this

omit [JsonSchema] in
/-- A snapshot respects the fence. -/
theorem snapshot_fencing (hs : s.Sealed)
    (hroom : inp.mono s.reads.mono < s.lastObservedMono → s.room) :
    wp (PlatformTime.snapshot inp)
      (fun t s' => s'.Sealed ∧ (s.fenced = true → s'.fenced = true) ∧
        (s'.fenced = true → t.timeValid = false))
      (FencingRaise s) s := by
  refine wp_snapshot_sealed hs hroom (fun s' h h' => ⟨h, fun hf => h'.trans hf⟩) ?_ ?_
  · exact fun _ t s' h hf ht => ⟨h, fun _ => hf, fun _ => ht⟩
  · intro now m hle hfresh
    have hm : m.Sealed := (hs.slew now).readNext
    have hL : LooksAt s (m.settled inp now).systemNext now := looksAt_settled hfresh
    refine ⟨(hm.settled now).systemNext, fun hf => hL.fenced.trans hf, fun hf => ?_⟩
    have hmf : m.fenced = true := (settled_fenced now).symm.trans hf
    exact validAt_of_maintenance (hm.shut hmf).1 now

omit [JsonSchema] [Rounding] in
/-- No gate that asks for a known time opens on an invalid snapshot. -/
theorem permits_of_invalid {t : TimeSnapshot} {purpose : Purpose} (hp : s.platform = true)
    (ht : t.timeValid = false) (hg : purpose.guarded = true) : s.permits t purpose = false := by
  cases purpose <;>
    simp [PlatformTime.permits, PlatformTime.permits.timeKnown, hp, ht, Purpose.guarded] at hg ⊢

omit [JsonSchema] in
theorem valid_fencing {token : Option TimeToken} {purpose : Purpose} (hs : s.Sealed)
    (hroom : inp.mono s.reads.mono < s.lastObservedMono → s.room) :
    wp (PlatformTime.valid inp token purpose)
      (fun b s' => s'.Sealed ∧ (s.fenced = true → s'.fenced = true) ∧
        (s'.fenced = true → purpose.guarded = true → b = false))
      (FencingRaise s) s := by
  simp only [PlatformTime.valid, wp_bind, wp_get, wp_pure]
  refine (snapshot_fencing hs hroom).mono ?_ (fun _ _ h => h)
  rintro t s' ⟨h, hf, ht⟩
  refine ⟨h, hf, fun hx hg => ?_⟩
  rw [permits_of_invalid h.platform (ht hx) hg, Bool.and_false]

theorem loadHistoryBoundary_fencing {basis : Option PyStr} {utcLower : Option ℤ} (hs : s.Sealed)
    (hk : s.keepsFence inp (.loadHistoryBoundary basis utcLower) = true) :
    wp (PlatformTime.loadHistoryBoundary inp basis utcLower)
      (fun _ s' => s'.Sealed ∧ (s.fenced = true → s'.fenced = true)) (FencingRaise s) s := by
  obtain ⟨-, hfull⟩ := keepsFence_iff.mp hk
  have hroom : ∀ lower, utcLower = some lower →
      basis ≠ s.basis ∨ s.behindFloor (max (s.floor.getD 0) lower) = true → s.room := by
    intro lower hl h
    by_contra hr
    have := hfull hr
    subst hl
    rcases h with h | h <;> simp [PlatformTime.detects, h] at this
  unfold PlatformTime.loadHistoryBoundary
  cases utcLower with
  | none => exact ⟨hs, id⟩
  | some lower =>
      simp only [wp_bind, wp_get, wp_ite, wp_modify, wp_pure]
      refine ⟨fun hb => ?_, fun _ => ⟨fun hb => ?_, fun _ => ?_⟩⟩
      · exact (requireMaintenance_sealed hs.platform (hroom lower rfl (.inl hb))).mono
          (fun _ _ h => ⟨h.1, fun _ => h.2⟩) fun _ _ h => h.elim
      · have hr : s.room := hroom lower rfl (.inr hb)
        refine (requireMaintenance_sealed ?_ ?_).mono (fun _ _ h => ⟨h.1, fun _ => h.2⟩)
          fun _ _ h => h.elim
        · exact hs.platform
        · exact hr
      · exact ⟨⟨hs.platform, hs.shut, hs.round⟩, id⟩

omit [JsonSchema] in
/-- After a first snapshot there is room for what the second one detects. -/
theorem room_after_snapshot (hs : s.Sealed)
    (hfull : ¬ s.room → ¬ (inp.mono s.reads.mono < s.lastObservedMono ∨
      inp.mono (s.reads.mono + 1) < inp.mono s.reads.mono)) :
    wp (PlatformTime.snapshot inp)
      (fun _ s' => inp.mono s'.reads.mono < s'.lastObservedMono → s'.room)
      (fun _ _ => True) s := by
  refine wp_snapshot_sealed hs ?_ (fun _ _ _ => trivial) ?_ ?_
  · intro hlt
    by_contra hr
    exact hfull hr (.inl hlt)
  · exact fun _ _ s' h hf _ _ => .inr (closed_of_maintenance (h.shut hf).1)
  · intro now m hle hfresh hlt
    have hL : LooksAt s (m.settled inp now).systemNext now := looksAt_settled hfresh
    rw [hL.room]
    by_contra hr
    apply hfull hr
    right
    -- Without room nothing has expired, so the second reading is the next one.
    have he : m.expires now = false := by
      rw [← Bool.not_eq_true]
      intro he
      have hmr : m.room := .inl (hfresh he)
      have hsr : (s.slew now).room := hmr
      rw [slew_frame] at hsr
      exact hr hsr
    have hreads : (m.settled inp now).systemNext.reads.mono = s.reads.mono + 1 := by
      have hm : m.reads.mono = s.reads.mono + 1 := by
        show (s.slew now).reads.mono + 1 = _
        rw [slew_frame]
      unfold PlatformTime.settled
      rw [he]
      split
      · contradiction
      · split <;> exact hm
    rwa [hreads, hL.last] at hlt

omit [JsonSchema] in
theorem require_fencing {token : Option TimeToken} {purpose : Purpose} (hs : s.Sealed)
    (hfull : ¬ s.room → ¬ (inp.mono s.reads.mono < s.lastObservedMono ∨
      inp.mono (s.reads.mono + 1) < inp.mono s.reads.mono)) :
    wp (PlatformTime.require inp token purpose)
      (fun t s' => s'.Sealed ∧ (s.fenced = true → s'.fenced = true) ∧
        (s'.fenced = true → t.timeValid = false) ∧
        (s.fenced = true → purpose.guarded = false))
      (FencingRaise s) s := by
  have hroom : inp.mono s.reads.mono < s.lastObservedMono → s.room := by
    intro hlt
    by_contra hr
    exact hfull hr (.inl hlt)
  simp only [PlatformTime.require, wp_bind, wp_get, wp_check]
  refine ⟨fun _ => ?_, fun _ => ⟨hs, id⟩⟩
  have hnext : wp (PlatformTime.valid inp token purpose)
      (fun _ s' => inp.mono s'.reads.mono < s'.lastObservedMono → s'.room)
      (fun _ _ => True) s := by
    simp only [PlatformTime.valid, wp_bind, wp_get, wp_pure]
    exact room_after_snapshot hs hfull
  refine ((valid_fencing hs hroom).and hnext).mono ?_ (fun _ _ h => h.1)
  rintro b s1 ⟨⟨h1, hf1, hb1⟩, hr1⟩
  refine ⟨fun hb => ?_, fun _ => ⟨h1, hf1⟩⟩
  refine (snapshot_fencing h1 hr1).mono ?_ (fun _ _ h => ⟨h.1, fun hf => h.2 (hf1 hf)⟩)
  rintro t s2 ⟨h2, hf2, ht2⟩
  refine ⟨h2, fun hf => hf2 (hf1 hf), ht2, fun hf => ?_⟩
  by_contra hg
  have := hb1 (hf1 hf) (by simpa using hg)
  rw [this] at hb
  cases hb

omit [JsonSchema] in
theorem controlSubmitted_fencing {kind : ControlKind} {token : Option TimeToken} (hs : s.Sealed)
    (hfull : ¬ s.room → ¬ (inp.mono s.reads.mono < s.lastObservedMono ∨
      inp.mono (s.reads.mono + 1) < inp.mono s.reads.mono)) :
    wp (PlatformTime.controlSubmitted inp kind token)
      (fun _ s' => s'.Sealed ∧ s.fenced = false) (FencingRaise s) s := by
  simp only [PlatformTime.controlSubmitted, wp_bind, wp_modify]
  refine (@require_fencing _ inp s token .controlSend hs hfull).mono ?_
    (fun _ _ h => h)
  rintro t s' ⟨h, -, -, hg⟩
  refine ⟨?_, ?_⟩
  · cases kind <;> exact ⟨h.platform, h.shut, h.round⟩
  · rw [← Bool.not_eq_true]
    exact fun hf => Bool.noConfusion (hg hf)

omit [JsonSchema] [Rounding] in
theorem connect_fencing {session : PyStr} (hs : s.Sealed) :
    wp (PlatformTime.connect session)
      (fun _ s' => s'.Sealed ∧ (s.fenced = true → s'.fenced = true)) (FencingRaise s) s := by
  simp only [PlatformTime.connect, wp_bind, wp_check, wp_get, wp_modify]
  refine ⟨fun _ => ⟨fun _ => ⟨⟨hs.platform, fun h => ⟨(hs.shut h).1, rfl⟩, fun h => absurd rfl h⟩,
    id⟩, fun _ => ⟨hs, id⟩⟩, fun _ => ⟨hs, id⟩⟩

omit [JsonSchema] [Rounding] in
theorem disconnect_fencing (hs : s.Sealed) :
    wp PlatformTime.disconnect
      (fun _ s' => s'.Sealed ∧ (s.fenced = true → s'.fenced = true)) (FencingRaise s) s := by
  simp only [PlatformTime.disconnect, wp_bind, wp_modify]
  refine (connect_fencing hs).mono ?_ (fun _ _ h => h)
  rintro _ s' ⟨h, hf⟩
  exact ⟨⟨h.platform, h.shut, h.round⟩, hf⟩

/-- Every call that keeps the fence respects it. -/
theorem exec_fencing {call : TimeCall} (hs : s.Sealed) (hk : s.keepsFence inp call = true) :
    wp (call.exec inp) (Fencing s call) (FencingRaise s) s := by
  have hfull := (keepsFence_iff.mp hk).2
  -- Only the gates say what they return under a fence.
  have hsame : ∀ {out : TimeOutcome} {s' : PlatformTime}, call.guarded = false →
      (s'.fenced = true → call.shutOn out) → s'.Sealed ∧ (s.fenced = true → s'.fenced = true) →
      Fencing s call out s' := fun hg hshut h => ⟨h.1, h.2, hshut, fun _ => hg⟩
  cases call with
  | connect session =>
      simp only [TimeCall.exec, wp_bind, wp_pure]
      exact (connect_fencing hs).mono (fun _ _ => hsame rfl fun _ => trivial) fun _ _ h => h
  | disconnect =>
      simp only [TimeCall.exec, wp_bind, wp_pure]
      exact (disconnect_fencing hs).mono (fun _ _ => hsame rfl fun _ => trivial) fun _ _ h => h
  | request =>
      simp only [TimeCall.exec, wp_bind, wp_pure]
      exact (request_fencing hs hk).mono (fun _ _ h => hsame rfl h.2.2 ⟨h.1, h.2.1⟩)
        fun _ _ h => h
  | response payload received session retained =>
      simp only [TimeCall.exec, wp_bind, wp_pure]
      exact (response_fencing hs hk).mono (fun _ _ => hsame rfl fun _ => trivial) fun _ _ h => h
  | snapshot =>
      simp only [TimeCall.exec, wp_bind, wp_pure]
      refine (snapshot_fencing hs fun hlt => ?_).mono (fun _ _ h => hsame rfl h.2.2 ⟨h.1, h.2.1⟩)
        fun _ _ h => h
      by_contra hr
      simpa [PlatformTime.detects, not_le.mpr hlt] using hfull hr
  | token =>
      simp only [TimeCall.exec, PlatformTime.token, wp_bind, wp_pure]
      refine (snapshot_fencing hs fun hlt => ?_).mono
        (fun _ _ h => hsame rfl (fun _ => trivial) ⟨h.1, h.2.1⟩) fun _ _ h => h
      by_contra hr
      simpa [PlatformTime.detects, not_le.mpr hlt] using hfull hr
  | valid token purpose =>
      simp only [TimeCall.exec, wp_bind, wp_pure]
      refine (valid_fencing hs fun hlt => ?_).mono (fun _ _ h => hsame rfl h.2.2 ⟨h.1, h.2.1⟩)
        fun _ _ h => h
      by_contra hr
      simpa [PlatformTime.detects, not_le.mpr hlt] using hfull hr
  | require token purpose =>
      simp only [TimeCall.exec, wp_bind, wp_pure]
      refine (require_fencing hs fun hr => ?_).mono (fun _ _ h => h) fun _ _ h => h
      simpa [PlatformTime.detects] using hfull hr
  | controlSubmitted kind token =>
      simp only [TimeCall.exec, wp_bind, wp_pure]
      refine (controlSubmitted_fencing hs fun hr => ?_).mono (fun _ s' h => ?_) fun _ _ h => h
      · simpa [PlatformTime.detects] using hfull hr
      · have hno : ∀ {P : Prop}, s.fenced = true → P := fun hf => by rw [h.2] at hf; cases hf
        exact ⟨h.1, fun hf => hno hf, fun _ => trivial, fun hf => hno hf⟩
  | loadHistoryBoundary basis utcLower =>
      simp only [TimeCall.exec, wp_bind, wp_pure]
      exact (loadHistoryBoundary_fencing hs hk).mono (fun _ _ => hsame rfl fun _ => trivial)
        fun _ _ h => h

/-- One step of a run. -/
theorem fenceHolds_perform {call : TimeCall} (hs : s.Sealed) (hk : s.keepsFence inp call = true) :
    FenceHolds (perform (TimeCall.exec inp) s call) ∧
      (perform (TimeCall.exec inp) s call).after.Sealed := by
  obtain ⟨hok, herr⟩ := perform_spec (exec_fencing hs hk)
  cases hr : (perform (TimeCall.exec inp) s call).result with
  | ok out =>
      obtain ⟨h, hstay, hshut, hg⟩ := hok out hr
      refine ⟨⟨hstay, fun hf => (h.shut hf).1, fun hf out' h' => ?_, fun hf hg' => ?_⟩, h⟩
      · cases hr.symm.trans h'
        exact hshut hf
      · exact absurd (hg hf) (by rw [show call.guarded = true from hg']; exact Bool.noConfusion)
  | error e =>
      obtain ⟨h, hstay⟩ := herr e hr
      have hno : ∀ out, (perform (TimeCall.exec inp) s call).result ≠ .ok out :=
        fun out h' => by cases hr.symm.trans h'
      exact ⟨⟨hstay, fun hf => (h.shut hf).1, fun _ out h' => absurd h' (hno out),
        fun _ _ out => hno out⟩, h⟩

omit [JsonSchema] [Rounding] in
theorem sealed_create {c : TimeConfig} (hmode : c.mode = .hubMqtt)
    (hc : PlatformTime.create inp c = .ok s) : s.Sealed := by
  unfold PlatformTime.create at hc
  split at hc
  · cases hc
    refine ⟨?_, fun h => Bool.noConfusion h, fun h => absurd rfl h⟩
    simp [PlatformTime.platform, PlatformTime.started, hmode]
  · cases hc

/-- The maintenance fence, in every run whose calls keep it. -/
theorem maintenance_fence {c : TimeConfig} (hmode : c.mode = .hubMqtt)
    (hc : PlatformTime.create inp c = .ok s) {calls : List TimeCall}
    (hk : ∀ st ∈ timeTrace inp s calls, st.before.keepsFence inp st.call = true) :
    ∀ st ∈ timeTrace inp s calls, FenceHolds st :=
  trace_forall (I := PlatformTime.Sealed)
    (C := fun st => st.before.keepsFence inp st.call = true)
    (fun _ _ hs hk => fenceHolds_perform hs hk) (sealed_create hmode hc) hk

end Calls

/-! ## At concrete inputs -/

section Scripted

attribute [local instance] JsonSchema.atRoot Rounding.double

/-- A reading that decreases between two snapshots. -/
def backwards : Inputs := .scripted ([0, 0, 10, 20, 15, 15, 30, 40].getD · 0)

/-- A decreasing reading in a snapshot closes the clock; nothing opens it again. -/
theorem maintenance_fence_after_snapshot :
    (timeTrace backwards (.started backwards .scripted)
      [.connect (py "s"), .request, .snapshot, .snapshot, .request,
        .valid none .enqueue]).Forall FenceHolds :=
  List.forall_iff_forall_mem.mpr
    (maintenance_fence rfl (if_pos (by decide +kernel)) (by decide +kernel))

/-- The readings of a round whose third answer arrives as the clock steps back. -/
def stepBack : Inputs :=
  .scripted ([0, 0, 10, 20, 30, 40, 50, 70, 60, 60, 61, 62, 63, 64, 65].getD · 0)

def stepBackCalls : List TimeCall :=
  [.connect (py "s"), .request, .response (scriptedAnswer 10 1000 1002) 20 (some (py "s")) false,
    .request, .response (scriptedAnswer 30 1020 1022) 40 (some (py "s")) false,
    .request, .snapshot, .response (scriptedAnswer 50 1040 1042) 60 (some (py "s")) false,
    .valid none .enqueue]

/-- The decreasing reading is detected, and the same call opens the clock again. -/
theorem maintenance_fence_reopened :
    ∃ st ∈ timeTrace stepBack (.started stepBack .scripted) stepBackCalls,
      st.before.fenced = true ∧ st.before.state = .synced ∧ st.result = .ok (.valid true) ∧
        ¬ FenceHolds st := by
  have h : ∃ st ∈ timeTrace stepBack (.started stepBack .scripted) stepBackCalls,
      (st.before.fenced = true ∧ st.before.state = .synced ∧ st.result = .ok (.valid true)) ∧
        st.after.fenced = true ∧ st.after.state = .synced := by
    decide +kernel
  obtain ⟨st, hst, ⟨hf, hs, hr⟩, hf', hs'⟩ := h
  refine ⟨st, hst, hf, hs, hr, fun hold => ?_⟩
  have hm := hold.maintenance hf'
  rw [hs'] at hm
  cases hm

end Scripted

end PlcnextIot.Core
