/-
  PlcnextIot.Core.SyncRounds

  What one operation does to the open synchronisation round.

  An operation leaves the round alone, adds a request or a candidate to it,
  ends it, or ends it and opens the next one within the same call.  The clock
  functions that run in between (`_advance`, `_invalidate`, `_adopt`) only ever
  drop the outstanding request (`RoundFrame`); `_finish_round` alone ends a
  round, and schedules a back-off when it has nothing to adopt.
-/

import PlcnextIot.Core.TimeEvolve

namespace PlcnextIot.Core

open PlcnextIot.Python PlcnextIot.Contracts PlcnextIot.Effect PlcnextIot.Effect.Prog

/-! ## What an operation is about to do -/

/-- The operations of the synchronisation. -/
def TimeOp.syncs : TimeOp → Bool
  | .call (.connect _) | .call .disconnect | .call .request | .call (.response _ _ _ _)
  | .call .snapshot | .call (.loadHistoryBoundary _ _) => true
  | _ => false

/-- The candidate that a response adds to the round. -/
def TimeOp.taken [JsonSchema] [Rounding] (inp : Inputs) (s : PlatformTime) : TimeOp → Option Candidate
  | .call (.response payload received session retained) =>
    match s.judge (inp.mono s.reads.mono) payload received session retained with
    | .ok (.take c) => some c
    | _ => none
  | _ => none

/-- A request at `now` ends the open round. -/
def PlatformTime.closes [Rounding] (s : PlatformTime) (now : ℤ) : Bool :=
  s.session.isSome && s.state != .maintenance && s.closesRound now

/-- The candidates with which the operation ends the open round, if it ends it. -/
def TimeOp.ends [JsonSchema] [Rounding] (inp : Inputs) (s : PlatformTime) : TimeOp → Option (List Candidate)
  | .call .request => if s.closes (inp.mono s.reads.mono) then some s.candidates else none
  | op =>
    match op.taken inp s with
    | some c => if 3 ≤ (s.candidates ++ [c]).length then some (s.candidates ++ [c]) else none
    | none => none

/-- A history boundary that contradicts the clock. -/
def PlatformTime.contradicts [Rounding] (s : PlatformTime) (basis : Option PyStr)
    (utcLower : Option ℤ) : Bool :=
  utcLower.any fun lower => basis != s.basis || s.behindFloor (max (s.floor.getD 0) lower)

/-- The operation closes the clock before it looks at the round: its snapshot
    finds the clock expired, or it loads a contradicting boundary. -/
def TimeOp.closesClock [Rounding] (inp : Inputs) (s : PlatformTime) : TimeOp → Bool
  | .call .request | .call .snapshot =>
    (s.slew (inp.mono s.reads.mono)).expires (inp.mono s.reads.mono)
  | .call (.loadHistoryBoundary basis utcLower) => s.contradicts basis utcLower
  | .requireMaintenance => true
  | _ => false

/-- The operation runs into `_invalidate`: it closes the clock, or adopts a round
    that steps back or jumps. -/
def TimeOp.invalidates [JsonSchema] [Rounding] (inp : Inputs) (s : PlatformTime) (op : TimeOp) : Bool :=
  op.closesClock inp s ||
    ((op.ends inp s).bind fun cs => s.offer cs (inp.mono s.reads.mono)).any fun o =>
      s.rollsBack o.1 o.2 || (s.slew (inp.mono s.reads.mono)).jumps o.1

/-- The request that a step issued. -/
def TimeOpStep.asked (st : TimeOpStep) : Option TimeRequest :=
  match st.result with
  | .ok (.call (.request r)) => r
  | _ => none

/-! ## The frame -/

/-- What the clock functions leave alone; they may drop the outstanding request. -/
structure RoundFrame (s s' : PlatformTime) : Prop where
  roundStart : s'.roundStart = s.roundStart
  attempts : s'.attempts = s.attempts
  candidates : s'.candidates = s.candidates
  session : s'.session = s.session
  pending : s'.pending = none ∨ s'.pending = s.pending

section Frames

variable {inp : Inputs} {s : PlatformTime} {now : ℤ}

theorem RoundFrame.refl (s : PlatformTime) : RoundFrame s s := ⟨rfl, rfl, rfl, rfl, .inr rfl⟩

theorem RoundFrame.trans {a b c : PlatformTime} (h : RoundFrame a b) (h' : RoundFrame b c) :
    RoundFrame a c := by
  refine ⟨h'.roundStart.trans h.roundStart, h'.attempts.trans h.attempts,
    h'.candidates.trans h.candidates, h'.session.trans h.session, ?_⟩
  rcases h'.pending with hp | hp
  · exact .inl hp
  · rw [hp]
    exact h.pending

/-- The frame, on a return and on a raise. -/
abbrev Framed {α : Type} (x : TimeProg α) (s : PlatformTime) : Prop :=
  wp x (fun _ s' => RoundFrame s s') (fun e s' => e = .timeUnavailable ∧ RoundFrame s s') s

/-- Framed programs in a row. -/
theorem Framed.after {α : Type} {x : TimeProg α} {a : PlatformTime} (h : RoundFrame a s)
    (hx : Framed x s) :
    wp x (fun _ s' => RoundFrame a s') (fun e s' => e = .timeUnavailable ∧ RoundFrame a s') s :=
  hx.mono (fun _ _ h' => h.trans h') fun _ _ h' => ⟨h'.1, h.trans h'.2⟩

theorem framed_invalidate (state : TimeState) (reason : Reason) :
    Framed (PlatformTime.invalidate inp state reason) s := by
  rw [Framed, wp_invalidate]
  exact ⟨fun _ => ⟨rfl, rfl, rfl, rfl, .inl rfl⟩, fun _ _ => ⟨rfl, rfl, rfl, rfl, .inl rfl⟩,
    fun _ _ => ⟨rfl, rfl, rfl, rfl, rfl, .inr rfl⟩⟩

variable [Rounding]

theorem roundFrame_slew (s : PlatformTime) (now : ℤ) : RoundFrame s (s.slew now) := by
  rw [slew_frame]
  exact ⟨rfl, rfl, rfl, rfl, .inr rfl⟩

theorem framed_anchor (target error : ℚ) (now : ℤ) (single : Bool) :
    Framed (PlatformTime.anchor inp target error now single) s := by
  simp only [Framed, PlatformTime.anchor, PlatformTime.drawJitter, wp_bind, wp_get, wp_modify,
    wp_ite, wp_bump, wp_pure]
  refine ⟨fun _ => ⟨fun _ => ⟨fun _ => ?_, fun _ => ?_⟩, fun _ => ⟨trivial, .refl s⟩⟩,
    fun _ => ⟨fun _ => ?_, fun _ => ?_⟩⟩
  all_goals exact ⟨rfl, rfl, rfl, rfl, .inr rfl⟩

theorem framed_confirm (target error : ℚ) (now : ℤ) (single : Bool) :
    Framed (PlatformTime.confirm inp target error now single) s := by
  simp only [Framed, PlatformTime.confirm, wp_bind, wp_get, wp_ite, wp_bump, wp_modify,
    PlatformTime.requireMaintenance]
  refine ⟨fun _ => ⟨fun _ => framed_invalidate _ _, fun _ => ⟨fun _ => ?_, fun _ => ?_⟩⟩,
    fun _ => ⟨rfl, rfl, rfl, rfl, .inr rfl⟩⟩
  · have hdrop : RoundFrame s { s.bumped inp with utc := none } := ⟨rfl, rfl, rfl, rfl, .inr rfl⟩
    exact (framed_anchor target error now single).after hdrop
  · exact ⟨trivial, .refl s⟩

/-- Adopting a target says nothing about the round it comes from. -/
theorem framed_adopt {target error : ℚ} {single : Bool} (hle : s.lastObservedMono ≤ now) :
    Framed (PlatformTime.adopt inp target error now single) s := by
  have hm := roundFrame_slew s now
  simp only [Framed, PlatformTime.adopt, wp_bind, wp_advance_of_le hle, wp_get, wp_ite,
    PlatformTime.requireMaintenance]
  refine ⟨fun _ => (framed_invalidate _ _).after hm, fun _ => ⟨fun _ => ?_, fun _ => ?_⟩⟩
  · refine ((framed_invalidate _ _).after hm).mono (fun _ σ h => ?_) fun _ _ h => h
    exact (framed_confirm target error now single).after h
  · exact (framed_anchor target error now single).after hm

/-! ## Ending a round -/

/-- Every draw lies in the interval that is asked for, as `random.uniform` promises. -/
def Inputs.Uniform (inp : Inputs) : Prop :=
  ∀ i lo hi, lo ≤ hi → lo ≤ inp.jitter i lo hi ∧ inp.jitter i lo hi ≤ hi

/-- No round is open. -/
structure PlatformTime.Idle (s : PlatformTime) : Prop where
  roundStart : s.roundStart = none
  pending : s.pending = none
  candidates : s.candidates = []

/-- The next request is due within a back-off that began at `now`. -/
def PlatformTime.BacksOff (s : PlatformTime) (now : ℤ) : Prop :=
  now + 5000 ≤ s.nextSync ∧ s.nextSync ≤ now + 60000

omit [Rounding] in
theorem backoff_bounds (n : ℕ) : 5000 ≤ backoff n ∧ backoff n ≤ 60000 := by
  unfold backoff
  split <;> norm_num

/-- A failed round is not followed by another one for 5 to 60 seconds. -/
theorem backoff_delay (hjitter : inp.Uniform) (n i : ℕ) :
    let delay := min 60000 (roundHalfEven (fl (backoff n * inp.jitter i 1 (fl (12 / 10)))))
    5000 ≤ delay ∧ delay ≤ 60000 := by
  intro delay
  have hone : ((1 : ℤ) : ℚ) ≤ fl (12 / 10) := le_fl_of_le (fl_intCast (by norm_num)) (by norm_num)
  obtain ⟨hlo, -⟩ := hjitter i 1 (fl (12 / 10)) (by exact_mod_cast hone)
  have hb := (backoff_bounds n).1
  -- An integer below the product is below its rounding.
  have hq : ((5000 : ℤ) : ℚ) ≤ fl (backoff n * inp.jitter i 1 (fl (12 / 10))) := by
    refine le_fl_of_le (fl_intCast (by norm_num)) ?_
    push_cast
    nlinarith
  exact ⟨le_min (by norm_num) (int_le_roundHalfEven hq), min_le_left _ _⟩

/-- `_finish_round` ends the round; with nothing to adopt it backs off. -/
theorem wp_finishRound_idle (hjitter : inp.Uniform) (hle : s.lastObservedMono ≤ now) :
    wp (PlatformTime.finishRound inp now)
      (fun _ s' => s'.Idle ∧ s'.session = s.session ∧
        (choose s.candidates now = none → s'.BacksOff now))
      (fun e s' => e = .timeUnavailable ∧ RoundFrame s s') s := by
  simp only [PlatformTime.finishRound, wp_bind, wp_get]
  split
  · rename_i c hc
    rw [wp_bind]
    refine (framed_adopt hle).mono (fun _ σ h => ?_) fun _ _ h => h
    exact ⟨⟨rfl, rfl, rfl⟩, h.session, fun hno => by simp [hc] at hno⟩
  · simp only [PlatformTime.drawJitter, wp_bind, wp_get, wp_modify, wp_pure]
    obtain ⟨h1, h2⟩ := backoff_delay hjitter (min (s.failures + 1) 5) s.reads.jitter
    exact ⟨⟨rfl, rfl, rfl⟩, trivial, fun _ =>
      ⟨Int.add_le_add_left h1 now, Int.add_le_add_left h2 now⟩⟩

/-! ## Requests -/

/-- The round that `r` opens. -/
structure PlatformTime.Opens (r : TimeRequest) (s' : PlatformTime) : Prop where
  roundStart : s'.roundStart = some r.clientMonoMs
  pending : s'.pending = some r
  attempts : s'.attempts = 1
  candidates : s'.candidates = []

/-- The open round goes on, perhaps with one more request or candidate. -/
structure Continues (s : PlatformTime) (asked : Option TimeRequest) (taken : Option Candidate)
    (s' : PlatformTime) : Prop where
  roundStart : s'.roundStart = s.roundStart
  attempts : s'.attempts = s.attempts + asked.toList.length
  candidates : s'.candidates = s.candidates ++ taken.toList
  idle : asked = none → s'.pending = none ∨ s'.pending = s.pending
  asks : ∀ r, asked = some r → s'.pending = some r ∧ s.roundStart ≠ none ∧ s.attempts < 10
  takes : ∀ c, taken = some c → s.pending ≠ none ∧ s'.pending = none

omit [Rounding] in
theorem RoundFrame.continues {s' : PlatformTime} (h : RoundFrame s s') :
    Continues s none none s' where
  roundStart := h.roundStart
  attempts := h.attempts
  candidates := by simpa using h.candidates
  idle := fun _ => h.pending
  asks := fun _ h => by cases h
  takes := fun _ h => by cases h

omit [Rounding] in
/-- A program that only framed the round before does not show. -/
theorem Continues.of_frame {a s' : PlatformTime} {asked : Option TimeRequest}
    (hf : RoundFrame a s) (h : Continues s asked none s') : Continues a asked none s' where
  roundStart := h.roundStart.trans hf.roundStart
  attempts := by rw [h.attempts, hf.attempts]
  candidates := by rw [h.candidates, hf.candidates]
  idle := fun ha => (hf.trans ⟨rfl, rfl, rfl, rfl, h.idle ha⟩ : RoundFrame a
    { s with pending := s'.pending }).pending
  asks := fun r hr => by
    obtain ⟨hp, hs, ha⟩ := h.asks r hr
    exact ⟨hp, hf.roundStart ▸ hs, hf.attempts ▸ ha⟩
  takes := fun _ h => by cases h

/-- The members of a request issued at `now`. -/
structure IssuedAt (now : ℤ) (s : PlatformTime) (r : TimeRequest) (s' : PlatformTime) : Prop where
  clientMonoMs : r.clientMonoMs = now
  sessionId : r.sessionId = s.session.getD []
  session : s'.session = s.session

/-- In the back-off nothing is issued. -/
theorem wp_issue_paused {Q : Option TimeRequest → PlatformTime → Prop}
    {E : TimeError → PlatformTime → Prop} (h : now < s.nextSync) :
    wp (PlatformTime.issue inp now) Q E s ↔ Q none s := by
  simp only [PlatformTime.issue, wp_bind, wp_get, wp_ite, wp_pure, h, true_implies,
    not_true_eq_false, false_implies, and_true]

/-- After the back-off the next round is opened. -/
theorem wp_issue_opens (h : s.nextSync ≤ now) (hr : s.roundStart = none) :
    wp (PlatformTime.issue inp now)
      (fun r s' => ∃ p, r = some p ∧ s'.Opens p ∧ IssuedAt now s p s' ∧ s'.lastMono = s.lastMono)
      (fun _ _ => False) s := by
  simp only [PlatformTime.issue, PlatformTime.freshId, wp_bind, wp_get, wp_ite, wp_pure, wp_modify]
  refine ⟨fun hlt => absurd hlt (not_lt.mpr h), fun _ => ⟨fun _ => ⟨fun hover => ?_, fun _ => ?_⟩,
    fun hno => absurd hr hno⟩⟩
  · simp at hover
  · exact ⟨_, rfl, ⟨rfl, rfl, rfl, rfl⟩, ⟨rfl, rfl, rfl⟩, trivial⟩

/-- In an open round that is not over, one more request is issued. -/
theorem wp_issue_continues (h : s.nextSync ≤ now) (hr : s.roundStart ≠ none)
    (hp : s.pending = none) (hover : s.roundOver now = false) :
    wp (PlatformTime.issue inp now)
      (fun r s' => ∃ p, r = some p ∧ Continues s (some p) none s' ∧ IssuedAt now s p s')
      (fun _ _ => False) s := by
  obtain ⟨start, hst⟩ := Option.ne_none_iff_exists'.mp hr
  simp only [PlatformTime.roundOver, hst, hp, Option.isNone_none, Bool.and_true,
    Bool.or_eq_false_iff, decide_eq_false_iff_not, not_le] at hover
  simp only [PlatformTime.issue, PlatformTime.freshId, wp_bind, wp_get, wp_ite, wp_pure, wp_modify]
  refine ⟨fun hlt => absurd hlt (not_lt.mpr h), fun _ => ⟨fun hno => absurd hno hr,
    fun _ => ⟨fun hend => ?_, fun _ => ?_⟩⟩⟩
  · rw [hst, Option.getD_some] at hend
    omega
  · refine ⟨_, rfl, ⟨rfl, rfl, by simp, fun h => (by cases h), fun r hreq => ?_,
      fun _ h => (by cases h)⟩, rfl, rfl, rfl⟩
    obtain rfl := Option.some.inj hreq
    exact ⟨rfl, hr, hover.2⟩

/-- What a request call does to the round: it ends it (and may open the next),
    opens one, or lets the open one go on. -/
structure Requests (closes : Bool) (now : ℤ) (s : PlatformTime) (r : Option TimeRequest)
    (s' : PlatformTime) : Prop where
  session : s'.session = s.session
  issued : ∀ p, r = some p → IssuedAt now s p s'
  round : (r = none ∧ s'.Idle ∧ closes = true) ∨ (∃ p, r = some p ∧ s'.Opens p) ∨
    (Continues s r none s' ∧ closes = false)
  failed : closes = true → choose s.candidates now = none → r = none ∧ s'.BacksOff now

/-- The end of `request`, with no request outstanding in a round that is not over. -/
theorem wp_issue_requests (hp : s.pending = none) (hover : s.roundOver now = false) :
    wp (PlatformTime.issue inp now) (Requests false now s) (fun _ _ => False) s := by
  rcases lt_or_ge now s.nextSync with hlt | hge
  · rw [wp_issue_paused hlt]
    exact ⟨rfl, fun _ h => (by cases h), .inr (.inr ⟨(RoundFrame.refl s).continues, rfl⟩),
      fun h => by cases h⟩
  · by_cases hr : s.roundStart = none
    · refine (wp_issue_opens hge hr).mono ?_ fun _ _ h => h
      rintro _ s' ⟨p, rfl, ho, hi, -⟩
      refine ⟨hi.session, fun q hq => ?_, .inr (.inl ⟨p, rfl, ho⟩), fun h => by cases h⟩
      rwa [← Option.some.inj hq]
    · refine (wp_issue_continues hge hr hp hover).mono ?_ fun _ _ h => h
      rintro _ s' ⟨p, rfl, hc, hi⟩
      refine ⟨hi.session, fun q hq => ?_, .inr (.inr ⟨hc, rfl⟩), fun h => by cases h⟩
      rwa [← Option.some.inj hq]

/-- End the round, then issue. -/
theorem wp_finishRound_requests (hjitter : inp.Uniform) {next : TimeProg (Option TimeRequest)}
    (hnext : ∀ Q E (s' : PlatformTime), s'.pending = none →
      (wp next Q E s' ↔ wp (PlatformTime.issue inp now) Q E s'))
    (hle : s.lastObservedMono ≤ now) :
    wp (PlatformTime.finishRound inp now)
      (fun _ => wp next (Requests true now s) (fun e s' => e = .timeUnavailable ∧ RoundFrame s s'))
      (fun e s' => e = .timeUnavailable ∧ RoundFrame s s') s := by
  refine (wp_finishRound_idle hjitter hle).mono ?_ fun _ _ h => h
  rintro _ σ ⟨hidle, hsess, hfail⟩
  rw [hnext _ _ σ hidle.pending]
  rcases lt_or_ge now σ.nextSync with hlt | hge
  · rw [wp_issue_paused hlt]
    exact ⟨hsess, fun _ h => (by cases h), .inl ⟨rfl, hidle, rfl⟩, fun _ hc => ⟨rfl, hfail hc⟩⟩
  · refine (wp_issue_opens hge hidle.roundStart).mono ?_ fun _ _ h => h.elim
    rintro _ s' ⟨p, rfl, ho, hi, -⟩
    refine ⟨hi.session.trans hsess, fun q hq => ?_, .inr (.inl ⟨p, rfl, ho⟩), fun _ hc => ?_⟩
    · rw [← Option.some.inj hq]
      exact ⟨hi.clientMonoMs, hsess ▸ hi.sessionId, hi.session.trans hsess⟩
    · -- A back-off has begun, so nothing could be issued.
      have hlo := (hfail hc).1
      omega

/-- What a snapshot at `now` does to the round. -/
structure LooksOn (s σ : PlatformTime) (now : ℤ) : Prop where
  frame : RoundFrame s σ
  pending : σ.pending = if (s.slew now).expires now then none else s.pending
  nextSync : σ.nextSync = if (s.slew now).expires now then 0 else s.nextSync
  maintenance : σ.state = .maintenance ↔ s.state = .maintenance

theorem settled_nextSync (inp : Inputs) (s : PlatformTime) (now : ℤ) :
    (s.settled inp now).nextSync = if s.expires now then 0 else s.nextSync := by
  unfold PlatformTime.settled
  split
  · rfl
  · split <;> rfl

theorem settled_maintenance (inp : Inputs) (s : PlatformTime) (now : ℤ) :
    (s.settled inp now).state = .maintenance ↔ s.state = .maintenance := by
  unfold PlatformTime.settled
  split
  · rename_i he
    have hc := closed_of_expires he
    cases hst : s.state <;> simp_all [PlatformTime.shut, TimeState.closed]
  · split
    · rename_i hv
      have hc := open_of_validAt hv
      cases hst : s.state <;> cases hsync : s.sessionSynced <;> simp_all [TimeState.closed]
    · rfl

theorem roundFrame_settled (inp : Inputs) (s : PlatformTime) (now : ℤ) : RoundFrame s (s.settled inp now) := by
  refine ⟨?_, ?_, ?_, ?_, ?_⟩
  case refine_5 =>
    rw [settled_pending]
    split
    · exact .inl rfl
    · exact .inr rfl
  all_goals rw [settled_frame]

theorem wp_snapshot_looks (hle : s.lastObservedMono ≤ inp.mono s.reads.mono) :
    wp (PlatformTime.snapshot inp) (fun _ σ => LooksOn s σ (inp.mono s.reads.mono))
      (fun e σ => e = .timeUnavailable ∧ RoundFrame s σ) s := by
  generalize hnow : inp.mono s.reads.mono = now at hle ⊢
  have hm : RoundFrame s (s.slew now).readNext := by
    rw [slew_frame]
    exact ⟨rfl, rfl, rfl, rfl, .inr rfl⟩
  have hle' : s.readNext.lastObservedMono ≤ now := hle
  rw [wp_snapshot, hnow, wp_advance_of_le hle', slew_readNext]
  refine ⟨fun _ _ => ⟨rfl, hm⟩, fun _ => ?_⟩
  have hset := roundFrame_settled inp (s.slew now).readNext now
  refine ⟨hm.trans ⟨hset.roundStart, hset.attempts, hset.candidates, hset.session, hset.pending⟩,
    ?_, ?_, ?_⟩
  · refine (@settled_pending inp (s.slew now).readNext _ now).trans ?_
    rw [slew_frame]
    rfl
  · refine (settled_nextSync inp (s.slew now).readNext now).trans ?_
    rw [slew_frame]
    rfl
  · refine (settled_maintenance inp (s.slew now).readNext now).trans ?_
    rw [slew_frame]
    rfl

/-- A snapshot that does not expire the clock does not raise. -/
theorem wp_snapshot_keeps (hle : s.lastObservedMono ≤ inp.mono s.reads.mono)
    (hkeep : (s.slew (inp.mono s.reads.mono)).expires (inp.mono s.reads.mono) = false) :
    wp (PlatformTime.snapshot inp)
      (fun _ σ => RoundFrame s σ ∧ σ.nextSync = s.nextSync ∧
        (σ.state = .maintenance ↔ s.state = .maintenance)) (fun _ _ => False) s := by
  have hreturns : wp (PlatformTime.snapshot inp) (fun _ _ => True) (fun _ _ => False) s := by
    rw [wp_snapshot, wp_advance_of_le (s := s.readNext) hle, slew_readNext]
    refine ⟨fun he => ?_, fun _ => trivial⟩
    have he' : (s.slew (inp.mono s.reads.mono)).expires (inp.mono s.reads.mono) = true := he
    rw [hkeep] at he'
    cases he'
  exact ((wp_snapshot_looks hle).and hreturns).mono
    (fun _ σ h => ⟨h.1.frame, by rw [h.1.nextSync, hkeep]; rfl, h.1.maintenance⟩) fun _ _ h => h.2

/-- An open round that is neither over nor waiting in vain goes on. -/
theorem LooksOn.not_closesRound {σ : PlatformTime} (h : LooksOn s σ now)
    (hover : σ.roundOver now = false)
    (hfew : ∀ p, σ.pending = some p → p.clientMonoMs + 2000 ≤ now → σ.attempts < 10) :
    s.closesRound now = false := by
  unfold PlatformTime.roundOver at hover
  rw [h.frame.roundStart, h.frame.attempts] at hover
  rw [h.frame.attempts] at hfew
  unfold PlatformTime.closesRound
  cases hr : s.roundStart with
  | none => rfl
  | some start =>
      simp only [hr, Bool.or_eq_false_iff, decide_eq_false_iff_not, not_le] at hover
      by_cases ha : 10 ≤ s.attempts
      · -- All ten requests are out, so the last of them is still awaited.
        have hsome : σ.pending.isNone = false := by simpa [ha] using hover.2
        obtain ⟨p, hp⟩ := Option.isSome_iff_exists.mp (Option.isNone_eq_false_iff.mp hsome)
        have hnow : now < p.clientMonoMs + 2000 := by
          by_contra hno
          have := hfew p hp (not_lt.mp hno)
          omega
        rw [h.pending] at hp
        by_cases he : (s.slew now).expires now = true
        · rw [if_pos he] at hp
          cases hp
        · rw [if_neg he] at hp
          simp [PlatformTime.awaits, he, hp, hnow, hover.1]
      · simp [hover.1, ha]

theorem Requests.of_frame {a s' : PlatformTime} {closes : Bool} {r : Option TimeRequest}
    (hf : RoundFrame a s) (h : Requests closes now s r s') : Requests closes now a r s' where
  session := h.session.trans hf.session
  issued := fun p hp => by
    have hi := h.issued p hp
    exact ⟨hi.clientMonoMs, hf.session ▸ hi.sessionId, hi.session.trans hf.session⟩
  round := by
    rcases h.round with hi | ho | ⟨hc, hno⟩
    · exact .inl hi
    · exact .inr (.inl ho)
    · exact .inr (.inr ⟨hc.of_frame hf, hno⟩)
  failed := fun hcl hc => h.failed hcl (hf.candidates.symm ▸ hc)

/-- `request` after its snapshot, in a session. -/
theorem wp_ask_round {σ : PlatformTime} (hjitter : inp.Uniform) (hσ : σ.Regular)
    (hlast : σ.lastObservedMono ≤ now) (hl : LooksOn s σ now) (hL : LooksAt s σ now) :
    wp (do
        if σ.roundOver now then PlatformTime.finishRound inp now else pure ()
        PlatformTime.ask inp now)
      (Requests (s.closesRound now) now s)
      (fun e s' => e = .timeUnavailable ∧ RoundFrame s s') σ := by
  have hdrop : RoundFrame s { σ with pending := none } :=
    hl.frame.trans ⟨rfl, rfl, rfl, rfl, .inl rfl⟩
  have hend : ∀ {a : PlatformTime}, RoundFrame s a → s.closesRound now = true →
      a.lastObservedMono ≤ now → ∀ {next : TimeProg (Option TimeRequest)},
      (∀ Q E (s' : PlatformTime), s'.pending = none →
        (wp next Q E s' ↔ wp (PlatformTime.issue inp now) Q E s')) →
      wp (PlatformTime.finishRound inp now)
        (fun _ => wp next (Requests (s.closesRound now) now s)
          (fun e s' => e = .timeUnavailable ∧ RoundFrame s s'))
        (fun e s' => e = .timeUnavailable ∧ RoundFrame s s') a := by
    intro a hf hcl hal next hnext
    rw [hcl]
    refine (wp_finishRound_requests hjitter hnext hal).mono (fun _ _ h => ?_)
      fun _ _ h => ⟨h.1, hf.trans h.2⟩
    exact h.mono (fun _ _ h => h.of_frame hf) fun _ _ h => ⟨h.1, hf.trans h.2⟩
  have hissue : ∀ {a : PlatformTime}, RoundFrame s a → s.closesRound now = false →
      a.pending = none → a.roundOver now = false →
      wp (PlatformTime.issue inp now) (Requests (s.closesRound now) now s)
        (fun e s' => e = .timeUnavailable ∧ RoundFrame s s') a := by
    intro a hf hcl hp hover
    rw [hcl]
    exact (wp_issue_requests hp hover).mono (fun _ _ h => h.of_frame hf) fun _ _ h => h.elim
  simp only [wp_bind, wp_ite]
  refine ⟨fun hover => ?_, fun hover => ?_⟩
  · exact hend hl.frame (hL.closesRound_of_over hover) hlast fun _ _ _ h => wp_ask_of_idle h
  · have hover' : σ.roundOver now = false := by simpa using hover
    simp only [PlatformTime.ask, wp_bind, wp_get]
    cases hp : σ.pending with
    | none =>
        exact hissue hl.frame (hl.not_closesRound hover' fun p h => by rw [hp] at h; cases h) hp hover'
    | some p =>
        simp only [wp_ite, wp_pure, PlatformTime.retry, wp_bind, wp_modify, wp_get]
        refine ⟨fun hw => ?_, fun hw => ⟨fun ha => ?_, fun ha => ?_⟩⟩
        · -- The outstanding request is awaited.
          rw [hl.not_closesRound hover' fun q hq hlate => ?_]
          · exact ⟨hl.frame.session, fun _ h => (by cases h),
              .inr (.inr ⟨hl.frame.continues, rfl⟩), fun h => by cases h⟩
          · rw [hp] at hq
            rw [← Option.some.inj hq] at hlate
            omega
        · exact hend hdrop (hL.closesRound_of_stale hσ.round hp (not_lt.mp hw) ha) hlast
            fun _ _ _ _ => Iff.rfl
        · refine hissue hdrop (hl.not_closesRound hover' fun _ _ _ => not_le.mp ha) rfl ?_
          unfold PlatformTime.roundOver at hover' ⊢
          cases hr : σ.roundStart with
          | none => rfl
          | some start =>
              rw [hr] at hover'
              simp_all

/-- What a request does: at most one round is ended in it, and a round that
    fails is followed by a back-off. -/
theorem wp_request_round (hjitter : inp.Uniform) (hs : s.Regular)
    (hle : s.lastObservedMono ≤ inp.mono s.reads.mono) :
    wp (PlatformTime.request inp)
      (fun r s' => Requests (s.closes (inp.mono s.reads.mono)) (inp.mono s.reads.mono) s r s' ∧
        (r ≠ none → s.session ≠ none))
      (fun e s' => e = .timeUnavailable ∧ RoundFrame s s') s := by
  simp only [PlatformTime.request, wp_bind]
  refine ((wp_snapshot_evolves hs hle).and (wp_snapshot_looks hle)).mono ?_ fun _ _ h => h.2
  generalize inp.mono s.reads.mono = now at *
  rintro t σ ⟨⟨hbec, hseen⟩, hl⟩
  rw [hseen.mono, wp_get, wp_ite, wp_pure]
  refine ⟨fun hno => ?_, fun hask => ?_⟩
  · -- Nothing is asked without a session or in `MAINTENANCE`.
    have hcloses : s.closes now = false := by
      unfold PlatformTime.closes
      rw [← hl.frame.session]
      simp only [hbec.regular.platform, Bool.not_true, Bool.false_or, Bool.or_eq_true,
        Option.isNone_iff_eq_none, beq_iff_eq] at hno
      rcases hno with hno | hno
      · simp [hno]
      · simp [hl.maintenance.mp hno]
    rw [hcloses]
    exact ⟨⟨hl.frame.session, fun _ h => (by cases h), .inr (.inr ⟨hl.frame.continues, rfl⟩),
      fun h => (by cases h)⟩, fun h => absurd rfl h⟩
  · simp only [Bool.or_eq_true, Option.isNone_iff_eq_none, beq_iff_eq, not_or,
      hl.frame.session] at hask
    have hst : s.state ≠ .maintenance := fun h => hask.2 (hl.maintenance.mpr h)
    have hopen : s.closes now = s.closesRound now := by
      simp [PlatformTime.closes, Option.isSome_iff_ne_none.mpr hask.1.2, hst]
    rw [hopen]
    exact (wp_ask_round hjitter hbec.regular hseen.looks.last.le hl hseen.looks).mono
      (fun _ _ h => ⟨h, fun _ => hask.1.2⟩) fun _ _ h => h

/-- In the back-off a request takes its snapshot and returns nothing; after it,
    it opens the next round, unless the clock is in `MAINTENANCE`. -/
theorem wp_request_idle (hs : s.Regular) (hle : s.lastObservedMono ≤ inp.mono s.reads.mono)
    (hidle : s.Idle) (hsess : s.session ≠ none)
    (hkeep : (s.slew (inp.mono s.reads.mono)).expires (inp.mono s.reads.mono) = false) :
    wp (PlatformTime.request inp)
      (fun r s' =>
        (r = none ∧ s'.Idle ∧ s'.nextSync = s.nextSync ∧ s'.session = s.session ∧
          (inp.mono s.reads.mono < s.nextSync ∨ s.state = .maintenance)) ∨
        (∃ p, r = some p ∧ s.nextSync ≤ inp.mono s.reads.mono ∧ s.state ≠ .maintenance ∧
          s'.lastMono = inp.mono s.reads.mono))
      (fun _ _ => False) s := by
  simp only [PlatformTime.request, wp_bind]
  refine ((wp_snapshot_evolves hs hle).and (wp_snapshot_keeps hle hkeep)).mono ?_ fun _ _ h => h.2
  generalize inp.mono s.reads.mono = now at *
  rintro t σ ⟨⟨hbec, hseen⟩, hframe, hnext, hmaint⟩
  have hσ : σ.Idle := by
    refine ⟨hframe.roundStart.trans hidle.roundStart, ?_,
      hframe.candidates.trans hidle.candidates⟩
    rcases hframe.pending with h | h
    · exact h
    · exact h.trans hidle.pending
  have hover : σ.roundOver now = false := by simp [PlatformTime.roundOver, hσ.roundStart]
  rw [hseen.mono]
  simp only [wp_get, wp_ite, wp_pure, wp_bind, hover, Bool.false_eq_true, false_implies,
    not_false_eq_true, true_implies, true_and]
  refine ⟨fun hno => ?_, fun hask => ?_⟩
  · simp only [hbec.regular.platform, Bool.not_true, Bool.false_or, Bool.or_eq_true,
      Option.isNone_iff_eq_none, beq_iff_eq, hframe.session, hsess, false_or] at hno
    exact .inl ⟨hσ, hnext, hframe.session, .inr (hmaint.mp hno)⟩
  · simp only [Bool.or_eq_true, beq_iff_eq, not_or] at hask
    have hst : s.state ≠ .maintenance := fun h => hask.2 (hmaint.mpr h)
    rw [wp_ask_of_idle hσ.pending]
    rcases lt_or_ge now σ.nextSync with hlt | hge
    · rw [wp_issue_paused hlt]
      exact .inl ⟨rfl, hσ, hnext, hframe.session, .inl (hnext ▸ hlt)⟩
    · refine (wp_issue_opens hge hσ.roundStart).mono ?_ fun _ _ h => h
      rintro _ s' ⟨p, rfl, -, -, hlast⟩
      refine .inr ⟨p, rfl, hnext ▸ hge, hst, hlast.trans ?_⟩
      have hreg := hseen.registers
      simp only [PlatformTime.registers, Prod.mk.injEq] at hreg
      rw [hreg.2.2.2.1, slew_lastMono]

end Frames

/-! ## Responses -/

section Responses

variable [JsonSchema] [Rounding] {inp : Inputs} {s : PlatformTime} {payload : Bytes} {received : ℤ}
  {session : Option PyStr} {retained : Bool}

/-- A response that is refused leaves the clock and the candidates. -/
structure Refused (s s' : PlatformTime) : Prop where
  registers : s'.registers = s.registers
  state : s'.state = s.state
  revision : s'.revision = s.revision
  generation : s'.generation = s.generation
  candidates : s'.candidates = s.candidates

/-- What an accepted response does to the round: the third candidate ends it. -/
def Accepts (now : ℤ) (s : PlatformTime) (c : Candidate) (s' : PlatformTime) : Prop :=
  (3 ≤ (s.candidates ++ [c]).length ∧ s'.Idle ∧
      (choose (s.candidates ++ [c]) now = none → s'.BacksOff now)) ∨
    ((s.candidates ++ [c]).length ≤ 2 ∧ Continues s none (some c) s')

/-- The state with one more candidate. -/
def PlatformTime.storing (s : PlatformTime) (c : Candidate) : PlatformTime :=
  { s.readNext with candidates := s.candidates ++ [c], pending := none }

omit [JsonSchema] [Rounding] in
/-- Until the round ends, the new candidate is all that shows. -/
theorem continues_storing {c : Candidate} {s' : PlatformTime} (hp : s.pending ≠ none)
    (hf : RoundFrame (s.storing c) s') : Continues s none (some c) s' := by
  have hnone : s'.pending = none := by
    rcases hf.pending with h | h <;> exact h
  exact ⟨hf.roundStart, hf.attempts, hf.candidates, fun _ => .inl hnone, fun _ h => (by cases h),
    fun _ _ => ⟨hp, hnone⟩⟩

/-- What a response does. -/
theorem wp_response_round (hjitter : inp.Uniform) (hle : s.lastObservedMono ≤ inp.mono s.reads.mono) :
    let op : TimeOp := .call (.response payload received session retained)
    wp (PlatformTime.response inp payload received session retained)
      (fun b s' => s'.session = s.session ∧
        ((b = false ∧ op.taken inp s = none ∧ Refused s s' ∧ Continues s none none s') ∨
          (b = true ∧ ∃ c, op.taken inp s = some c ∧ s'.pending = none ∧
            Accepts (inp.mono s.reads.mono) s c s')))
      (fun e s' => s'.session = s.session ∧ Continues s none (op.taken inp s) s' ∧
        (op.taken inp s ≠ none → e = .timeUnavailable)) s := by
  intro op
  simp only [PlatformTime.response, wp_bind, wp_readMono, wp_get]
  have hj : s.readNext.judge (inp.mono s.reads.mono) payload received session retained
      = s.judge (inp.mono s.reads.mono) payload received session retained := rfl
  rw [hj]
  rcases hv : s.judge (inp.mono s.reads.mono) payload received session retained
    with e | ⟨reason⟩ | ⟨reason⟩ | ⟨c⟩
  · have htaken : op.taken inp s = none := by simp only [op, TimeOp.taken, hv]
    rw [htaken]
    have hf : RoundFrame s s.readNext := ⟨rfl, rfl, rfl, rfl, .inr rfl⟩
    exact ⟨rfl, hf.continues, fun h => absurd rfl h⟩
  · have htaken : op.taken inp s = none := by simp only [op, TimeOp.taken, hv]
    have hf : RoundFrame s { s.readNext with reason := some reason } := ⟨rfl, rfl, rfl, rfl, .inr rfl⟩
    exact ⟨rfl, .inl ⟨rfl, htaken, ⟨rfl, rfl, rfl, rfl, rfl⟩, hf.continues⟩⟩
  · have htaken : op.taken inp s = none := by simp only [op, TimeOp.taken, hv]
    have hf : RoundFrame s { s.readNext with pending := none, reason := some reason } :=
      ⟨rfl, rfl, rfl, rfl, .inl rfl⟩
    exact ⟨rfl, .inl ⟨rfl, htaken, ⟨rfl, rfl, rfl, rfl, rfl⟩, hf.continues⟩⟩
  -- Taken: the third candidate ends the round, and an earlier one leaves it open.
  · have htaken : op.taken inp s = some c := by simp only [op, TimeOp.taken, hv]
    have hp := pending_of_take hv
    show wp (do
      PlatformTime.accept inp c (inp.mono s.reads.mono)
      return true) _ _ _
    simp only [PlatformTime.accept, wp_bind, wp_modify, wp_get, wp_ite, wp_pure]
    change (3 ≤ (s.storing c).candidates.length → wp _ _ _ (s.storing c)) ∧
      (¬ 3 ≤ (s.storing c).candidates.length → _)
    refine ⟨fun hlen => ?_, fun hlen => ?_⟩
    · refine (wp_finishRound_idle (s := s.storing c) hjitter hle).mono ?_ ?_
      · rintro _ s' ⟨hidle, hsess, hfail⟩
        exact ⟨hsess, .inr ⟨trivial, c, htaken, hidle.pending, .inl ⟨hlen, hidle, hfail⟩⟩⟩
      · rintro e s' ⟨he, hf⟩
        rw [htaken]
        exact ⟨hf.session, continues_storing hp hf, fun _ => he⟩
    · exact ⟨rfl, .inr ⟨trivial, c, htaken, trivial, .inr ⟨Nat.le_of_lt_succ (not_le.mp hlen),
        continues_storing hp (.refl (s.storing c))⟩⟩⟩

end Responses

end PlcnextIot.Core
