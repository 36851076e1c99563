/-
  PlcnextIot.Core.TimeEvolve

  Every operation evolves the state as `Evolves` says.

  One lemma per helper of the provider, at a nondecreasing reading `now`.  A
  helper that can adopt a round has two outcomes: it returns with the grant of
  an adoption, or raises (the revision counter is used up) without it.
-/

import PlcnextIot.Core.TimeOps

namespace PlcnextIot.Core

open PlcnextIot.Python PlcnextIot.Contracts PlcnextIot.Effect PlcnextIot.Effect.Prog

/-- What a helper at the reading `now` ends in. -/
structure Becomes [Rounding] (g : Grants) (now : ℤ) (s s' : PlatformTime) : Prop where
  evolves : Evolves g s s'
  ran : s'.revision = s.revision → s.opened = true → Ran now s s'
  regular : s'.Regular

section Helpers

variable {inp : Inputs} {g : Grants} {s : PlatformTime} {now : ℤ}

theorem not_opened_of_closed (h : s.state.closed = true) : s.opened = false := by
  unfold PlatformTime.opened
  cases hs : s.state <;> simp [hs, TimeState.closed] at h ⊢ <;> rfl

theorem closed_of_isOpen {state : TimeState} (h : state.isOpen = true) : state.closed = false := by
  cases state <;> first | rfl | cases h

/-- A synchronised session has an open clock. -/
theorem PlatformTime.Regular.opened_of_synced (hs : s.Regular) (h : s.sessionSynced = true) :
    s.opened = true := by
  rw [PlatformTime.opened, hs.synced h]
  rfl

/-- What `Evolves` looks at. -/
def PlatformTime.essence (s : PlatformTime) :
    (ℤ × ℤ × TimeState) × (Bool × Bool × Bool) × Option ℚ × ℤ × ℚ :=
  ((s.revision, s.connectionRevision, s.state),
    (s.sessionSynced, s.heartbeatSubmitted, s.getSubmitted), s.utc, s.lastMono, s.residual)

variable [Rounding]

theorem Becomes.trans {a b c : PlatformTime} (h : Becomes g now a b) (h' : Becomes g now b c) :
    Becomes g now a c := by
  refine ⟨h.evolves.trans h'.evolves, fun he ho => ?_, h'.regular⟩
  obtain ⟨h1, h2⟩ := h.evolves.middle h'.evolves he
  exact (h.ran h1 ho).trans (h'.ran h2 (h.evolves.stays h1 ho))

/-- Where nothing had to be granted, anything may be. -/
theorem Becomes.any {s' : PlatformTime} (h : Becomes {} now s s') : Becomes g now s s' :=
  ⟨h.evolves.weaken False.elim False.elim False.elim False.elim, h.ran, h.regular⟩

theorem Becomes.of_essence {s' : PlatformTime} (h : s'.essence = s.essence)
    (hregular : s'.Regular) :
    Becomes g now s s' := by
  simp only [PlatformTime.essence, Prod.mk.injEq] at h
  obtain ⟨⟨hr, hc, hst⟩, ⟨hs, hh, hg⟩, hu, hl, hres⟩ := h
  refine ⟨⟨hr.ge, hc.ge, ?_, ?_, ?_, ?_, ?_⟩, fun _ _ => .inr ⟨hl, hu, .inl hres⟩, hregular⟩
  · intro _ ho
    rwa [PlatformTime.opened, hst]
  · intro _ ho
    rw [PlatformTime.opened, hst] at ho
    exact .inl ho
  · exact fun h => .inl ⟨hs ▸ h, hr, hc⟩
  · exact fun h => .inl ⟨hh ▸ h, fun _ => ⟨hr, hc⟩⟩
  · exact fun h => .inl ⟨hg ▸ h, fun _ => ⟨hr, hc⟩⟩

theorem Becomes.refl (hs : s.Regular) : Becomes g now s s :=
  ⟨.refl, fun _ _ => .refl, hs⟩

/-! ## Invalidation -/

/-- A closed clock stays closed. -/
theorem becomes_shut {state : TimeState} {reason : Reason} (hs : s.Regular)
    (hc : s.state.closed = true) (hst : state.isOpen = false) :
    Becomes g now s (s.shut state reason) := by
  have ho : s.opened = false := not_opened_of_closed hc
  have hno : (s.shut state reason).opened = false := hst
  have habs : ∀ {P : Prop}, s.opened = true → P := fun h => by rw [ho] at h; cases h
  refine ⟨⟨le_rfl, le_rfl, fun _ h => habs h, fun _ h => ?_, ?_, ?_, ?_⟩, fun _ h => habs h, ?_⟩
  · rw [hno] at h
    cases h
  · exact fun h => Bool.noConfusion h
  · exact fun h => Bool.noConfusion h
  · exact fun h => Bool.noConfusion h
  · refine ⟨hs.platform, fun h => ?_, fun h => absurd rfl h, fun h => Bool.noConfusion h⟩
    rw [hno] at h
    cases h

/-- An open clock closes with a new revision. -/
theorem becomes_bumped_shut {state : TimeState} {reason : Reason} (hs : s.Regular)
    (hst : state.isOpen = false) : Becomes g now s ((s.bumped inp).shut state reason) := by
  refine ⟨.of_cleared (Int.lt_succ s.revision) le_rfl (fun h => Bool.noConfusion h) rfl rfl,
    fun he => absurd he (Int.lt_succ s.revision).ne', hs.platform, fun h => ?_, fun h => absurd rfl h, fun h => Bool.noConfusion h⟩
  have hno : ((s.bumped inp).shut state reason).opened = false := hst
  rw [hno] at h
  cases h

/-- An invalidation closes the clock and leaves its registers. -/
theorem wp_invalidate_evolves {state : TimeState} {reason : Reason} (hs : s.Regular)
    (hst : state.closed = true) :
    wp (PlatformTime.invalidate inp state reason)
      (fun _ s' => Becomes {} now s s' ∧ s'.state.closed = true ∧ s'.lastMono = s.lastMono)
      (fun _ s' => Becomes {} now s s') s := by
  have hno : state.isOpen = false := by
    rw [← Bool.not_eq_true]
    intro h
    rw [closed_of_isOpen h] at hst
    cases hst
  rw [wp_invalidate]
  refine ⟨fun hc => ⟨becomes_shut hs hc hno, hst, rfl⟩,
    fun _ _ => ⟨becomes_bumped_shut hs hno, hst, rfl⟩, fun _ _ => ?_⟩
  exact .of_essence rfl ⟨hs.platform, hs.anchored, hs.round, hs.synced⟩

/-! ## The running clock -/

theorem becomes_slew (hs : s.Regular) : Becomes g now s (s.slew now) := by
  have hutc : (s.slew now).utc = none → s.utc = none := by
    rw [slew_utc]
    cases s.utc <;> simp
  rw [slew_frame] at hutc ⊢
  exact ⟨⟨le_rfl, le_rfl, fun _ h => h, fun _ h => .inl h, fun h => .inl ⟨h, rfl, rfl⟩,
      fun h => .inl ⟨h, fun _ => ⟨rfl, rfl⟩⟩, fun h => .inl ⟨h, fun _ => ⟨rfl, rfl⟩⟩⟩,
    fun _ _ => .inl ⟨rfl, rfl⟩, hs.platform, fun h hu => hs.anchored h (hutc hu), hs.round, hs.synced⟩

theorem becomes_readNext (hs : s.Regular) : Becomes g now s s.readNext :=
  .of_essence rfl ⟨hs.platform, hs.anchored, hs.round, hs.synced⟩

theorem becomes_systemNext (hs : s.Regular) : Becomes g now s s.systemNext :=
  .of_essence rfl ⟨hs.platform, hs.anchored, hs.round, hs.synced⟩

theorem isOpen_of_validAt (h : s.validAt now = true) : s.opened = true := state_of_validAt h

/-- After it has settled, the clock is open exactly when it is valid. -/
theorem settled_opened (hs : s.Regular) : (s.settled inp now).opened = s.validAt now := by
  unfold PlatformTime.settled
  cases ho : s.opened with
  | true =>
      rw [expires_eq_not_validAt hs.platform ho]
      cases s.validAt now with
      | true => cases hsync : s.sessionSynced <;> rfl
      | false => rfl
  | false =>
      have hv : s.validAt now = false := by
        rw [← Bool.not_eq_true]
        intro h
        rw [isOpen_of_validAt h] at ho
        cases ho
      have he : s.expires now = false := by
        have hst : (s.state == .synced || s.state == .holdover) = false := ho
        simp [PlatformTime.expires, hst]
      simp [he, hv, ho]

theorem becomes_settled (hs : s.Regular) : Becomes g now s (s.settled inp now) := by
  have hopen : (s.settled inp now).opened = s.validAt now := settled_opened hs
  unfold PlatformTime.settled at hopen ⊢
  by_cases he : s.expires now = true
  · rw [if_pos he]
    exact becomes_bumped_shut hs rfl
  · rw [if_neg he] at hopen ⊢
    by_cases hv : s.validAt now = true
    · rw [if_pos hv] at hopen ⊢
      have ho : s.opened = true := isOpen_of_validAt hv
      refine ⟨⟨le_rfl, le_rfl, fun _ _ => hopen.trans hv, fun _ _ => .inl ho,
          fun h => .inl ⟨h, rfl, rfl⟩, fun h => .inl ⟨h, fun _ => ⟨rfl, rfl⟩⟩,
          fun h => .inl ⟨h, fun _ => ⟨rfl, rfl⟩⟩⟩,
        fun _ _ => .inr ⟨rfl, rfl, .inl rfl⟩, hs.platform, fun _ => hs.anchored ho, hs.round, fun h => ?_⟩
      exact if_pos h
    · rw [if_neg hv]
      exact .refl hs

/-! ## Rounds -/

/-- What may become of the offers of a round at `now`. -/
def PlatformTime.Offers (s : PlatformTime) (now : ℤ) (r a : Prop) : Prop :=
  ∀ o ∈ s.offer s.candidates now, a ∧ ((s.slew now).resumesOn o = true → r)

theorem wp_anchor_evolves {r a : Prop} {target error : ℚ} {single : Bool} (hs : s.Regular)
    (hnow : s.lastMono = now) (ha : a)
    (hr : (s.state == .suspect || s.state == .maintenance) = true → s.utc.isSome = true → r) :
    wp (PlatformTime.anchor inp target error now single)
      (fun _ s' => Becomes ⟨r, a, False, False⟩ now s s')
      (fun _ s' => Becomes ⟨r, False, False, False⟩ now s s') s := by
  simp only [PlatformTime.anchor, PlatformTime.drawJitter, wp_bind, wp_get, wp_modify, wp_ite,
    wp_bump, wp_pure]
  refine ⟨fun hcond => ?_, fun hcond => ?_⟩
  · -- Anchored again: the clock was not open, and there is a new revision.
    have ho : s.opened = false := by
      rw [← Bool.not_eq_true]
      intro ho
      rcases hcond with hu | hst | hst | hst
      · exact hs.anchored ho hu
      all_goals
        rw [PlatformTime.opened, hst] at ho
        cases ho
    have habs : ∀ {P : Prop}, s.opened = true → P := fun h => by rw [ho] at h; cases h
    refine ⟨fun _ => ⟨fun _ => ?_, fun _ => ?_⟩, fun _ => .refl hs⟩
    all_goals
      refine ⟨⟨(Int.lt_succ s.revision).le, le_rfl, fun _ h => habs h,
        fun he => absurd he (Int.lt_succ s.revision).ne', fun _ => .inr ha,
        fun h => .inl ⟨h, fun h => habs h⟩, fun h => .inl ⟨h, fun h => habs h⟩⟩,
        fun _ h => habs h, hs.platform, fun _ => Option.some_ne_none _, hs.round, fun _ => rfl⟩
  · -- Slewed: the same revision.
    have hu : s.utc ≠ none := fun h => hcond (.inl h)
    have hback : s.opened = true ∨ r := by
      by_cases hst : (s.state == .suspect || s.state == .maintenance) = true
      · exact .inr (hr hst (Option.isSome_iff_ne_none.mpr hu))
      · refine .inl ?_
        unfold PlatformTime.opened
        cases hst' : s.state <;> simp [hst'] at hcond hst ⊢ <;> rfl
    refine ⟨fun _ => ?_, fun _ => ?_⟩
    all_goals
      refine ⟨⟨le_rfl, le_rfl, fun _ _ => rfl, fun _ _ => hback,
        fun _ => .inr ha, fun h => .inl ⟨h, fun _ => ⟨rfl, rfl⟩⟩,
        fun h => .inl ⟨h, fun _ => ⟨rfl, rfl⟩⟩⟩,
        fun _ _ => .inr ⟨rfl, rfl, .inr hnow⟩, hs.platform, fun _ => hu, hs.round, fun _ => rfl⟩

theorem wp_confirm_evolves {r a : Prop} {target error : ℚ} {single : Bool} (hs : s.Regular)
    (hc : s.state.closed = true) (hnow : s.lastMono = now) (ha : a) :
    wp (PlatformTime.confirm inp target error now single)
      (fun _ s' => Becomes ⟨r, a, False, False⟩ now s s')
      (fun _ s' => Becomes ⟨r, False, False, False⟩ now s s') s := by
  have ho : s.opened = false := not_opened_of_closed hc
  simp only [PlatformTime.confirm, wp_bind, wp_get, wp_ite, wp_bump, wp_modify,
    PlatformTime.requireMaintenance]
  refine ⟨fun _ => ⟨fun _ => ?_, fun _ => ⟨fun _ => ?_, fun _ => .refl hs⟩⟩, fun _ => ?_⟩
  · exact (wp_invalidate_evolves hs rfl).mono (fun _ _ h => h.1.any) fun _ _ h => h.any
  · -- The anchor is dropped with a new revision, and set with another one.
    have habs : ∀ {P : Prop}, s.opened = true → P := fun h => by rw [ho] at h; cases h
    have hdrop : Becomes {} now s { s.bumped inp with utc := none } := by
      refine ⟨⟨(Int.lt_succ s.revision).le, le_rfl, fun _ h => habs h,
        fun he => absurd he (Int.lt_succ s.revision).ne', fun h => ?_,
        fun h => .inl ⟨h, fun h => habs h⟩, fun h => .inl ⟨h, fun h => habs h⟩⟩,
        fun _ h => habs h, hs.platform, fun h => habs h, hs.round, hs.synced⟩
      exact habs (hs.opened_of_synced h)
    refine (wp_anchor_evolves hdrop.regular hnow ha ?_).mono
      (fun _ _ h => hdrop.any.trans h) fun _ _ h => hdrop.any.trans h
    exact fun _ h => Bool.noConfusion h
  · exact .of_essence rfl ⟨hs.platform, hs.anchored, hs.round, hs.synced⟩

theorem wp_adopt_evolves {r a : Prop} {target error : ℚ} {single : Bool} (hs : s.Regular)
    (hle : s.lastObservedMono ≤ now) (ha : a)
    (hr : (s.slew now).resumesOn (target, error) = true → r) :
    wp (PlatformTime.adopt inp target error now single)
      (fun _ s' => Becomes ⟨r, a, False, False⟩ now s s')
      (fun _ s' => Becomes ⟨r, False, False, False⟩ now s s') s := by
  have hm : Becomes {} now s (s.slew now) := becomes_slew hs
  simp only [PlatformTime.adopt, wp_bind, wp_advance_of_le hle, wp_get, wp_ite,
    PlatformTime.requireMaintenance]
  refine ⟨fun _ => ?_, fun hrb => ⟨fun _ => ?_, fun hj => ?_⟩⟩
  · exact (wp_invalidate_evolves hm.regular rfl).mono (fun _ _ h => (hm.trans h.1).any)
      fun _ _ h => (hm.trans h).any
  · refine (wp_invalidate_evolves hm.regular rfl).mono ?_ fun _ _ h => (hm.trans h).any
    rintro _ s' ⟨h, hc, hl⟩
    exact (wp_confirm_evolves h.regular hc (hl.trans (slew_lastMono now)) ha).mono
      (fun _ _ h' => (hm.trans h).any.trans h') fun _ _ h' => (hm.trans h).any.trans h'
  · refine (wp_anchor_evolves hm.regular (slew_lastMono now) ha fun hst hu => hr ?_).mono
      (fun _ _ h => hm.any.trans h) fun _ _ h => hm.any.trans h
    simp [PlatformTime.resumesOn, hst, hu, hrb, hj]

/-- A round that ends has nothing left open. -/
theorem wp_finishRound_evolves {r a : Prop} (hs : s.Regular) (hle : s.lastObservedMono ≤ now)
    (hof : s.Offers now r a) :
    wp (PlatformTime.finishRound inp now)
      (fun _ s' => Becomes ⟨r, a, False, False⟩ now s s' ∧ s'.roundStart = none ∧ s'.pending = none)
      (fun _ s' => Becomes ⟨r, False, False, False⟩ now s s') s := by
  simp only [PlatformTime.finishRound, wp_bind, wp_get]
  split
  · rename_i c hc
    obtain ⟨ha, hr⟩ := hof (c.targetAt now, c.errorAt s.driftPpm now)
      (by simp [PlatformTime.offer, hc])
    rw [wp_bind]
    refine (wp_adopt_evolves hs hle ha hr).mono ?_ fun _ _ h => h
    intro _ s' h
    exact ⟨h.trans (.of_essence rfl ⟨h.regular.platform, h.regular.anchored,
      fun hp => absurd rfl hp, h.regular.synced⟩), rfl, rfl⟩
  · simp only [PlatformTime.drawJitter, wp_bind, wp_get, wp_modify, wp_pure]
    refine ⟨?_, trivial, trivial⟩
    by_cases hu : s.utc = none ∧ s.state ≠ .maintenance
    · -- Without an anchor the clock was not open.
      have ho : s.opened = false := by
        rw [← Bool.not_eq_true]
        exact fun h => hs.anchored h hu.1
      have habs : ∀ {P : Prop}, s.opened = true → P := fun h => by rw [ho] at h; cases h
      rw [if_pos hu]
      refine ⟨⟨le_rfl, le_rfl, fun _ h => habs h, fun _ h => Bool.noConfusion h,
        fun h => habs (hs.opened_of_synced h), fun h => .inl ⟨h, fun h => habs h⟩,
        fun h => .inl ⟨h, fun h => habs h⟩⟩, fun _ h => habs h, hs.platform, fun h => Bool.noConfusion h, fun hp => absurd rfl hp,
        fun h => habs (hs.opened_of_synced h)⟩
    · rw [if_neg hu]
      exact .of_essence rfl ⟨hs.platform, hs.anchored, fun hp => absurd rfl hp, hs.synced⟩

/-- Issuing in a round that is not over does not raise. -/
theorem wp_issue_evolves (hs : s.Regular) (hp : s.pending = none)
    (hover : s.roundOver now = false) :
    wp (PlatformTime.issue inp now) (fun _ s' => Becomes {} now s s') (fun _ _ => False) s := by
  simp only [PlatformTime.issue, PlatformTime.freshId, wp_bind, wp_get, wp_ite, wp_pure, wp_modify]
  refine ⟨fun _ => .refl hs, fun _ => ⟨fun hr => ⟨fun h => ?_, fun h => ?_⟩,
    fun hr => ⟨fun h => ?_, fun h => ?_⟩⟩⟩
  · exfalso
    simp at h
  · by_cases hu : s.utc = none
    · have ho : s.opened = false := by
        rw [← Bool.not_eq_true]
        exact fun h => hs.anchored h hu
      have habs : ∀ {P : Prop}, s.opened = true → P := fun h => by rw [ho] at h; cases h
      rw [if_pos hu]
      exact ⟨⟨le_rfl, le_rfl, fun _ h => habs h, fun _ h => Bool.noConfusion h,
        fun h => habs (hs.opened_of_synced h), fun h => .inl ⟨h, fun h => habs h⟩,
        fun h => .inl ⟨h, fun h => habs h⟩⟩, fun _ h => habs h, hs.platform, fun h => Bool.noConfusion h,
        fun _ => Option.some_ne_none now, fun h => habs (hs.opened_of_synced h)⟩
    · rw [if_neg hu]
      exact .of_essence rfl ⟨hs.platform, hs.anchored, fun _ => Option.some_ne_none now, hs.synced⟩
  · -- The open round would have been over.
    exfalso
    obtain ⟨start, hst⟩ := Option.ne_none_iff_exists'.mp hr
    simp only [PlatformTime.roundOver, hst, hp, Option.isNone_none, Bool.and_true,
      Bool.or_eq_false_iff, decide_eq_false_iff_not] at hover
    simp only [hst, Option.getD_some] at h
    omega
  · exact .of_essence rfl ⟨hs.platform, hs.anchored, fun _ => hr, hs.synced⟩

/-- End the round, then issue. -/
theorem wp_finishRound_issue {r a : Prop} {next : TimeProg (Option TimeRequest)}
    (hnext : ∀ Q E (s' : PlatformTime), s'.pending = none →
      (wp next Q E s' ↔ wp (PlatformTime.issue inp now) Q E s'))
    (hs : s.Regular) (hle : s.lastObservedMono ≤ now) (hof : s.Offers now r a) :
    wp (PlatformTime.finishRound inp now)
      (fun _ => wp next (fun _ s' => Becomes ⟨r, a, False, False⟩ now s s')
        (fun _ s' => Becomes ⟨r, False, False, False⟩ now s s'))
      (fun _ s' => Becomes ⟨r, False, False, False⟩ now s s') s := by
  refine (wp_finishRound_evolves hs hle hof).mono ?_ fun _ _ h => h
  rintro _ s' ⟨h, hstart, hp⟩
  rw [hnext _ _ s' hp]
  refine (wp_issue_evolves h.regular hp ?_).mono (fun _ _ h' => h.trans h'.any) fun _ _ h => h.elim
  simp [PlatformTime.roundOver, hstart]

/-- `ask`, in a round that is not over. -/
theorem wp_ask_evolves {r a : Prop} (hs : s.Regular) (hle : s.lastObservedMono ≤ now)
    (hover : s.roundOver now = false)
    (hof : ∀ p, s.pending = some p → p.clientMonoMs + 2000 ≤ now → 10 ≤ s.attempts →
      s.Offers now r a) :
    wp (PlatformTime.ask inp now) (fun _ s' => Becomes ⟨r, a, False, False⟩ now s s')
      (fun _ s' => Becomes ⟨r, False, False, False⟩ now s s') s := by
  have hissue : ∀ σ : PlatformTime, Becomes {} now s σ → σ.pending = none →
      σ.roundOver now = false →
      wp (PlatformTime.issue inp now) (fun _ s' => Becomes ⟨r, a, False, False⟩ now s s')
        (fun _ s' => Becomes ⟨r, False, False, False⟩ now s s') σ := by
    intro σ h hp hover
    exact (wp_issue_evolves h.regular hp hover).mono (fun _ _ h' => (h.trans h').any)
      fun _ _ h => h.elim
  simp only [PlatformTime.ask, wp_bind, wp_get]
  cases hp : s.pending with
  | none => exact hissue s (.refl hs) hp hover
  | some p =>
      simp only [wp_ite, wp_pure, PlatformTime.retry, wp_bind, wp_modify, wp_get]
      refine ⟨fun _ => .refl hs, fun hw => ?_⟩
      have hdrop : Becomes {} now s { s with pending := none } :=
        .of_essence rfl ⟨hs.platform, hs.anchored, fun h => absurd rfl h, hs.synced⟩
      refine ⟨fun ha => ?_, fun ha => hissue _ hdrop rfl ?_⟩
      · refine (wp_finishRound_issue (fun _ _ _ _ => Iff.rfl) hdrop.regular hle ?_).mono
          (fun _ _ h => h.mono (fun _ _ h => hdrop.any.trans h) fun _ _ h => hdrop.any.trans h)
          fun _ _ h => hdrop.any.trans h
        intro o ho
        refine ⟨(hof p hp (not_lt.mp hw) ha o ho).1, fun hr => (hof p hp (not_lt.mp hw) ha o ho).2 ?_⟩
        rw [← hr]
        unfold PlatformTime.slew
        cases s.utc <;> rfl
      · unfold PlatformTime.roundOver at hover ⊢
        cases hr : s.roundStart with
        | none => rfl
        | some start =>
            rw [hr] at hover
            simp_all

/-! ## Snapshots -/

/-- An offer to a clock that has just been settled is judged as before. -/
theorem resumesOn_settled (o : ℚ × ℚ) :
    ((((s.slew now).readNext.settled inp now).systemNext).slew now).resumesOn o
      = (s.slew now).resumesOn o := by
  have hfr := settled_frame inp (s.slew now).readNext now
  have hutc : ((((s.slew now).readNext.settled inp now).systemNext).slew now).utc
      = (s.slew now).utc := by
    rw [slew_utc_same, ← slew_utc_fl s now]
    · rw [PlatformTime.systemNext, hfr]
      rfl
    · rw [PlatformTime.systemNext, hfr]
      exact slew_lastMono now
  have hfloor : ((((s.slew now).readNext.settled inp now).systemNext).slew now).floor
      = (s.slew now).floor := by
    rw [slew_frame, PlatformTime.systemNext, hfr]
    rfl
  -- The check at a reading moves neither into `SUSPECT` or `MAINTENANCE` nor out of them.
  have hstate : ∀ m : PlatformTime,
      ((m.settled inp now).state == .suspect || (m.settled inp now).state == .maintenance)
        = (m.state == .suspect || m.state == .maintenance) := by
    intro m
    unfold PlatformTime.settled
    by_cases he : m.expires now = true
    · have hc := closed_of_expires he
      rw [if_pos he]
      cases hst : m.state <;> first | rfl | (rw [hst] at hc; cases hc)
    · rw [if_neg he]
      by_cases hv : m.validAt now = true
      · have ho := open_of_validAt hv
        rw [if_pos hv]
        cases hst : m.state <;> cases hsync : m.sessionSynced <;>
          first | rfl | (rw [hst] at ho; cases ho)
      · rw [if_neg hv]
  have hst : ((((s.slew now).readNext.settled inp now).systemNext).slew now).state
      = ((s.slew now).readNext.settled inp now).state := by
    rw [state_slew]
    rfl
  have hst' : (s.slew now).readNext.state = (s.slew now).state := rfl
  simp only [PlatformTime.resumesOn, PlatformTime.rollsBack, PlatformTime.jumps, hutc, hfloor, hst,
    hstate, hst']

/-- What a snapshot shows of the state it leaves. -/
structure Seen (now : ℤ) (s : PlatformTime) (t : TimeSnapshot) (σ : PlatformTime) : Prop where
  mono : t.monoMs = now
  boot : t.bootId = σ.bootId
  revision : t.clockRevision = σ.revision
  connection : t.connectionRevision = σ.connectionRevision
  valid : t.timeValid = σ.opened
  kept : t.timeValid = true → σ.revision = s.revision
  registers : σ.registers = (s.slew now).registers
  looks : LooksAt s σ now
  maintenance : s.state = .maintenance → σ.state = .maintenance
  connected : σ.connectionRevision = s.connectionRevision
  resumesOn : ∀ o, (σ.slew now).resumesOn o = (s.slew now).resumesOn o

theorem wp_snapshot_evolves (hs : s.Regular) (hle : s.lastObservedMono ≤ inp.mono s.reads.mono) :
    wp (PlatformTime.snapshot inp)
      (fun t σ => Becomes {} (inp.mono s.reads.mono) s σ ∧ Seen (inp.mono s.reads.mono) s t σ)
      (fun _ σ => Becomes {} (inp.mono s.reads.mono) s σ) s := by
  generalize hnow : inp.mono s.reads.mono = now at hle ⊢
  have hm : Becomes {} now s (s.slew now).readNext :=
    Becomes.trans (becomes_slew hs) (becomes_readNext (becomes_slew hs (g := {})).regular)
  have hle' : s.readNext.lastObservedMono ≤ now := hle
  rw [wp_snapshot, hnow, wp_advance_of_le hle', slew_readNext]
  refine ⟨fun _ _ => hm, fun hfresh => ?_⟩
  have hset : Becomes {} now s ((s.slew now).readNext.settled inp now) :=
    hm.trans (becomes_settled hm.regular)
  refine ⟨hset.trans (becomes_systemNext hset.regular), ?_⟩
  constructor
  case mono => rfl
  case boot => rfl
  case revision => rfl
  case connection => rfl
  case valid => exact (settled_opened hm.regular).symm
  case kept =>
      intro hv
      have hv' : (s.slew now).readNext.validAt now = true := hv
      rw [settled_of_validAt inp hv', slew_frame]
      rfl
  case registers => exact (settled_registers now).trans rfl
  case looks => exact looksAt_settled hfresh
  case maintenance =>
      intro hst
      have hst' : (s.slew now).readNext.state = .maintenance := (state_slew now).trans hst
      rw [settled_of_maintenance hst']
      exact hst'
  case resumesOn => exact resumesOn_settled
  case connected =>
      rw [PlatformTime.systemNext, settled_frame, slew_frame]
      rfl

/-- In the revision of an open clock, the snapshot taken at the start was valid. -/
def PlatformTime.Shows (inp : Inputs) (s s' : PlatformTime) : Prop :=
  ∀ t ∈ s.observe inp, s'.revision = s.revision → s.opened = true → t.timeValid = true

theorem observe_of_ok {t : TimeSnapshot} {σ : PlatformTime}
    (h : (PlatformTime.snapshot inp).run s = (.ok t, σ)) : s.observe inp = [t] := by
  rw [PlatformTime.observe, h]

theorem observe_of_error {e : TimeError} {σ : PlatformTime}
    (h : (PlatformTime.snapshot inp).run s = (.error e, σ)) : s.observe inp = [] := by
  rw [PlatformTime.observe, h]

/-- What follows a snapshot continues from the state it leaves. -/
theorem wp_snapshot_then {β : Type} {f : TimeSnapshot → TimeProg β} {k : Grants}
    {P : β → PlatformTime → Prop} (hs : s.Regular)
    (hle : s.lastObservedMono ≤ inp.mono s.reads.mono)
    (hf : ∀ t σ, Becomes {} (inp.mono s.reads.mono) s σ → Seen (inp.mono s.reads.mono) s t σ →
      wp (f t) (fun b s' => Becomes g (inp.mono s.reads.mono) σ s' ∧ P b s')
        (fun _ s' => Becomes k (inp.mono s.reads.mono) σ s') σ) :
    wp (PlatformTime.snapshot inp >>= f)
      (fun b s' => Becomes g (inp.mono s.reads.mono) s s' ∧ s.Shows inp s' ∧ P b s')
      (fun _ s' => Becomes k (inp.mono s.reads.mono) s s' ∧ s.Shows inp s') s := by
  rw [wp_bind]
  refine (wp_snapshot_evolves hs hle).run.mono ?_ ?_
  · rintro t σ ⟨⟨h, hseen⟩, hrun⟩
    have hshows : ∀ s' : PlatformTime, σ.revision ≤ s'.revision → s.Shows inp s' := by
      intro s' hrev t' ht' he ho
      rw [observe_of_ok hrun, List.mem_singleton] at ht'
      rw [ht', hseen.valid]
      have := h.evolves.revision
      exact h.evolves.stays (by omega) ho
    exact (hf t σ h hseen).mono
      (fun _ s' h' => ⟨h.any.trans h'.1, hshows s' h'.1.evolves.revision, h'.2⟩)
      fun _ s' h' => ⟨h.any.trans h', hshows s' h'.evolves.revision⟩
  · rintro e σ ⟨h, hrun⟩
    refine ⟨h.any, fun t ht => ?_⟩
    rw [observe_of_error hrun] at ht
    cases ht

end Helpers

/-! ## Calls -/

section Calls

variable [Rounding] {inp : Inputs} {s : PlatformTime}

/-- A request evolves the state; it adopts only the round it offers. -/
theorem wp_request_evolves (hs : s.Regular) (hle : s.lastObservedMono ≤ inp.mono s.reads.mono)
    {r a : Prop}
    (hof : ∀ o ∈ s.requestOffer (inp.mono s.reads.mono),
      a ∧ ((s.slew (inp.mono s.reads.mono)).resumesOn o = true → r)) :
    wp (PlatformTime.request inp)
      (fun _ s' => Becomes ⟨r, a, False, False⟩ (inp.mono s.reads.mono) s s' ∧ s.Shows inp s' ∧ True)
      (fun _ s' => Becomes ⟨r, False, False, False⟩ (inp.mono s.reads.mono) s s' ∧ s.Shows inp s')
      s := by
  unfold PlatformTime.request
  refine wp_snapshot_then hs hle fun t σ h hseen => ?_
  generalize inp.mono s.reads.mono = now at *
  have hσ := h.regular
  have hL := hseen.looks
  rw [hseen.mono]
  simp only [wp_bind, wp_get, wp_ite, wp_pure, and_true]
  refine ⟨fun _ => .refl hσ, fun hask => ?_⟩
  simp only [Bool.or_eq_true, Bool.not_eq_true', not_or] at hask
  obtain ⟨⟨-, hsess⟩, hst⟩ := hask
  have hσl : σ.lastObservedMono ≤ now := hL.last.le
  -- The offers of the settled clock are those of the state before the call.
  have hoffers : s.closesRound now = true → σ.Offers now r a := by
    intro hcl o ho
    rw [hL.offer] at ho
    rw [hseen.resumesOn]
    have hmaint : s.state ≠ .maintenance := fun hm => hst (beq_iff_eq.mpr (hseen.maintenance hm))
    apply hof
    unfold PlatformTime.requestOffer
    rw [if_pos]
    · exact ho
    · rw [hL.session, Option.isNone_iff_eq_none] at hsess
      simp [Option.isSome_iff_ne_none.mpr hsess, hmaint, hle, hcl]
  refine ⟨fun hover => ?_, fun hover => ?_⟩
  · exact wp_finishRound_issue (fun _ _ _ h => wp_ask_of_idle h) hσ hσl
      (hoffers (hL.closesRound_of_over hover))
  · exact wp_ask_evolves hσ hσl (by simpa using hover) fun p hp hw ha =>
      hoffers (hL.closesRound_of_stale hσ.round hp hw ha)

/-- A response evolves the state; it adopts only the round it completes. -/
theorem wp_response_evolves [JsonSchema] {payload : Bytes} {received : ℤ} {session : Option PyStr}
    {retained : Bool} (hs : s.Regular) (hle : s.lastObservedMono ≤ inp.mono s.reads.mono)
    {r a : Prop}
    (hof : ∀ o ∈ s.responseOffer (inp.mono s.reads.mono) payload received session retained,
      a ∧ ((s.slew (inp.mono s.reads.mono)).resumesOn o = true → r)) :
    wp (PlatformTime.response inp payload received session retained)
      (fun _ s' => Becomes ⟨r, a, False, False⟩ (inp.mono s.reads.mono) s s')
      (fun _ s' => Becomes ⟨r, False, False, False⟩ (inp.mono s.reads.mono) s s') s := by
  simp only [PlatformTime.response, wp_bind, wp_readMono, wp_get]
  generalize inp.mono s.reads.mono = now at *
  have hj : s.readNext.judge now payload received session retained
      = s.judge now payload received session retained := rfl
  rw [hj]
  rcases hv : s.judge now payload received session retained with e | ⟨reason⟩ | ⟨reason⟩ | ⟨c⟩
  · exact becomes_readNext hs
  · exact .of_essence rfl ⟨hs.platform, hs.anchored, hs.round, hs.synced⟩
  · exact .of_essence rfl ⟨hs.platform, hs.anchored, fun h => absurd rfl h, hs.synced⟩
  · simp only [PlatformTime.accept, wp_bind, wp_modify, wp_get, wp_ite, wp_pure]
    have hadd : Becomes {} now s
        { s.readNext with candidates := s.readNext.candidates ++ [c], pending := none } :=
      .of_essence rfl ⟨hs.platform, hs.anchored, fun h => absurd rfl h, hs.synced⟩
    refine ⟨fun hlen => ?_, fun _ => hadd.any⟩
    have hlen' : 3 ≤ (s.candidates ++ [c]).length := hlen
    refine (wp_finishRound_evolves hadd.regular hle fun o ho => ?_).mono
      (fun _ _ h => hadd.any.trans h.1) fun _ _ h => hadd.any.trans h
    obtain ⟨ha, hr⟩ := hof o (by simp only [PlatformTime.responseOffer, hv, if_pos hlen']; exact ho)
    refine ⟨ha, fun hres => hr ?_⟩
    rw [← hres]
    unfold PlatformTime.slew
    cases hu : s.utc <;> simp only [PlatformTime.readNext, hu] <;> rfl

theorem wp_valid_evolves {token : Option TimeToken} {purpose : Purpose} (hs : s.Regular)
    (hle : s.lastObservedMono ≤ inp.mono s.reads.mono) :
    wp (PlatformTime.valid inp token purpose)
      (fun b σ => Becomes {} (inp.mono s.reads.mono) s σ ∧ s.Shows inp σ ∧
        ∃ t, Seen (inp.mono s.reads.mono) s t σ ∧
          b = (σ.current (inp.mono s.reads.mono) token && σ.permits t purpose))
      (fun _ σ => Becomes {} (inp.mono s.reads.mono) s σ ∧ s.Shows inp σ) s := by
  unfold PlatformTime.valid
  refine wp_snapshot_then hs hle fun t σ h hseen => ?_
  simp only [wp_bind, wp_get, wp_pure]
  exact ⟨.refl h.regular, t, hseen, by rw [hseen.mono]⟩

/-- What is known about the readings between calls. -/
abbrev Timed (inp : Inputs) (s : PlatformTime) : Prop :=
  Tracks inp (fun _ _ _ => True) s.driftPpm s

omit [Rounding] in
theorem Timed.le (h : Timed inp s) : s.lastObservedMono ≤ inp.mono s.reads.mono :=
  h.observed ▸ h.ahead _ le_rfl

omit [Rounding] in
theorem Timed.later (h : Timed inp s) : s.lastMono ≤ inp.mono s.reads.mono := h.ahead _ le_rfl

/-- The state after an operation, with what its snapshots showed. -/
structure Performed (inp : Inputs) (g : Grants) (s : PlatformTime) (seen : List TimeSnapshot)
    (s' : PlatformTime) : Prop where
  evolves : Evolves g s s'
  ran : s'.revision = s.revision → s.opened = true → RanOn s s'
  regular : s'.Regular
  shows : ∀ t ∈ seen, s'.revision = s.revision → s.opened = true → t.timeValid = true

theorem Becomes.performed {g : Grants} {now : ℤ} {s' : PlatformTime} (h : Becomes g now s s')
    (hle : s.lastMono ≤ now) {seen : List TimeSnapshot}
    (hshows : ∀ t ∈ seen, s'.revision = s.revision → s.opened = true → t.timeValid = true) :
    Performed inp g s seen s' :=
  ⟨h.evolves, fun he ho => (h.ran he ho).ranOn hle, h.regular, hshows⟩

/-- An operation that takes no snapshot. -/
theorem Becomes.unseen {g : Grants} {now : ℤ} {s' : PlatformTime} (h : Becomes g now s s')
    (hle : s.lastMono ≤ now) : Performed inp g s [] s' :=
  h.performed hle fun _ ht => absurd ht List.not_mem_nil

/-- A gate that passed: the clock it was checked on, and the one it returns. -/
structure Gated (inp : Inputs) (s : PlatformTime) (token : Option TimeToken) (purpose : Purpose)
    (t : TimeSnapshot) (σ : PlatformTime) : Prop where
  checked : ∃ σ₁ t₁, Becomes {} (inp.mono s.reads.mono) s σ₁ ∧
    Seen (inp.mono s.reads.mono) s t₁ σ₁ ∧ σ₁.current (inp.mono s.reads.mono) token = true ∧
    σ₁.permits t₁ purpose = true ∧ Becomes {} (inp.mono σ₁.reads.mono) σ₁ σ ∧
    Seen (inp.mono σ₁.reads.mono) σ₁ t σ

/-- The clock that ran on over two readings. -/
theorem ran_later {σ s' : PlatformTime} {a b : ℤ} (hreg : σ.registers = (s.slew a).registers)
    (h : Ran b σ s') (hl : s.lastMono ≤ a) (hab : a ≤ b) : RanOn s s' := by
  have hslew := slew_registers_congr hreg b
  simp only [PlatformTime.registers, Prod.mk.injEq] at hreg hslew
  rcases h with ⟨hl', hu'⟩ | ⟨hl', hu', -⟩
  · refine ⟨[a, b], .cons_cons hl (.cons_cons hab (.singleton b)), ?_, ?_⟩
    · exact hl'.trans (slew_lastMono b).symm
    · exact hu'.trans hslew.2.2.2.2.1
  · refine ⟨[a], .cons_cons hl (.singleton a), ?_, ?_⟩
    · exact hl'.trans hreg.2.2.2.1
    · exact hu'.trans hreg.2.2.2.2.1

theorem wp_valid_timed (hmono : Monotone inp.mono) {token : Option TimeToken} {purpose : Purpose}
    (ht : Timed inp s) :
    wp (PlatformTime.valid inp token purpose)
      (fun _ σ => Tracking inp (fun _ _ _ => True) s.driftPpm (inp.mono s.reads.mono) σ)
      (fun _ _ => True) s := by
  simp only [PlatformTime.valid, wp_bind, wp_get, wp_pure]
  have hread : wp (PlatformTime.snapshot inp) (fun t _ => t.monoMs = inp.mono s.reads.mono)
      (fun _ _ => True) s := by
    rw [wp_snapshot]
    exact (wp_iff_run _).mpr ⟨fun _ _ _ => ⟨fun _ _ => trivial, fun _ => rfl⟩, fun _ _ _ => trivial⟩
  refine ((wp_snapshot_tracking hmono trackable_true ht).and hread).mono ?_ fun _ _ _ => trivial
  rintro t σ ⟨⟨h, -⟩, hm⟩
  rwa [hm] at h

/-- `require` takes its second snapshot in the state that the check left. -/
theorem wp_require_evolves (hmono : Monotone inp.mono) {token : Option TimeToken}
    {purpose : Purpose} (hs : s.Regular) (ht : Timed inp s) :
    wp (PlatformTime.require inp token purpose)
      (fun t σ => Performed inp {} s (s.observeGate inp token purpose) σ ∧
        Gated inp s token purpose t σ)
      (fun _ σ => Performed inp {} s (s.observeGate inp token purpose) σ) s := by
  have hobs : ∀ {σ : PlatformTime}, s.Shows inp σ → ∀ more : List TimeSnapshot,
      (∀ t ∈ more, σ.revision = s.revision → s.opened = true → t.timeValid = true) →
      ∀ t ∈ s.observe inp ++ more, σ.revision = s.revision → s.opened = true →
        t.timeValid = true := by
    intro σ hshow more hmore t hmem
    rcases List.mem_append.mp hmem with h | h
    · exact hshow t h
    · exact hmore t h
  simp only [PlatformTime.require, wp_bind, wp_get, wp_check]
  refine ⟨fun hguard => ?_, fun hguard => ?_⟩
  · have hgate : s.observeGate inp token purpose = s.observe inp ++ _ := if_neg hguard
    rw [hgate]
    refine (((wp_valid_evolves hs ht.le).and (wp_valid_timed hmono ht)).run).mono ?_ ?_
    · rintro b σ ⟨⟨⟨h, hshow, t, hseen, hb⟩, htrack, hat⟩, hrun⟩
      rw [hrun]
      cases b with
      | false =>
          exact ⟨fun h => Bool.noConfusion h, fun _ => h.performed ht.later (hobs hshow [] (by simp))⟩
      | true =>
          refine ⟨fun _ => ?_, fun h => absurd rfl h⟩
          have hpass := Bool.and_eq_true_iff.mp hb.symm
          have hle : σ.lastObservedMono ≤ inp.mono σ.reads.mono := by
            rw [hseen.looks.last]
            exact hat.next _ le_rfl
          -- The second reading comes from where the first one ended.
          have hrest : ∀ s' : PlatformTime, Becomes {} (inp.mono σ.reads.mono) σ s' →
              σ.Shows inp s' → Performed inp {} s (s.observe inp ++ σ.observe inp) s' := by
            intro s' h' hshow'
            refine ⟨h.evolves.trans h'.evolves, fun he ho => ?_, h'.regular, ?_⟩
            · obtain ⟨h1, h2⟩ := h.evolves.middle h'.evolves he
              exact ran_later hseen.registers (h'.ran h2 (h.evolves.stays h1 ho))
                (ht.ahead _ le_rfl) (hat.next _ le_rfl)
            · intro t' hmem he ho
              obtain ⟨h1, h2⟩ := h.evolves.middle h'.evolves he
              rcases List.mem_append.mp hmem with hm | hm
              · exact hshow t' hm h1 ho
              · exact hshow' t' hm h2 (h.evolves.stays h1 ho)
          have hnext := wp_snapshot_then (g := {}) (k := {}) (f := pure)
            (P := fun t' s' => Seen (inp.mono σ.reads.mono) σ t' s') h.regular hle
            fun t' s' h' hseen' => ⟨.refl h'.regular, hseen'⟩
          simp only [wp_bind, wp_pure] at hnext
          refine hnext.mono ?_ fun _ s' h' => hrest s' h'.1 h'.2
          rintro t' s' ⟨h', hshow', hseen'⟩
          exact ⟨hrest s' h' hshow', σ, t, h, hseen, hpass.1, hpass.2, h', hseen'⟩
    · rintro e σ ⟨⟨⟨h, hshow⟩, -⟩, hrun⟩
      rw [hrun]
      exact h.performed ht.later (hobs hshow [] (by simp))
  · have hgate : s.observeGate inp token purpose = [] := if_pos (by simpa using hguard)
    rw [hgate]
    exact Becomes.unseen (.refl hs) le_rfl

/-! ## Operations -/

/-- What an operation may bring about when it returns. -/
def TimeOp.grants [JsonSchema] (inp : Inputs) (s : PlatformTime) (op : TimeOp) : Grants where
  resumed := op.resumes inp s = true
  adopted := (op.offer inp s).isSome = true
  heartbeat := ∃ token, op = .call (.controlSubmitted .heartbeat token)
  config := (∃ token, op = .call (.controlSubmitted .configGet token)) ∧
    s.heartbeatSubmitted = true

/-- What it may bring about when it raises. -/
def TimeOp.lapses [JsonSchema] (inp : Inputs) (s : PlatformTime) (op : TimeOp) : Grants where
  resumed := op.resumes inp s = true

theorem Performed.any {g : Grants} {seen : List TimeSnapshot} {s' : PlatformTime}
    (h : Performed inp {} s seen s') : Performed inp g s seen s' :=
  ⟨h.evolves.weaken False.elim False.elim False.elim False.elim, h.ran, h.regular, h.shows⟩

theorem wp_connect_evolves {session : PyStr} (hs : s.Regular) :
    wp (PlatformTime.connect session)
      (fun _ s' => Performed inp {} s [] s' ∧ s.connectionRevision < s'.connectionRevision)
      (fun _ s' => Performed inp {} s [] s') s := by
  have hsame : Performed inp {} s [] s := Becomes.unseen (.refl hs) le_rfl
  simp only [PlatformTime.connect, wp_bind, wp_check, wp_get, wp_modify]
  refine ⟨fun _ => ⟨fun _ => ⟨⟨?_, ?_, ?_, by simp⟩, Int.lt_succ _⟩, fun _ => hsame⟩, fun _ => hsame⟩
  · refine ⟨le_rfl, (Int.lt_succ _).le, fun _ h => h, fun _ h => .inl h, fun h => ?_,
      fun h => Bool.noConfusion h, fun h => Bool.noConfusion h⟩
    rw [hs.platform] at h
    cases h
  · exact fun _ _ => ⟨[], .singleton _, rfl, rfl⟩
  · refine ⟨hs.platform, hs.anchored, fun h => absurd rfl h, fun h => ?_⟩
    rw [hs.platform] at h
    cases h

theorem wp_disconnect_evolves (hs : s.Regular) :
    wp PlatformTime.disconnect
      (fun _ s' => Performed inp {} s [] s' ∧ s.connectionRevision < s'.connectionRevision)
      (fun _ s' => Performed inp {} s [] s') s := by
  simp only [PlatformTime.disconnect, wp_bind, wp_modify]
  refine (wp_connect_evolves hs).mono ?_ fun _ _ h => h
  rintro _ s' ⟨h, hlt⟩
  have hr := h.regular
  refine ⟨⟨⟨h.evolves.revision, h.evolves.connection, h.evolves.stays, h.evolves.back,
    fun h => Bool.noConfusion h, fun h => Bool.noConfusion h, fun h => Bool.noConfusion h⟩,
    h.ran, ⟨hr.platform, hr.anchored, hr.round, fun h => Bool.noConfusion h⟩, by simp⟩, hlt⟩

theorem wp_requireMaintenance_evolves (hs : s.Regular) :
    wp (PlatformTime.requireMaintenance inp) (fun _ s' => Performed inp {} s [] s')
      (fun _ s' => Performed inp {} s [] s') s :=
  (@wp_invalidate_evolves inp s s.lastMono _ _ _ hs rfl).mono (fun _ _ h => h.1.unseen le_rfl)
    fun _ _ h => h.unseen le_rfl

theorem wp_loadHistoryBoundary_evolves {basis : Option PyStr} {utcLower : Option ℤ}
    (hs : s.Regular) :
    wp (PlatformTime.loadHistoryBoundary inp basis utcLower)
      (fun _ s' => Performed inp {} s [] s') (fun _ s' => Performed inp {} s [] s') s := by
  unfold PlatformTime.loadHistoryBoundary
  cases utcLower with
  | none => exact Becomes.unseen (.refl hs) le_rfl
  | some lower =>
      simp only [wp_bind, wp_get, wp_ite, wp_modify, wp_pure]
      have hset : Becomes {} s.lastMono s { s with floor := some (max (s.floor.getD 0) lower) } :=
        .of_essence rfl ⟨hs.platform, hs.anchored, hs.round, hs.synced⟩
      refine ⟨fun _ => wp_requireMaintenance_evolves hs, fun _ => ⟨fun _ => ?_, fun _ => ?_⟩⟩
      · exact (wp_invalidate_evolves hset.regular rfl).mono
          (fun _ _ h => (hset.trans h.1).unseen le_rfl) fun _ _ h => (hset.trans h).unseen le_rfl
      · exact hset.unseen le_rfl

/-- A submission sets the flag it is about, if its gate passes. -/
theorem wp_controlSubmitted_evolves [JsonSchema] (hmono : Monotone inp.mono) {kind : ControlKind}
    {token : Option TimeToken} (hs : s.Regular) (ht : Timed inp s) :
    let op : TimeOp := .call (.controlSubmitted kind token)
    wp (PlatformTime.controlSubmitted inp kind token)
      (fun _ s' => Performed inp (op.grants inp s) s (op.observations inp s) s')
      (fun _ s' => Performed inp {} s (op.observations inp s) s') s := by
  intro op
  simp only [PlatformTime.controlSubmitted, wp_bind, wp_modify]
  refine (wp_require_evolves hmono hs ht).mono ?_ fun _ _ h => h
  rintro t σ ⟨h, -⟩
  have he := h.evolves
  have hr := h.regular
  cases kind with
  | heartbeat =>
      exact ⟨⟨he.revision, he.connection, he.stays, fun h1 h2 => (he.back h1 h2).imp_right False.elim,
        fun h => (he.synced h).imp_right False.elim, fun _ => .inr ⟨token, rfl⟩,
        fun h => (he.config h).imp_right False.elim⟩, h.ran,
        ⟨hr.platform, hr.anchored, hr.round, hr.synced⟩, h.shows⟩
  | configGet =>
      refine ⟨⟨he.revision, he.connection, he.stays,
        fun h1 h2 => (he.back h1 h2).imp_right False.elim,
        fun h => (he.synced h).imp_right False.elim,
        fun h => (he.heartbeat h).imp_right False.elim, fun hc => ?_⟩, h.ran,
        ⟨hr.platform, hr.anchored, hr.round, hr.synced⟩, h.shows⟩
      rcases Bool.or_eq_true_iff.mp hc with hc | hc
      · exact (he.config hc).imp_right False.elim
      · rcases he.heartbeat hc with hb | hf
        · exact .inr ⟨⟨token, rfl⟩, hb.1⟩
        · exact hf.elim
  | other => exact h.any

/-- What an operation can do to the state. -/
theorem exec_performed [JsonSchema] {c : TimeConfig} (hmono : Monotone inp.mono) (op : TimeOp)
    (hs : s.Regular) (ht : Timed inp s) :
    wp (op.exec inp c)
      (fun _ s' => Performed inp (op.grants inp s) s (op.observations inp s) s')
      (fun _ s' => Performed inp (op.lapses inp s) s (op.observations inp s) s') s := by
  -- Most calls take one snapshot and then only read.
  have hsnap : ∀ {β : Type} {f : TimeSnapshot → TimeProg β},
      (∀ t σ, wp (f t) (fun _ s' => s' = σ) (fun _ s' => s' = σ) σ) →
      wp (PlatformTime.snapshot inp >>= f)
        (fun _ s' => Performed inp (op.grants inp s) s (s.observe inp) s')
        (fun _ s' => Performed inp (op.lapses inp s) s (s.observe inp) s') s := by
    intro β f hf
    refine (wp_snapshot_then (g := {}) (k := {}) (P := fun _ _ => True) hs ht.le ?_).mono
      (fun _ _ h => (h.1.performed ht.later h.2.1).any) fun _ _ h => (h.1.performed ht.later h.2).any
    intro t σ h _
    refine (hf t σ).mono ?_ ?_
    · rintro _ _ rfl
      exact ⟨.refl h.regular, trivial⟩
    · rintro _ _ rfl
      exact .refl h.regular
  have hoffer : ∀ o ∈ op.offer inp s, (op.offer inp s).isSome = true ∧
      ((s.slew (inp.mono s.reads.mono)).resumesOn o = true → op.resumes inp s = true) := by
    intro o ho
    refine ⟨Option.isSome_of_mem ho, fun hr => ?_⟩
    rw [TimeOp.resumes, ho]
    exact hr
  cases op with
  | requireMaintenance =>
      simp only [TimeOp.exec, wp_bind, wp_pure]
      exact (wp_requireMaintenance_evolves hs).mono (fun _ _ h => h.any) fun _ _ h => h.any
  | read completed =>
      simp only [TimeOp.exec, wp_bind, wp_pure]
      exact hsnap fun t σ => by simp
  | diagnostics =>
      simp only [TimeOp.exec, wp_bind, wp_pure]
      exact hsnap fun t σ => by simp
  | readMono =>
      simp only [TimeOp.exec, wp_bind, wp_pure, wp_readMono]
      exact Becomes.unseen (becomes_readNext hs) le_rfl
  | call k =>
  simp only [TimeOp.exec, wp_bind, wp_pure]
  cases k with
  | connect session =>
      simp only [TimeCall.exec, wp_bind, wp_pure]
      exact (@wp_connect_evolves _ inp s session hs).mono (fun _ _ h => h.1.any) fun _ _ h => h.any
  | disconnect =>
      simp only [TimeCall.exec, wp_bind, wp_pure]
      exact (@wp_disconnect_evolves _ inp s hs).mono (fun _ _ h => h.1.any) fun _ _ h => h.any
  | request =>
      simp only [TimeCall.exec, wp_bind, wp_pure]
      refine (wp_request_evolves hs ht.le hoffer).mono ?_ ?_
      · rintro _ s' ⟨h, hshow, -⟩
        have hg : Evolves ((TimeOp.call .request).grants inp s) s s' :=
          h.evolves.weaken id id False.elim False.elim
        exact Becomes.performed ⟨hg, h.ran, h.regular⟩ ht.later hshow
      · rintro _ s' ⟨h, hshow⟩
        exact h.performed ht.later hshow
  | response payload received session retained =>
      simp only [TimeCall.exec, wp_bind, wp_pure]
      refine (wp_response_evolves hs ht.le hoffer).mono ?_ ?_
      · intro _ s' h
        have hg : Evolves
            ((TimeOp.call (.response payload received session retained)).grants inp s) s s' :=
          h.evolves.weaken id id False.elim False.elim
        exact Becomes.unseen ⟨hg, h.ran, h.regular⟩ ht.later
      · exact fun _ s' h => h.unseen ht.later
  | snapshot =>
      simp only [TimeCall.exec, wp_bind, wp_pure]
      have h := hsnap (f := pure) fun t σ => by simp
      rw [wp_bind] at h
      exact h
  | token =>
      simp only [TimeCall.exec, wp_bind, wp_pure]
      exact hsnap fun t σ => by simp
  | valid token purpose =>
      simp only [TimeCall.exec, wp_bind, wp_pure]
      exact hsnap fun t σ => by simp
  | require token purpose =>
      simp only [TimeCall.exec, wp_bind, wp_pure]
      exact (wp_require_evolves hmono hs ht).mono (fun _ _ h => h.1.any) fun _ _ h => h.any
  | controlSubmitted kind token =>
      simp only [TimeCall.exec, wp_bind, wp_pure]
      exact (wp_controlSubmitted_evolves hmono hs ht).mono (fun _ _ h => h) fun _ _ h => h.any
  | loadHistoryBoundary basis utcLower =>
      simp only [TimeCall.exec, wp_bind, wp_pure]
      exact (wp_loadHistoryBoundary_evolves hs).mono (fun _ _ h => h.any) fun _ _ h => h.any

/-! ## Steps -/

/-- The invariant of a run. -/
structure PlatformTime.Steady (inp : Inputs) (s : PlatformTime) : Prop where
  regular : s.Regular
  timed : Timed inp s

theorem wp_timed [JsonSchema] {c : TimeConfig} (hmono : Monotone inp.mono) (op : TimeOp)
    (ht : Timed inp s) :
    wp (op.exec inp c) (fun _ s' => Tracks inp (fun _ _ _ => True) s.driftPpm s')
      (fun _ s' => Tracks inp (fun _ _ _ => True) s.driftPpm s') s := by
  have hsnap := wp_snapshot_tracking hmono trackable_true ht
  cases op with
  | call k =>
      simp only [TimeOp.exec, wp_bind, wp_pure]
      refine (exec_tracking hmono trackable_true ?_ ht).mono (fun _ _ h => h.2) fun _ _ h => h
      cases k <;> simp [Admits, Candidate.Covers]
  | requireMaintenance =>
      simp only [TimeOp.exec, wp_bind, wp_pure, PlatformTime.requireMaintenance]
      rw [wp_invalidate]
      exact ⟨fun _ => ht.congr rfl (List.Subset.refl _) le_rfl,
        fun _ _ => ht.congr rfl (List.Subset.refl _) (Nat.le_succ _),
        fun _ _ => ht.congr rfl (List.Subset.refl _) le_rfl⟩
  | read completed =>
      simp only [TimeOp.exec, PlatformTime.read, wp_bind, wp_pure, wp_get]
      exact hsnap.mono (fun _ _ h => h.1.1) fun _ _ h => h
  | diagnostics =>
      simp only [TimeOp.exec, PlatformTime.diagnostics, wp_bind, wp_pure, wp_get]
      exact hsnap.mono (fun _ _ h => h.1.1) fun _ _ h => h
  | readMono =>
      simp only [TimeOp.exec, wp_bind, wp_pure, wp_readMono]
      exact ht.congr rfl (List.Subset.refl _) (Nat.le_succ _)

/-- One step of a run. -/
theorem perform_steady [JsonSchema] {c : TimeConfig} (hmono : Monotone inp.mono) (op : TimeOp)
    (hs : s.Steady inp) :
    Performed inp (op.grants inp s) s (op.observations inp s)
        (perform (TimeOp.exec inp c) s op).after ∧
      ((perform (TimeOp.exec inp c) s op).result.isOk = false →
        Evolves (op.lapses inp s) s (perform (TimeOp.exec inp c) s op).after) ∧
      (perform (TimeOp.exec inp c) s op).after.Steady inp := by
  obtain ⟨hok, herr⟩ := perform_spec
    ((exec_performed (c := c) hmono op hs.regular hs.timed).and (wp_timed hmono op hs.timed))
  have hsteady : ∀ {s' : PlatformTime}, s'.Regular →
      Tracks inp (fun _ _ _ => True) s.driftPpm s' → s'.Steady inp := by
    intro s' hr ht
    refine ⟨hr, ?_⟩
    rw [Timed, ht.drift]
    exact ht
  cases hres : (perform (TimeOp.exec inp c) s op).result with
  | ok out =>
      obtain ⟨h, ht⟩ := hok out hres
      exact ⟨h, fun hf => Bool.noConfusion hf, hsteady h.regular ht⟩
  | error e =>
      obtain ⟨h, ht⟩ := herr e hres
      exact ⟨⟨h.evolves.weaken id False.elim False.elim False.elim, h.ran, h.regular, h.shows⟩,
        fun _ => h.evolves, hsteady h.regular ht⟩

omit [Rounding] in
theorem steady_create {c : TimeConfig} (hmode : c.mode = .hubMqtt) (hmono : Monotone inp.mono)
    (hc : PlatformTime.create inp c = .ok s) : s.Steady inp := by
  unfold PlatformTime.create at hc
  split at hc
  · cases hc
    refine ⟨⟨?_, fun h => Bool.noConfusion h, fun h => absurd rfl h, fun h => Bool.noConfusion h⟩,
      tracks_started hmode hmono⟩
    simp [PlatformTime.platform, PlatformTime.started, hmode]
  · cases hc

theorem steady_run [JsonSchema] {c : TimeConfig} (hmono : Monotone inp.mono) (hs : s.Steady inp)
    (ops : List TimeOp) : (opRun inp c s ops).Steady inp := by
  induction ops generalizing s with
  | nil => exact hs
  | cons op ops ih => exact ih (perform_steady hmono op hs).2.2

/-- A new connection has a new number. -/
theorem connection_of_reconnects [JsonSchema] {c : TimeConfig} {op : TimeOp} (hs : s.Regular)
    (h : TimeOpStep.Reconnects (perform (TimeOp.exec inp c) s op)) :
    s.connectionRevision < (perform (TimeOp.exec inp c) s op).after.connectionRevision := by
  obtain ⟨hok, hcall⟩ := h
  obtain ⟨out, hout⟩ : ∃ out, (perform (TimeOp.exec inp c) s op).result = .ok out := by
    cases hr : (perform (TimeOp.exec inp c) s op).result with
    | ok out => exact ⟨out, rfl⟩
    | error e =>
        rw [hr] at hok
        cases hok
  have hwp : wp (op.exec inp c) (fun _ s' => s.connectionRevision < s'.connectionRevision)
      (fun _ _ => True) s := by
    rw [perform_call] at hcall
    split at hcall
    · simp only [TimeOp.exec, TimeCall.exec, wp_bind, wp_pure]
      exact (@wp_connect_evolves _ inp s _ hs).mono (fun _ _ h => h.2) fun _ _ _ => trivial
    · simp only [TimeOp.exec, TimeCall.exec, wp_bind, wp_pure]
      exact (@wp_disconnect_evolves _ inp s hs).mono (fun _ _ h => h.2) fun _ _ _ => trivial
    · exact hcall.elim
  exact (perform_spec hwp).1 out hout

/-- A step from an open clock that ends in the same session interrupts nothing. -/
theorem uninterrupted_of_same [JsonSchema] {c : TimeConfig} {op : TimeOp}
    (hmono : Monotone inp.mono) (hs : s.Steady inp) (ho : s.opened = true)
    (hsame : SameSession s (perform (TimeOp.exec inp c) s op).after) :
    Uninterrupted inp (perform (TimeOp.exec inp c) s op) := by
  obtain ⟨h, -, -⟩ := perform_steady (c := c) hmono op hs
  refine ⟨ho, h.evolves.stays hsame.1 ho, fun t ht => h.shows t ht hsame.1 ho, hsame.1,
    h.ran hsame.1 ho, fun hre => ?_⟩
  have hlt := connection_of_reconnects hs.regular hre
  exact absurd hsame.2 hlt.ne'

end Calls

end PlcnextIot.Core
