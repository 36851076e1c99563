/-
  PlcnextIot.Messaging.TimedControl

  `messaging/timed_control.py`: a control message is stamped behind one time gate and
  handed to the SDK behind a second one.

  The provider belongs to other threads as well, which may use it between any two calls
  made here.  The first gate can return an expired snapshot, but then the clock has a new
  revision, and the second gate refuses the token of the old one.
-/

import PlcnextIot.Core.TimeEvolve

namespace PlcnextIot.Messaging

open PlcnextIot.Python PlcnextIot.Contracts PlcnextIot.Core PlcnextIot.Effect PlcnextIot.Effect.Prog

/-! ## The program -/

/-- The provider of a connection, and the payloads that the SDK has taken, oldest first. -/
structure ControlLink where
  time : PlatformTime
  submitted : List Bytes := []

inductive ControlError where
  | time (e : TimeError)
  | python (e : PyExc)
  | publishRejected
  deriving DecidableEq, Repr

/-- How a connection publishes: by `submit_publish`, which the SDK accepts or not, or
    by a publish that is awaited. -/
inductive Handoff where
  | submitPublish (accepts : Bool)
  | publish
  deriving DecidableEq, Repr

/-- Whether the connection takes a payload; without `submit_publish` there is no moment at
    which platform time could be checked. -/
def Handoff.takes (platform : Bool) : Handoff → Except ControlError Unit
  | .submitPublish accepts => if accepts then .ok () else .error .publishRejected
  | .publish => if platform then .error (.time .timeUnavailable) else .ok ()

/-- A call of `publish_control`, and what the other threads do to the provider meanwhile:
    before the first gate, before the second one and before the flag is set. -/
structure ControlCall where
  factory : Option ℤ → Except PyExc Bytes
  kind : Option ControlKind
  handoff : Handoff
  beforeGate : List TimeOp := []
  beforeCheck : List TimeOp := []
  beforeFlag : List TimeOp := []

abbrev ControlM := Prog ControlLink ControlError

/-- A call of the provider. -/
def onTime {α : Type} (x : TimeProg α) : ControlM α := do
  let r ← zoom ControlLink.time (fun l time => { l with time := time }) (tried x)
  result (r.mapError .time)

def submit (payload : Bytes) : ControlM Unit :=
  modify fun l => { l with submitted := l.submitted ++ [payload] }

section Program

variable [Rounding] [JsonSchema] (inp : Inputs) (c : TimeConfig)

/-- What the other threads do. -/
def meanwhile (ops : List TimeOp) : ControlM Unit :=
  modify fun l => { l with time := opRun inp c l.time ops }

/-- `publish_control` with a provider; the PUBACK that it waits for at the end changes
    nothing here. -/
def publishControl (call : ControlCall) : ControlM Unit := do
  let token ← onTime (PlatformTime.token inp)
  meanwhile inp c call.beforeGate
  let current ← onTime (PlatformTime.require inp (some token) .controlSend)
  let payload ← result ((call.factory current.stamp).mapError .python)
  meanwhile inp c call.beforeCheck
  let _ ← onTime (PlatformTime.require inp (some token) .controlSend)
  result (call.handoff.takes (← get).time.platform)
  submit payload
  match call.kind with
  | none => pure ()
  | some kind => do
    meanwhile inp c call.beforeFlag
    onTime (PlatformTime.controlSubmitted inp kind (some token))

end Program

/-! ## The second gate -/

section Gates

variable [Rounding] {inp : Inputs} {c : TimeConfig} {s : PlatformTime} {token : TimeToken}
  {purpose : Purpose}

/-- A gate that returns an invalid snapshot has ended the revision of its token. -/
theorem wp_require_lapses (hmono : Monotone inp.mono) (hs : s.Steady inp)
    (hg : purpose.guarded = true) :
    wp (PlatformTime.require inp (some token) purpose)
      (fun t s' => t.timeValid = false → token.clockRevision < s'.revision) (fun _ _ => True) s := by
  refine (wp_require_evolves hmono hs.regular hs.timed).mono ?_ fun _ _ _ => trivial
  rintro t s' ⟨-, σ, t₁, hfirst, hseen, hcurrent, hpermits, hnext, hlast⟩ hinvalid
  simp only [PlatformTime.current, Bool.and_eq_true, beq_iff_eq] at hcurrent
  rw [permits_eq_ready hfirst.regular.platform hg, Bool.and_eq_true] at hpermits
  have hopen : σ.opened = true := hseen.valid.symm.trans hpermits.1
  have hshut : ¬ s'.opened = true := by
    rw [← hlast.valid, hinvalid]
    exact Bool.false_ne_true
  -- An open clock closes only with a new revision.
  have hmoved : s'.revision ≠ σ.revision := fun hsame => hshut (hnext.evolves.stays hsame hopen)
  have hle := hnext.evolves.revision
  have htoken := hcurrent.1.1.2
  omega

/-- No gate passes for a token of an old revision. -/
theorem wp_require_old (hmono : Monotone inp.mono) (hs : s.Steady inp)
    (hold : token.clockRevision < s.revision) :
    wp (PlatformTime.require inp (some token) purpose) (fun _ _ => False) (fun _ _ => True) s := by
  refine (wp_require_evolves hmono hs.regular hs.timed).mono ?_ fun _ _ _ => trivial
  rintro t s' ⟨-, σ, t₁, hfirst, -, hcurrent, -⟩
  simp only [PlatformTime.current, Bool.and_eq_true, beq_iff_eq] at hcurrent
  have hle := hfirst.evolves.revision
  have htoken := hcurrent.1.1.2
  omega

/-- The clock is still steady, and has no older revision. -/
structure Onward (inp : Inputs) (s s' : PlatformTime) : Prop where
  steady : s'.Steady inp
  revision : s.revision ≤ s'.revision

variable [JsonSchema]

theorem wp_op_onward (hmono : Monotone inp.mono) (op : TimeOp) (hs : s.Steady inp) :
    wp (op.exec inp c) (fun _ s' => Onward inp s s') (fun _ s' => Onward inp s s') s := by
  have hperformed := perform_steady (c := c) hmono op hs
  refine (wp_iff_run _).mpr ⟨fun out s' hrun => ?_, fun e s' hrun => ?_⟩
  all_goals
    have hafter : (perform (TimeOp.exec inp c) s op).after = s' := congrArg Prod.snd hrun
    rw [hafter] at hperformed
    exact ⟨hperformed.2.2, hperformed.1.evolves.revision⟩

theorem opRun_onward (hmono : Monotone inp.mono) (hs : s.Steady inp) (ops : List TimeOp) :
    Onward inp s (opRun inp c s ops) := by
  refine ⟨steady_run hmono hs ops, ?_⟩
  refine runCalls_moves (R := fun a b : PlatformTime => a.revision ≤ b.revision) (fun _ => le_rfl)
    (fun _ _ _ => le_trans) (fun s' op hs' => ?_) hs ops
  have h := perform_steady (c := c) hmono op hs'
  exact ⟨h.1.evolves.revision, h.2.2⟩

end Gates

/-! ## What is submitted -/

section Messages

variable {inp : Inputs} {c : TimeConfig}

@[simp] theorem wp_onTime {α : Type} (x : TimeProg α) {Q : α → ControlLink → Prop}
    {E : ControlError → ControlLink → Prop} {l : ControlLink} :
    wp (onTime x) Q E l ↔ wp x (fun a s' => Q a { l with time := s' })
      (fun e s' => E (.time e) { l with time := s' }) l.time := by
  simp [onTime, Except.mapError]

@[simp] theorem wp_submit (payload : Bytes) {Q : Unit → ControlLink → Prop}
    {E : ControlError → ControlLink → Prop} {l : ControlLink} :
    wp (submit payload) Q E l ↔ Q () { l with submitted := l.submitted ++ [payload] } := Iff.rfl

variable [Rounding]

/-- A payload carries the time of a usable snapshot that its gate has returned. -/
def ControlCall.Stamps (inp : Inputs) (call : ControlCall) (payload : Bytes) : Prop :=
  ∃ s s' token t, (PlatformTime.require inp (some token) .controlSend).run s = (.ok t, s') ∧
    t.Usable ∧ call.factory t.utcMs = .ok payload

variable [JsonSchema]

@[simp] theorem wp_meanwhile (ops : List TimeOp) {Q : Unit → ControlLink → Prop}
    {E : ControlError → ControlLink → Prop} {l : ControlLink} :
    wp (meanwhile inp c ops) Q E l ↔ Q () { l with time := opRun inp c l.time ops } := Iff.rfl

/-- A call keeps the clock steady, and what it submits it has stamped. -/
structure Submits (inp : Inputs) (call : ControlCall) (l l' : ControlLink) : Prop where
  steady : l'.time.Steady inp
  stamped : ∀ payload ∈ l'.submitted, payload ∈ l.submitted ∨ call.Stamps inp payload

section Calls

variable {s : PlatformTime} {token : Option TimeToken}

include c

theorem wp_token_onward (hmono : Monotone inp.mono) (hs : s.Steady inp) :
    wp (PlatformTime.token inp) (fun _ s' => Onward inp s s') (fun _ s' => Onward inp s s') s := by
  have h := wp_op_onward (c := c) hmono (.call .token) hs
  simpa only [TimeOp.exec, TimeCall.exec, wp_bind, wp_pure] using h

theorem wp_require_onward {purpose : Purpose} (hmono : Monotone inp.mono) (hs : s.Steady inp) :
    wp (PlatformTime.require inp token purpose) (fun _ s' => Onward inp s s')
      (fun _ s' => Onward inp s s') s := by
  have h := wp_op_onward (c := c) hmono (.call (.require token purpose)) hs
  simpa only [TimeOp.exec, TimeCall.exec, wp_bind, wp_pure] using h

theorem wp_controlSubmitted_onward {kind : ControlKind} (hmono : Monotone inp.mono)
    (hs : s.Steady inp) :
    wp (PlatformTime.controlSubmitted inp kind token) (fun _ s' => Onward inp s s')
      (fun _ s' => Onward inp s s') s := by
  have h := wp_op_onward (c := c) hmono (.call (.controlSubmitted kind token)) hs
  simpa only [TimeOp.exec, TimeCall.exec, wp_bind, wp_pure] using h

end Calls

theorem wp_publishControl {call : ControlCall} {l : ControlLink} (hmono : Monotone inp.mono)
    (hs : l.time.Steady inp) :
    wp (publishControl inp c call) (fun _ l' => Submits inp call l l')
      (fun _ l' => Submits inp call l l') l := by
  have hunsent : ∀ {s' : PlatformTime}, s'.Steady inp →
      Submits inp call l { l with time := s' } := fun h => ⟨h, fun _ hp => .inl hp⟩
  simp only [publishControl, wp_bind, wp_onTime, wp_meanwhile, wp_get, wp_submit]
  refine (wp_token_onward (c := c) hmono hs).mono ?_ fun _ s' h => hunsent h.steady
  intro token s₁ h₁
  have h₂ := opRun_onward (c := c) hmono h₁.steady call.beforeGate
  generalize opRun inp c s₁ call.beforeGate = s₂ at h₂ ⊢
  -- The first gate: what it returns is usable, or its token is old from then on.
  refine ((((wp_require_onward (c := c) hmono h₂.steady).and wp_require_coherent).and
    (wp_require_lapses hmono h₂.steady rfl)).run).mono ?_ fun _ s' h => hunsent h.1.1.1.steady
  rintro t s₃ ⟨⟨⟨h₃, hcoherent⟩, hlapses⟩, hrun⟩
  refine (wp_result _).mpr ⟨fun payload hpayload => ?_, fun e _ => hunsent h₃.steady⟩
  have h₄ := opRun_onward (c := c) hmono h₃.steady call.beforeCheck
  generalize opRun inp c s₃ call.beforeCheck = s₄ at h₄ ⊢
  have hsecond := @wp_require_onward inp c _ _ s₄ (some token) .controlSend hmono h₄.steady
  cases hvalid : t.timeValid with
  | false =>
      have hold : token.clockRevision < s₄.revision := lt_of_lt_of_le (hlapses hvalid) h₄.revision
      refine (hsecond.and (wp_require_old hmono h₄.steady hold)).mono ?_
        fun _ s' h => hunsent h.1.steady
      exact fun _ _ h => h.2.elim
  | true =>
      refine hsecond.mono (fun _ s₅ h₅ => ?_) fun _ s' h => hunsent h.steady
      refine (wp_result _).mpr ⟨fun _ _ => ?_, fun e _ => hunsent h₅.steady⟩
      have hstamps : call.Stamps inp payload := by
        have husable := hcoherent.usable hvalid
        refine ⟨s₂, s₃, token, t, hrun, husable, ?_⟩
        rw [← husable.stamp]
        cases hf : call.factory t.stamp with
        | ok bytes =>
            rw [hf] at hpayload
            cases hpayload
            rfl
        | error e =>
            rw [hf] at hpayload
            cases hpayload
      have hsent : ∀ {s' : PlatformTime}, s'.Steady inp →
          Submits inp call l { l with time := s', submitted := l.submitted ++ [payload] } := by
        refine fun h => ⟨h, fun p hp => ?_⟩
        rcases List.mem_append.mp hp with hp | hp
        · exact .inl hp
        · rw [List.mem_singleton.mp hp]
          exact .inr hstamps
      cases call.kind with
      | none => exact hsent h₅.steady
      | some kind =>
          have h₆ := opRun_onward (c := c) hmono h₅.steady call.beforeFlag
          simp only [wp_bind, wp_meanwhile, wp_onTime]
          exact (wp_controlSubmitted_onward (c := c) hmono h₆.steady).mono
            (fun _ s' h => hsent h.steady) fun _ s' h => hsent h.steady

/-- Over any number of calls, every control message carries the time of a clock that
    was valid when its gate passed. -/
theorem submitted_stamped {l : ControlLink} (hmono : Monotone inp.mono) (hs : l.time.Steady inp)
    (calls : List ControlCall) :
    ∀ payload ∈ (runCalls (publishControl inp c) l calls).submitted,
      payload ∈ l.submitted ∨ ∃ call ∈ calls, call.Stamps inp payload := by
  induction calls generalizing l with
  | nil => exact fun _ hp => .inl hp
  | cons call calls ih =>
      have hstep : Submits inp call l (perform (publishControl inp c) l call).after :=
        (wp_publishControl hmono hs).final
      intro payload hp
      rcases ih hstep.steady payload hp with hold | ⟨call', hcall', hstamps⟩
      · exact (hstep.stamped payload hold).imp_right fun h => ⟨call, List.mem_cons_self, h⟩
      · exact .inr ⟨call', List.mem_cons_of_mem _ hcall', hstamps⟩

end Messages

end PlcnextIot.Messaging
