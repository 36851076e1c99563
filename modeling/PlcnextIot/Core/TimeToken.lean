/-
  PlcnextIot.Core.TimeToken

  A time token spans only uninterrupted valid time.

  A token carries two revisions.  Every closing of an open clock and every
  re-anchoring starts a new clock revision, and every connection a new
  connection revision, so a token that is still current has seen neither.  One
  transition is missing from this scheme: a suspect clock that a round confirms
  within a second is slewed and opened again in the revision in which it was
  suspect (`TimeOp.resumes`), and a token made while it was suspect becomes
  valid.
-/

import PlcnextIot.Core.TimeEvolve

namespace PlcnextIot.Core

open PlcnextIot.Python PlcnextIot.Contracts PlcnextIot.Effect PlcnextIot.Effect.Prog

/-! ## The property -/

/-- What lies between the making of a token and its successful check. -/
structure TokenSpan [Rounding] (inp : Inputs) (made : TimeOpStep) (between : List TimeOpStep)
    (used : TimeOpStep) : Prop where
  valid : ∃ t, made.call.observations inp made.before = [t] ∧ t.timeValid = true
  uninterrupted : ∀ st ∈ between ++ [used], Uninterrupted inp st
  age : inp.mono used.before.reads.mono - inp.mono made.before.reads.mono < 2000

/-! ## Runs in one revision -/

section Runs

variable [JsonSchema] [Rounding] {inp : Inputs} {c : TimeConfig} {s : PlatformTime}

theorem evolves_perform (hmono : Monotone inp.mono) (hs : s.Steady inp) (op : TimeOp) :
    Evolves (op.grants inp s) s (perform (TimeOp.exec inp c) s op).after :=
  (perform_steady hmono op hs).1.evolves

/-- In a run that ends in its session, every step stays in it. -/
theorem sameSession_trace (hmono : Monotone inp.mono) (hs : s.Steady inp) {ops : List TimeOp}
    (hend : SameSession s (opRun inp c s ops)) :
    ∀ st ∈ opTrace inp c s ops, SameSession st.before st.after := by
  have hrev := trace_constant (I := PlatformTime.Steady inp)
    (f := PlatformTime.revision) (fun s op hs => ⟨(evolves_perform hmono hs op).revision,
      (perform_steady hmono op hs).2.2⟩) hs hend.1
  have hconn := trace_constant (I := PlatformTime.Steady inp)
    (f := PlatformTime.connectionRevision) (fun s op hs =>
      ⟨(evolves_perform hmono hs op).connection, (perform_steady hmono op hs).2.2⟩) hs hend.2
  intro st hst
  obtain ⟨h1, h2⟩ := hrev st hst
  obtain ⟨h3, h4⟩ := hconn st hst
  exact ⟨h2.trans h1.symm, h4.trans h3.symm⟩

/-- A run in one revision that never resumes was open at the start if it is at
    the end. -/
theorem opened_of_opened_end (hmono : Monotone inp.mono) (hs : s.Steady inp) {ops : List TimeOp}
    (hsame : ∀ st ∈ opTrace inp c s ops, SameSession st.before st.after)
    (hcond : ∀ st ∈ opTrace inp c s ops, st.call.resumes inp st.before = false)
    (hend : (opRun inp c s ops).opened = true) : s.opened = true := by
  induction ops generalizing s with
  | nil => exact hend
  | cons op ops ih =>
      have hafter : (perform (TimeOp.exec inp c) s op).after.opened = true :=
        ih (perform_steady hmono op hs).2.2 (fun st hst => hsame st (List.mem_cons_of_mem _ hst))
          (fun st hst => hcond st (List.mem_cons_of_mem _ hst)) hend
      have hfirst := hsame _ List.mem_cons_self
      have hno : op.resumes inp s = false := hcond _ List.mem_cons_self
      rcases (evolves_perform hmono hs op).back hfirst.1 hafter with h | h
      · exact h
      · exact Bool.noConfusion (hno.symm.trans h)

/-- A run from an open clock in one session is uninterrupted. -/
theorem uninterrupted_trace (hmono : Monotone inp.mono) (hs : s.Steady inp) {ops : List TimeOp}
    (hsame : ∀ st ∈ opTrace inp c s ops, SameSession st.before st.after) (ho : s.opened = true) :
    ∀ st ∈ opTrace inp c s ops, Uninterrupted inp st := by
  induction ops generalizing s with
  | nil => intro st hst; cases hst
  | cons op ops ih =>
      have hfirst := uninterrupted_of_same hmono hs ho (hsame _ List.mem_cons_self)
      intro st hst
      rcases List.mem_cons.mp hst with rfl | hst
      · exact hfirst
      · exact ih (perform_steady hmono op hs).2.2
          (fun st hst => hsame st (List.mem_cons_of_mem _ hst)) hfirst.after st hst

/-! ## The two ends -/

/-- A token describes the state it leaves. -/
theorem perform_token {tok : TimeToken} (hs : s.Steady inp)
    (h : (perform (TimeOp.exec inp c) s (.call .token)).result = .ok (.call (.token tok))) :
    let s' := (perform (TimeOp.exec inp c) s (.call .token)).after
    tok.clockRevision = s'.revision ∧ tok.connectionRevision = s'.connectionRevision ∧
      tok.issuedMonoMs = inp.mono s.reads.mono ∧
      ∃ t, s.observe inp = [t] ∧ t.timeValid = s'.opened := by
  have hwp : wp ((TimeOp.call .token).exec inp c)
      (fun out s' => ∀ tok, out = .call (.token tok) →
        tok.clockRevision = s'.revision ∧ tok.connectionRevision = s'.connectionRevision ∧
          tok.issuedMonoMs = inp.mono s.reads.mono ∧
          ∃ t, s.observe inp = [t] ∧ t.timeValid = s'.opened) (fun _ _ => True) s := by
    simp only [TimeOp.exec, TimeCall.exec, PlatformTime.token, wp_bind, wp_pure]
    refine (wp_snapshot_evolves hs.regular hs.timed.le).run.mono ?_ fun _ _ _ => trivial
    rintro t σ ⟨⟨-, hseen⟩, hrun⟩ tok ⟨⟩
    exact ⟨hseen.revision, hseen.connection, hseen.mono, t, observe_of_ok hrun, hseen.valid⟩
  exact (perform_spec hwp).1 _ h tok rfl

/-- A successful check finds the token current and time open. -/
theorem perform_valid {tok : Option TimeToken} {purpose : Purpose} (hs : s.Steady inp)
    (hg : purpose.guarded = true)
    (h : (perform (TimeOp.exec inp c) s (.call (.valid tok purpose))).result
      = .ok (.call (.valid true))) :
    let s' := (perform (TimeOp.exec inp c) s (.call (.valid tok purpose))).after
    s'.opened = true ∧ s'.current (inp.mono s.reads.mono) tok = true ∧
      s'.ready purpose = true := by
  have hwp : wp ((TimeOp.call (.valid tok purpose)).exec inp c)
      (fun out s' => out = .call (.valid true) → s'.opened = true ∧
        s'.current (inp.mono s.reads.mono) tok = true ∧ s'.ready purpose = true)
      (fun _ _ => True) s := by
    simp only [TimeOp.exec, TimeCall.exec, wp_bind, wp_pure]
    refine (wp_valid_evolves hs.regular hs.timed.le).mono ?_ fun _ _ _ => trivial
    rintro b σ ⟨hb, -, t, hseen, rfl⟩ heq
    simp only [TimeOpOutcome.call.injEq, TimeOutcome.valid.injEq, Bool.and_eq_true] at heq
    rw [permits_eq_ready hb.regular.platform hg, Bool.and_eq_true] at heq
    exact ⟨hseen.valid ▸ heq.2.1, heq.1, heq.2.2⟩
  exact (perform_spec hwp).1 _ h rfl

/-- The span of a token, from the state it is made in. -/
theorem tokenSpan_of_valid (hmono : Monotone inp.mono) (hs : s.Steady inp) {tok : TimeToken}
    {purpose : Purpose} (hg : purpose.guarded = true) {mid : List TimeOp} :
    let made := perform (TimeOp.exec inp c) s (.call .token)
    let used := perform (TimeOp.exec inp c) (opRun inp c made.after mid)
      (.call (.valid (some tok) purpose))
    made.result = .ok (.call (.token tok)) → used.result = .ok (.call (.valid true)) →
      (∀ st ∈ opTrace inp c made.after mid, st.call.resumes inp st.before = false) →
      TokenSpan inp made (opTrace inp c made.after mid) used := by
  intro made used htok hvalid hcond
  obtain ⟨hrev, hconn, hissued, t, hobs, ht⟩ := perform_token hs htok
  have hs₂ : made.after.Steady inp := (perform_steady hmono (.call .token) hs).2.2
  have hs₃ : (opRun inp c made.after mid).Steady inp := steady_run hmono hs₂ mid
  obtain ⟨hopen, hcur, -⟩ := perform_valid hs₃ hg hvalid
  simp only [PlatformTime.current, Bool.and_eq_true, beq_iff_eq, decide_eq_true_eq] at hcur
  obtain ⟨⟨⟨-, hrev'⟩, hconn'⟩, -, hage⟩ := hcur
  have hpin : used.after.revision = made.after.revision := hrev'.symm.trans hrev
  have hpin' : used.after.connectionRevision = made.after.connectionRevision :=
    hconn'.symm.trans hconn
  -- The revisions only grow, and the token pins their value at both ends.
  have hgrow : ∀ s' : PlatformTime, s'.Steady inp → ∀ ops, s'.revision ≤ (opRun inp c s' ops).revision ∧
      s'.connectionRevision ≤ (opRun inp c s' ops).connectionRevision := by
    intro s' hs' ops
    refine runCalls_moves (R := fun a b : PlatformTime => a.revision ≤ b.revision ∧
        a.connectionRevision ≤ b.connectionRevision) (fun _ => ⟨le_rfl, le_rfl⟩)
      (fun _ _ _ h h' => ⟨h.1.trans h'.1, h.2.trans h'.2⟩) (fun s'' op hs'' => ?_) hs' ops
    have h := evolves_perform (c := c) hmono hs'' op
    exact ⟨⟨h.revision, h.connection⟩, (perform_steady hmono op hs'').2.2⟩
  have hmid := hgrow made.after hs₂ mid
  have hlast : Evolves _ (opRun inp c made.after mid) used.after :=
    evolves_perform hmono hs₃ (.call (.valid (some tok) purpose))
  have hrev₃ := hlast.revision
  have hconn₃ := hlast.connection
  have hsame : SameSession made.after (opRun inp c made.after mid) := by
    constructor <;> omega
  have hsame₃ : SameSession (opRun inp c made.after mid) used.after := by
    obtain ⟨h1, h2⟩ := hsame
    constructor <;> omega
  have htrace := sameSession_trace hmono hs₂ hsame
  -- Openness is carried back from the check, and then forward from the token.
  have ho₃ : (opRun inp c made.after mid).opened = true :=
    (hlast.back hsame₃.1 hopen).resolve_right Bool.false_ne_true
  have ho₂ : made.after.opened = true := opened_of_opened_end hmono hs₂ htrace hcond ho₃
  refine ⟨⟨t, hobs, ht.trans ho₂⟩, fun st hst => ?_, ?_⟩
  · rcases List.mem_append.mp hst with h | h
    · exact uninterrupted_trace hmono hs₂ htrace ho₂ st h
    · rw [List.mem_singleton.mp h]
      exact uninterrupted_of_same hmono hs₃ ho₃ hsame₃
  · rw [hissued] at hage
    exact hage

end Runs

/-! ## The theorem -/

/-- In every run, a token that is still valid has seen only valid time, unless a
    suspect clock was resumed in between. -/
theorem token_spans_valid_time [JsonSchema] [Rounding] {inp : Inputs} {c : TimeConfig} {s₀ : PlatformTime}
    (hmode : c.mode = .hubMqtt) (hc : PlatformTime.create inp c = .ok s₀)
    (hmono : Monotone inp.mono) {ops : List TimeOp} {before between after : List TimeOpStep}
    {made used : TimeOpStep} {tok : TimeToken} {purpose : Purpose}
    (hrun : opTrace inp c s₀ ops = before ++ made :: (between ++ used :: after))
    (hmade : made.call = .call .token) (htok : made.result = .ok (.call (.token tok)))
    (hused : used.call = .call (.valid (some tok) purpose))
    (hvalid : used.result = .ok (.call (.valid true))) (hg : purpose.guarded = true)
    (hcond : ∀ st ∈ between, st.call.resumes inp st.before = false) :
    TokenSpan inp made between used := by
  have hs₀ : s₀.Steady inp := steady_create hmode hmono hc
  -- Cut the run before the token, after it, and before its check.
  obtain ⟨ops₁, rest₁, -, -, htail₁⟩ := trace_eq_append hrun
  obtain ⟨op₁, rest₂, -, rfl, htail₂⟩ := trace_eq_cons htail₁.symm
  obtain ⟨mid, rest₃, -, rfl, htail₃⟩ := trace_eq_append htail₂.symm
  obtain ⟨op₂, rest₄, -, rfl, -⟩ := trace_eq_cons htail₃.symm
  rw [perform_call] at hmade hused
  subst hmade hused
  exact tokenSpan_of_valid hmono (steady_run hmono hs₀ ops₁) hg htok hvalid hcond

/-! ## At concrete inputs -/

section Scripted

attribute [local instance] JsonSchema.atRoot

section Calls

variable [Rounding]

/-- The operations of a list of calls. -/
def asOps (calls : List TimeCall) : List TimeOp := calls.map .call

/-- The state of the scripted provider after some calls. -/
def scriptedState (inp : Inputs) (calls : List TimeCall) : PlatformTime :=
  opRun inp .scripted (.started inp .scripted) (asOps calls)

/-- The next step of the scripted provider. -/
def scriptedStep (inp : Inputs) (calls : List TimeCall) (call : TimeCall) : TimeOpStep :=
  perform (TimeOp.exec inp .scripted) (scriptedState inp calls) (.call call)

/-- The steps of some more calls. -/
def scriptedSteps (inp : Inputs) (calls more : List TimeCall) : List TimeOpStep :=
  opTrace inp .scripted (scriptedState inp calls) (asOps more)

theorem scripted_cut (inp : Inputs) (calls mid : List TimeCall) (first last : TimeCall) :
    opTrace inp .scripted (.started inp .scripted) (asOps (calls ++ [first] ++ mid ++ [last]))
      = scriptedSteps inp [] calls ++ scriptedStep inp calls first ::
        (scriptedSteps inp (calls ++ [first]) mid ++
          scriptedStep inp (calls ++ [first] ++ mid) last :: []) := by
  simp only [scriptedSteps, scriptedStep, scriptedState, opTrace, opRun, asOps, List.map_append,
    List.map_cons, List.map_nil, trace_append, runCalls_append, trace, runCalls, List.append_assoc,
    List.cons_append, List.nil_append]

theorem scripted_observations (inp : Inputs) (calls : List TimeCall) :
    (scriptedStep inp calls .token).call.observations inp (scriptedStep inp calls .token).before
      = (scriptedState inp calls).observe inp := rfl

end Calls

attribute [local instance] Rounding.double

/-- A token of the steady run. -/
def steadyToken : TimeToken := ⟨py "b", 1, 1, 90⟩

/-- A token that is checked 20 ms later, with a snapshot in between. -/
theorem token_span_in_time :
    TokenSpan steady (scriptedStep steady setClock .token)
      (scriptedSteps steady (setClock ++ [.token]) [.snapshot])
      (scriptedStep steady (setClock ++ [.token] ++ [.snapshot])
        (.valid (some steadyToken) .enqueue)) := by
  have hc : PlatformTime.create steady .scripted = .ok (.started steady .scripted) :=
    if_pos (by decide +kernel)
  exact token_spans_valid_time rfl hc steady_monotone (scripted_cut steady setClock _ _ _) rfl
    (by decide +kernel) rfl (by decide +kernel) rfl (by decide +kernel)

/-- Two rounds, five minutes apart. -/
def secondRound : Inputs := .scripted fun i => 10 * i + if i ≤ 8 then 0 else 300000

/-- A round whose answers are `offset` ahead of those of the first one. -/
def laterRound (start offset : ℤ) : List TimeCall :=
  (List.range 3).flatMap fun i =>
    let sent := start + 20 * i
    [.request, .response (scriptedAnswer sent (sent + 980 + offset) (sent + 982 + offset))
      (sent + 10) (some (py "s")) false]

/-- A round five seconds off makes the clock suspect. -/
def suspectCalls : List TimeCall := setClock ++ laterRound 300090 5000

/-- A token of the suspect clock. -/
def suspectToken : TimeToken := ⟨py "b", 2, 1, 300160⟩

theorem secondRound_monotone : Monotone secondRound.mono := by
  intro i j hij
  show (10 * i : ℤ) + (if i ≤ 8 then 0 else 300000) ≤ 10 * j + if j ≤ 8 then 0 else 300000
  split_ifs <;> omega

/-- The next round agrees with the old clock: the token, made while time was
    suspect, is valid 70 ms later. -/
theorem suspect_token_resumed :
    Monotone secondRound.mono ∧ ∃ calls mid tok,
      (scriptedStep secondRound calls .token).result = .ok (.call (.token tok)) ∧
      (scriptedStep secondRound (calls ++ [.token] ++ mid) (.valid (some tok) .enqueue)).result
        = .ok (.call (.valid true)) ∧
      (scriptedState secondRound calls).state = .suspect ∧
      ¬ TokenSpan secondRound (scriptedStep secondRound calls .token)
        (scriptedSteps secondRound (calls ++ [.token]) mid)
        (scriptedStep secondRound (calls ++ [.token] ++ mid) (.valid (some tok) .enqueue)) := by
  refine ⟨secondRound_monotone, suspectCalls, laterRound 300170 0, suspectToken,
    by decide +kernel, by decide +kernel, by decide +kernel, fun hspan => ?_⟩
  obtain ⟨t, hobs, hvalid⟩ := hspan.valid
  have hinvalid : ((scriptedState secondRound suspectCalls).observe secondRound).all
      (fun t => !t.timeValid) = true := by decide +kernel
  rw [scripted_observations] at hobs
  rw [hobs] at hinvalid
  simp [hvalid] at hinvalid

end Scripted

end PlcnextIot.Core
