/-
  PlcnextIot.Core.SyncRuns

  The synchronisation rounds of a whole run.

  `BetweenCalls` reads the open round off the history of the run: the step that
  opened it, the requests issued since, and the candidates of the responses
  accepted since, all in one connection.  From it follow what an accepted
  response matches and what the candidates of an ending round have in common.
  The back-off is carried separately, from the step in which a round fails.

  One limit is put on the stored candidates.  A call that runs out of revision
  numbers raises while it ends a round, and leaves the round open with all its
  candidates (`candidates_after_exhaustion`).
-/

import PlcnextIot.Core.SyncRounds
import PlcnextIot.Core.TimeHandshake
import PlcnextIot.Core.TimeMonotone

namespace PlcnextIot.Core

open PlcnextIot.Python PlcnextIot.Contracts PlcnextIot.Effect PlcnextIot.Effect.Prog

/-! ## Steps -/

/-- The step is a response that was accepted. -/
def TimeOpStep.Accepts (st : TimeOpStep) : Prop := st.result = .ok (.call (.accepted true))

/-- The step ended a round. -/
def TimeOpStep.Ends [JsonSchema] [Rounding] (inp : Inputs) (st : TimeOpStep) : Prop :=
  (st.call.ends inp st.before).isSome = true ∧ st.result.isOk = true

/-- The step left the open round open, in the same connection. -/
structure TimeOpStep.Within [JsonSchema] [Rounding] (inp : Inputs) (st : TimeOpStep) : Prop where
  connected : ¬ st.Reconnects
  open_ : ¬ st.Ends inp

/-- What a step does to the open round. -/
inductive RoundMove [JsonSchema] [Rounding] (inp : Inputs) (st : TimeOpStep) : Prop where
  | ended (hidle : st.after.Idle) (hnone : st.asked = none)
  | opened (r : TimeRequest) (hasked : st.asked = some r) (hopens : st.after.Opens r)
  | continued (hwithin : st.Within inp)
      (hround : Continues st.before st.asked (st.call.taken inp st.before) st.after)
      (hfew : st.after.candidates.length ≤ 2 ∨ st.call.taken inp st.before = none ∨
        st.result = .error .timeUnavailable)

section Steps

variable [JsonSchema] [Rounding] {inp : Inputs} {c : TimeConfig} {s : PlatformTime}

omit [JsonSchema] [Rounding] in
/-- A step that returns no request has not asked. -/
theorem asked_of_ne {st : TimeOpStep} (h : ∀ r, st.result ≠ .ok (.call (.request r))) :
    st.asked = none := by
  unfold TimeOpStep.asked
  split
  · rename_i r hr
    exact absurd hr (h r)
  · rfl

omit [JsonSchema] [Rounding] in
theorem asked_eq {st : TimeOpStep} {r : Option TimeRequest}
    (h : st.result = .ok (.call (.request r))) : st.asked = r := by
  simp only [TimeOpStep.asked, h]

/-- One step of a run. -/
abbrev opStep (inp : Inputs) (c : TimeConfig) (s : PlatformTime) (op : TimeOp) : TimeOpStep :=
  perform (TimeOp.exec inp c) s op

/-- What a step does, with the session it happens in. -/
structure Moved (inp : Inputs) (st : TimeOpStep) : Prop where
  round : RoundMove inp st
  session : st.after.Idle ∨ st.after.session = st.before.session
  issued : ∀ r, st.asked = some r →
    r.clientMonoMs = inp.mono st.before.reads.mono ∧ st.before.session = some r.sessionId
  answered : st.Accepts → st.after.pending = none

/-- A step that at most drops the outstanding request. -/
theorem moved_of_frame {st : TimeOpStep} (hf : RoundFrame st.before st.after)
    (hasked : st.asked = none) (htaken : st.call.taken inp st.before = none)
    (hwithin : st.Within inp) (hno : ¬ st.Accepts) : Moved inp st := by
  refine ⟨.continued hwithin ?_ (.inr (.inl htaken)), .inr hf.session, fun r hr => ?_,
    fun h => absurd h hno⟩
  · rw [hasked, htaken]
    exact hf.continues
  · rw [hasked] at hr
    cases hr

/-- A step that ends no round and makes no connection. -/
theorem within_of_none {st : TimeOpStep} (hends : st.call.ends inp st.before = none)
    (hconn : ¬ st.Reconnects) : st.Within inp := by
  refine ⟨hconn, fun h => ?_⟩
  rw [TimeOpStep.Ends, hends] at h
  exact Bool.noConfusion h.1

omit [JsonSchema] [Rounding] in
/-- A new connection has no round. -/
theorem wp_connect_idle {session : PyStr} :
    wp (PlatformTime.connect session) (fun _ s' => s'.Idle) (fun _ s' => s' = s) s := by
  simp only [PlatformTime.connect, wp_bind, wp_check, wp_get, wp_modify]
  exact ⟨fun _ => ⟨fun _ => ⟨rfl, rfl, rfl⟩, fun _ => trivial⟩, fun _ => trivial⟩

omit [JsonSchema] [Rounding] in
theorem wp_disconnect_idle :
    wp PlatformTime.disconnect (fun _ s' => s'.Idle) (fun _ s' => s' = s) s := by
  simp only [PlatformTime.disconnect, wp_bind, wp_modify]
  exact wp_connect_idle.mono (fun _ _ h => ⟨h.roundStart, h.pending, h.candidates⟩)
    fun _ _ h => h

omit [JsonSchema] in
theorem framed_loadHistoryBoundary {basis : Option PyStr} {utcLower : Option ℤ} :
    Framed (PlatformTime.loadHistoryBoundary inp basis utcLower) s := by
  unfold Framed PlatformTime.loadHistoryBoundary
  cases utcLower with
  | none => exact .refl s
  | some lower =>
      simp only [wp_bind, wp_get, wp_ite, wp_modify, wp_pure, PlatformTime.requireMaintenance]
      have hset : RoundFrame s { s with floor := some (max (s.floor.getD 0) lower) } :=
        ⟨rfl, rfl, rfl, rfl, .inr rfl⟩
      exact ⟨fun _ => framed_invalidate _ _,
        fun _ => ⟨fun _ => (framed_invalidate _ _).after hset, fun _ => hset⟩⟩

/-- A connection, made or refused. -/
theorem moved_of_connect {op : TimeOp} (hidle : wp (op.exec inp c)
      (fun out s' => out = .call .done ∧ s'.Idle) (fun _ s' => s' = s) s)
    (hop : op = .call .disconnect ∨ ∃ session, op = .call (.connect session)) :
    Moved inp (opStep inp c s op) := by
  obtain ⟨hok, herr⟩ := perform_spec hidle
  cases hres : (opStep inp c s op).result with
  | ok out =>
      obtain ⟨rfl, hi⟩ := hok out hres
      have hasked : (opStep inp c s op).asked = none :=
        asked_of_ne fun r => by rw [hres]; simp
      refine ⟨.ended hi hasked, .inl hi, fun r hr => ?_, fun _ => hi.pending⟩
      rw [hasked] at hr
      cases hr
  | error e =>
      have hsame := herr e hres
      refine moved_of_frame (by rw [hsame]; exact .refl s)
        (asked_of_ne fun r => by rw [hres]; simp) ?_ (within_of_none ?_ fun h => ?_)
        (by rw [TimeOpStep.Accepts, hres]; simp)
      · rcases hop with rfl | ⟨session, rfl⟩ <;> rfl
      · rcases hop with rfl | ⟨session, rfl⟩ <;> rfl
      · rw [TimeOpStep.Reconnects, hres] at h
        exact Bool.noConfusion h.1

/-- An operation that only runs the clock. -/
theorem moved_of_framed {op : TimeOp} (hf : wp (op.exec inp c)
      (fun out s' => ((∀ r, out ≠ .call (.request r)) ∧ out ≠ .call (.accepted true)) ∧
        RoundFrame s s')
      (fun _ s' => RoundFrame s s') s)
    (htaken : op.taken inp s = none) (hends : op.ends inp s = none)
    (hop : ∀ st : TimeOpStep, st.call = op → ¬ st.Reconnects) :
    Moved inp (opStep inp c s op) := by
  obtain ⟨hok, herr⟩ := perform_spec hf
  cases hres : (opStep inp c s op).result with
  | ok out =>
      obtain ⟨hout, h⟩ := hok out hres
      exact moved_of_frame h (asked_of_ne fun r => by rw [hres]; simpa using hout.1 r) htaken
        (within_of_none hends (hop _ rfl)) (by rw [TimeOpStep.Accepts, hres]; simpa using hout.2)
  | error e =>
      exact moved_of_frame (herr e hres) (asked_of_ne fun r => by rw [hres]; simp) htaken
        (within_of_none hends (hop _ rfl)) (by rw [TimeOpStep.Accepts, hres]; simp)

theorem moved_request (hjitter : inp.Uniform) (hs : s.Steady inp) :
    Moved inp (opStep inp c s (.call .request)) := by
  have hwp : wp ((TimeOp.call .request).exec inp c)
      (fun out s' => ∃ r, out = .call (.request r) ∧
        Requests (s.closes (inp.mono s.reads.mono)) (inp.mono s.reads.mono) s r s' ∧
        (r ≠ none → s.session ≠ none))
      (fun e s' => e = .timeUnavailable ∧ RoundFrame s s') s := by
    simp only [TimeOp.exec, TimeCall.exec, wp_bind, wp_pure]
    exact (wp_request_round hjitter hs.regular hs.timed.le).mono (fun r _ h => ⟨r, rfl, h⟩)
      fun _ _ h => h
  obtain ⟨hok, herr⟩ := perform_spec hwp
  have hconn : ¬ (opStep inp c s (.call .request)).Reconnects := fun h => h.2
  cases hres : (opStep inp c s (.call .request)).result with
  | ok out =>
      obtain ⟨r, rfl, h, hsess⟩ := hok out hres
      have hasked := asked_eq hres
      refine ⟨?_, .inr h.session, fun p hp => ?_, fun ha => ?_⟩
      -- No request, or the first of a round, or a further one of the same round.
      · rcases h.round with ⟨hr, hidle, -⟩ | ⟨p, hr, ho⟩ | ⟨hc, hno⟩
        · exact .ended hidle (hasked.trans hr)
        · exact .opened p (hasked.trans hr) ho
        · refine .continued (within_of_none ?_ hconn) ?_ (.inr (.inl rfl))
          · show (if s.closes (inp.mono s.reads.mono) then some s.candidates else none) = none
            rw [hno]
            rfl
          · rw [hasked]
            exact hc
      · rw [hasked] at hp
        have hi := h.issued p hp
        obtain ⟨session, hs'⟩ := Option.ne_none_iff_exists'.mp
          (hsess (by rw [hp]; exact Option.some_ne_none p))
        refine ⟨hi.clientMonoMs, ?_⟩
        rw [perform_before, hi.sessionId, hs']
        rfl
      · rw [TimeOpStep.Accepts, hres] at ha
        cases ha
  | error e =>
      obtain ⟨rfl, hf⟩ := herr e hres
      refine moved_of_frame hf (asked_of_ne fun r => by rw [hres]; simp) rfl ⟨hconn, fun h => ?_⟩
        (by rw [TimeOpStep.Accepts, hres]; simp)
      rw [TimeOpStep.Ends, hres] at h
      exact Bool.noConfusion h.2

/-- What a call of `response` leaves, as a step. -/
theorem response_step (hjitter : inp.Uniform) (hs : s.Steady inp) (payload : Bytes) (received : ℤ)
    (session : Option PyStr) (retained : Bool) :
    let op : TimeOp := .call (.response payload received session retained)
    let st := opStep inp c s op
    st.after.session = s.session ∧
      ((st.result = .ok (.call (.accepted false)) ∧ op.taken inp s = none ∧ Refused s st.after ∧
          Continues s none none st.after) ∨
        (st.result = .ok (.call (.accepted true)) ∧ ∃ c, op.taken inp s = some c ∧
          st.after.pending = none ∧ Accepts (inp.mono s.reads.mono) s c st.after) ∨
        (st.result.isOk = false ∧ Continues s none (op.taken inp s) st.after ∧
          (op.taken inp s ≠ none → st.result = .error .timeUnavailable))) := by
  intro op st
  have hwp : wp (op.exec inp c)
      (fun out s' => s'.session = s.session ∧
        ((out = .call (.accepted false) ∧ op.taken inp s = none ∧ Refused s s' ∧
            Continues s none none s') ∨
          (out = .call (.accepted true) ∧ ∃ c, op.taken inp s = some c ∧ s'.pending = none ∧
            Accepts (inp.mono s.reads.mono) s c s')))
      (fun e s' => s'.session = s.session ∧ Continues s none (op.taken inp s) s' ∧
        (op.taken inp s ≠ none → e = .timeUnavailable)) s := by
    simp only [op, TimeOp.exec, TimeCall.exec, wp_bind, wp_pure]
    refine (wp_response_round hjitter hs.timed.le).mono ?_ fun _ _ h => h
    rintro b s' ⟨hsess, ⟨rfl, h⟩ | ⟨rfl, h⟩⟩
    · exact ⟨hsess, .inl ⟨rfl, h⟩⟩
    · exact ⟨hsess, .inr ⟨rfl, h⟩⟩
  obtain ⟨hok, herr⟩ := perform_spec hwp
  cases hres : (opStep inp c s op).result with
  | ok out =>
      obtain ⟨hsess, ⟨rfl, h⟩ | ⟨rfl, h⟩⟩ := hok out hres
      · exact ⟨hsess, .inl ⟨rfl, h⟩⟩
      · exact ⟨hsess, .inr (.inl ⟨rfl, h⟩)⟩
  | error e =>
      obtain ⟨hsess, hc, he⟩ := herr e hres
      exact ⟨hsess, .inr (.inr ⟨rfl, hc, fun h => by rw [he h]⟩)⟩

theorem moved_response (hjitter : inp.Uniform) (hs : s.Steady inp) {payload : Bytes} {received : ℤ}
    {session : Option PyStr} {retained : Bool} :
    Moved inp (opStep inp c s (.call (.response payload received session retained))) := by
  obtain ⟨hsess, hround⟩ := response_step (c := c) hjitter hs payload received session
    retained
  generalize hst : opStep inp c s (.call (.response payload received session retained)) = st
    at hsess hround ⊢
  have hbefore : st.before = s := by rw [← hst]; rfl
  have hcall : st.call = .call (.response payload received session retained) := by rw [← hst]; rfl
  have hconn : ¬ st.Reconnects := by
    rw [TimeOpStep.Reconnects, hcall]
    exact fun h => h.2
  have hasked : st.asked = none := by
    refine asked_of_ne fun r hr => ?_
    rcases hround with ⟨hres, -⟩ | ⟨hres, -⟩ | ⟨hres, -⟩ <;> rw [hr] at hres <;> cases hres
  have hissued : ∀ r, st.asked = some r →
      r.clientMonoMs = inp.mono st.before.reads.mono ∧ st.before.session = some r.sessionId := by
    intro r hr
    rw [hasked] at hr
    cases hr
  refine ⟨?_, .inr (hbefore ▸ hsess), hissued, fun ha => ?_⟩
  case refine_2 =>
    rcases hround with ⟨hres, -⟩ | ⟨-, -, -, hp, -⟩ | ⟨hres, -⟩
    · rw [TimeOpStep.Accepts, hres] at ha
      cases ha
    · exact hp
    · rw [TimeOpStep.Accepts] at ha
      rw [ha] at hres
      cases hres
  -- Refused, taken, or raised.
  rcases hround with ⟨-, htaken, -, hc⟩ | ⟨-, cand, htaken, -, hacc⟩ | ⟨hres, hc, he⟩
  · refine .continued (within_of_none ?_ hconn) ?_ (.inr (.inl ?_))
    · rw [hbefore, hcall, TimeOp.ends, htaken]
      rintro ⟨⟩
    · rw [hasked, hbefore, hcall, htaken]
      exact hc
    · rw [hbefore, hcall, htaken]
  · rcases hacc with ⟨-, hidle, -⟩ | ⟨hlen, hc⟩
    · exact .ended hidle hasked
    · refine .continued (within_of_none ?_ hconn) ?_ (.inl ?_)
      · rw [hbefore, hcall, TimeOp.ends, htaken]
        · exact if_neg (by omega)
        · rintro ⟨⟩
      · rw [hasked, hbefore, hcall, htaken]
        exact hc
      · rw [hc.candidates]
        simpa using hlen
  · refine .continued ⟨hconn, fun h => ?_⟩ ?_ ?_
    · have hok := h.2
      rw [hres] at hok
      cases hok
    · rw [hasked, hbefore, hcall]
      exact hc
    · rw [hbefore, hcall]
      by_cases hnone : TimeOp.taken inp s (.call (.response payload received session retained)) = none
      · exact .inr (.inl hnone)
      · exact .inr (.inr (he hnone))

/-- What a step of the synchronisation does to the open round. -/
theorem op_moved (hjitter : inp.Uniform) (hs : s.Steady inp) {op : TimeOp} (hop : op.syncs = true) :
    Moved inp (opStep inp c s op) := by
  cases op with
  | requireMaintenance => cases hop
  | read completed => cases hop
  | diagnostics => cases hop
  | readMono => cases hop
  | call k =>
      cases k with
      | token => cases hop
      | valid token purpose => cases hop
      | require token purpose => cases hop
      | controlSubmitted kind token => cases hop
      | connect session =>
          refine moved_of_connect ?_ (.inr ⟨session, rfl⟩)
          simp only [TimeOp.exec, TimeCall.exec, wp_bind, wp_pure]
          exact wp_connect_idle.mono (fun _ _ h => ⟨trivial, h⟩) fun _ _ h => h
      | disconnect =>
          refine moved_of_connect ?_ (.inl rfl)
          simp only [TimeOp.exec, TimeCall.exec, wp_bind, wp_pure]
          exact wp_disconnect_idle.mono (fun _ _ h => ⟨trivial, h⟩) fun _ _ h => h
      | request => exact moved_request hjitter hs
      | response payload received session retained => exact moved_response hjitter hs
      | snapshot =>
          refine moved_of_framed ?_ rfl rfl fun st hst h => ?_
          · simp only [TimeOp.exec, TimeCall.exec, wp_bind, wp_pure]
            exact (wp_snapshot_looks hs.timed.le).mono (fun _ _ h => ⟨by simp, h.frame⟩)
              fun _ _ h => h.2
          · rw [TimeOpStep.Reconnects, hst] at h
            exact h.2
      | loadHistoryBoundary basis utcLower =>
          refine moved_of_framed ?_ rfl rfl fun st hst h => ?_
          · simp only [TimeOp.exec, TimeCall.exec, wp_bind, wp_pure]
            exact framed_loadHistoryBoundary.mono (fun _ _ h => ⟨by simp, h⟩) fun _ _ h => h.2
          · rw [TimeOpStep.Reconnects, hst] at h
            exact h.2

end Steps

/-! ## Between calls -/

/-- The step neither made a connection nor asked, and answered nothing. -/
structure TimeOpStep.LeavesOpen (st : TimeOpStep) : Prop where
  connected : ¬ st.Reconnects
  asked : st.asked = none
  answered : ¬ st.Accepts

/-- `r` is the last request of the connection, and has not been answered. -/
def Outstanding (past : List TimeOpStep) (r : TimeRequest) : Prop :=
  ∃ p asker q, past = p ++ asker :: q ∧ asker.asked = some r ∧ ∀ st ∈ q, st.LeavesOpen

/-- The open round, with the step that opened it and the steps since. -/
structure RoundOf [JsonSchema] [Rounding] (inp : Inputs) (opener : TimeOpStep) (since : List TimeOpStep)
    (s : PlatformTime) : Prop where
  opened : ∃ r, opener.asked = some r ∧ s.roundStart = some r.clientMonoMs
  within : ∀ st ∈ since, st.Within inp
  /-- The requests of the round are counted, and there are at most ten. -/
  attempts : s.attempts = ((opener :: since).filterMap TimeOpStep.asked).length
  requests : s.attempts ≤ 10
  /-- The stored candidates are those of the responses to them. -/
  stored : s.candidates = since.filterMap fun st => st.call.taken inp st.before
  answered : s.candidates.length + s.pending.elim 0 (fun _ => 1) ≤ s.attempts
  candidates : s.candidates.length ≤ 2 ∨ ∃ st ∈ since, st.result = .error .timeUnavailable

/-- What holds between two calls. -/
structure BetweenCalls [JsonSchema] [Rounding] (inp : Inputs) (past : List TimeOpStep) (s : PlatformTime) :
    Prop where
  idle : s.roundStart = none → s.Idle
  round : s.roundStart ≠ none → ∃ p opener since, past = p ++ opener :: since ∧
    RoundOf inp opener since s
  outstanding : ∀ r, s.pending = some r → s.session = some r.sessionId ∧ Outstanding past r

section History

variable [JsonSchema] [Rounding] {inp : Inputs} {c : TimeConfig} {s : PlatformTime}
  {past : List TimeOpStep} {st : TimeOpStep}

omit [JsonSchema] [Rounding] in
theorem Outstanding.still {r : TimeRequest} (h : Outstanding past r) (hst : st.LeavesOpen) :
    Outstanding (past ++ [st]) r := by
  obtain ⟨p, asker, q, rfl, ha, hq⟩ := h
  refine ⟨p, asker, q ++ [st], by simp, ha, fun st' hmem => ?_⟩
  rcases List.mem_append.mp hmem with h | h
  · exact hq st' h
  · rw [List.mem_singleton.mp h]
    exact hst

/-- One step more in the open round. -/
theorem RoundOf.step {opener : TimeOpStep} {since : List TimeOpStep}
    (h : RoundOf inp opener since st.before) (hwithin : st.Within inp)
    (hc : Continues st.before st.asked (st.call.taken inp st.before) st.after)
    (hfew : st.after.candidates.length ≤ 2 ∨ st.call.taken inp st.before = none ∨
      st.result = .error .timeUnavailable) : RoundOf inp opener (since ++ [st]) st.after := by
  have hcount : (opener :: (since ++ [st])).filterMap TimeOpStep.asked
      = (opener :: since).filterMap TimeOpStep.asked ++ st.asked.toList := by
    rw [← List.cons_append, List.filterMap_append]
    cases hst : st.asked <;> simp [hst]
  refine ⟨?_, fun st' hmem => ?_, ?_, ?_, ?_, ?_, ?_⟩
  case refine_1 =>
    obtain ⟨r, hr, hstart⟩ := h.opened
    exact ⟨r, hr, hc.roundStart.trans hstart⟩
  case refine_2 =>
    rcases List.mem_append.mp hmem with hm | hm
    · exact h.within st' hm
    · rw [List.mem_singleton.mp hm]
      exact hwithin
  case refine_3 => rw [hc.attempts, h.attempts, hcount, List.length_append]
  case refine_4 =>
    rw [hc.attempts]
    cases hst : st.asked with
    | none => simpa using h.requests
    | some r =>
        have hlt := (hc.asks r hst).2.2
        simp only [Option.toList_some, List.length_singleton]
        omega
  case refine_5 =>
    rw [hc.candidates, h.stored, List.filterMap_append]
    cases ht : st.call.taken inp st.before <;> simp [ht]
  case refine_6 =>
    -- A candidate takes the place of the request it answers.
    have hbefore := h.answered
    rw [hc.candidates, hc.attempts, List.length_append]
    cases hst : st.asked with
    | some r =>
        obtain ⟨hp, -, -⟩ := hc.asks r hst
        cases ht : st.call.taken inp st.before with
        | some cand => simp [(hc.takes cand ht).2] at hp
        | none =>
            simp only [hp, Option.elim_some, Option.toList_some, Option.toList_none,
              List.length_nil, List.length_singleton]
            omega
    | none =>
        cases ht : st.call.taken inp st.before with
        | some cand =>
            obtain ⟨hsome, hnone⟩ := hc.takes cand ht
            obtain ⟨p, hp⟩ := Option.ne_none_iff_exists'.mp hsome
            rw [hp] at hbefore
            simpa [hnone] using hbefore
        | none =>
            have hle : st.after.pending.elim 0 (fun _ => 1) ≤ st.before.pending.elim 0 (fun _ => 1) := by
              rcases hc.idle hst with hp | hp <;> simp [hp]
            simp only [Option.toList_none, List.length_nil]
            omega
  case refine_7 =>
    rcases hfew with hlen | hnone | herr
    · exact .inl hlen
    · rcases h.candidates with hlen | ⟨st', hmem, herr⟩
      · refine .inl ?_
        rw [hc.candidates, hnone]
        simpa using hlen
      · exact .inr ⟨st', List.mem_append_left _ hmem, herr⟩
    · exact .inr ⟨st, List.mem_append_right _ List.mem_cons_self, herr⟩

/-- What holds between calls holds after the next one. -/
theorem BetweenCalls.step (h : BetweenCalls inp past st.before) (hm : Moved inp st) :
    BetweenCalls inp (past ++ [st]) st.after := by
  have hasks : ∀ r, st.asked = some r → st.after.pending = some r →
      st.after.session = some r.sessionId ∧ Outstanding (past ++ [st]) r := by
    intro r hr hp
    refine ⟨?_, past, st, [], rfl, hr, by simp⟩
    rcases hm.session with hidle | hsame
    · rw [hidle.pending] at hp
      cases hp
    · exact hsame.trans (hm.issued r hr).2
  cases hm.round with
  | ended hidle hnone =>
      refine ⟨fun _ => hidle, fun hno => absurd hidle.roundStart hno, fun r hr => ?_⟩
      rw [hidle.pending] at hr
      cases hr
  | opened r hasked hopens =>
      refine ⟨fun hno => ?_, fun _ => ⟨past, st, [], rfl, ⟨⟨r, hasked, hopens.roundStart⟩, by simp,
        by simp [hopens.attempts, hasked], by simp [hopens.attempts], hopens.candidates,
        by simp [hopens.candidates, hopens.pending, hopens.attempts],
        .inl (by simp [hopens.candidates])⟩⟩, fun r' hr' => ?_⟩
      · rw [hopens.roundStart] at hno
        cases hno
      · rw [hopens.pending] at hr'
        obtain rfl := Option.some.inj hr'
        exact hasks r hasked hopens.pending
  | continued hwithin hc hfew =>
      refine ⟨fun hno => ?_, fun hsome => ?_, fun r hr => ?_⟩
      · rw [hc.roundStart] at hno
        -- Outside a round a call that begins none neither asks nor takes an answer.
        have hidle := h.idle hno
        have hasked : st.asked = none := by
          by_contra hsome
          obtain ⟨r, hr⟩ := Option.ne_none_iff_exists'.mp hsome
          exact (hc.asks r hr).2.1 hno
        have htaken : st.call.taken inp st.before = none := by
          by_contra hsome
          obtain ⟨cand, hcand⟩ := Option.ne_none_iff_exists'.mp hsome
          exact (hc.takes cand hcand).1 hidle.pending
        refine ⟨hc.roundStart.trans hno, ?_, ?_⟩
        · rcases hc.idle hasked with hp | hp
          · exact hp
          · exact hp.trans hidle.pending
        · rw [hc.candidates, htaken, hidle.candidates]
          rfl
      · rw [hc.roundStart] at hsome
        obtain ⟨p, opener, since, rfl, hround⟩ := h.round hsome
        exact ⟨p, opener, since ++ [st], by simp, hround.step hwithin hc hfew⟩
      · cases hst : st.asked with
        | some r' =>
            obtain ⟨hp, -, -⟩ := hc.asks r' hst
            rw [hp] at hr
            obtain rfl := Option.some.inj hr
            exact hasks r' hst hp
        -- Without a new request the old one is outstanding still, or has been dropped.
        | none =>
            rcases hc.idle hst with hp | hp
            · rw [hp] at hr
              cases hr
            · rw [hp] at hr
              obtain ⟨hsess, hold⟩ := h.outstanding r hr
              refine ⟨?_, hold.still ⟨hwithin.connected, hst, fun ha => ?_⟩⟩
              · rcases hm.session with hidle | hsame
                · rw [← hp, hidle.pending] at hr
                  cases hr
                · exact hsame.trans hsess
              · rw [← hp, hm.answered ha] at hr
                cases hr

/-- Before the first call no round is open. -/
theorem between_create (hc : PlatformTime.create inp c = .ok s) : BetweenCalls inp [] s := by
  unfold PlatformTime.create at hc
  split at hc
  · cases hc
    exact ⟨fun _ => ⟨rfl, rfl, rfl⟩, fun h => absurd rfl h, fun r hr => by cases hr⟩
  · cases hc

/-- Between the calls of every run. -/
theorem between_run (hmono : Monotone inp.mono) (hjitter : inp.Uniform) (hs : s.Steady inp)
    (h0 : BetweenCalls inp [] s) {ops : List TimeOp} (hops : ∀ op ∈ ops, op.syncs = true) :
    BetweenCalls inp (opTrace inp c s ops) (opRun inp c s ops) := by
  have hsyncs : ∀ st ∈ trace (TimeOp.exec inp c) s ops, st.call.syncs = true := by
    intro st hst
    obtain ⟨past, rest, hsplit⟩ := List.append_of_mem hst
    obtain ⟨ops₁, ops₂, rfl, -, htail⟩ := trace_eq_append hsplit
    obtain ⟨op, ops₃, rfl, rfl, -⟩ := trace_eq_cons htail.symm
    exact hops op (by simp)
  have hrun : (∀ st ∈ trace (TimeOp.exec inp c) s ops, st.call.syncs = true) →
      (runCalls (TimeOp.exec inp c) s ops).Steady inp ∧
        BetweenCalls inp (trace (TimeOp.exec inp c) s ops) (runCalls (TimeOp.exec inp c) s ops) := by
    refine trace_history (I := fun past s' => (∀ st ∈ past, st.call.syncs = true) →
      s'.Steady inp ∧ BetweenCalls inp past s') (fun _ => ⟨hs, h0⟩) (fun past s' op hI hsync => ?_) ops
    obtain ⟨hsteady, hb⟩ := hI fun st hst => hsync st (List.mem_append_left _ hst)
    have hop : op.syncs = true := hsync _ (List.mem_append_right _ List.mem_cons_self)
    exact ⟨(perform_steady hmono op hsteady).2.2, @BetweenCalls.step _ _ inp past (opStep inp c s' op) hb
      (op_moved hjitter hsteady hop)⟩
  exact (hrun hsyncs).2

end History

/-! ## Responses -/

/-- The accepted response answers the one outstanding request of its session,
    and consumes it. -/
structure Answers [JsonSchema] [Rounding] (past : List TimeOpStep) (st : TimeOpStep) (r : TimeRequest) : Prop
    where
  outstanding : Outstanding past r
  before : st.before.pending = some r
  session : st.before.session = some r.sessionId
  echoed : ∃ payload received m, st.call = .call (.response payload received (some r.sessionId) false) ∧
    readResponse payload st.before.gateway = .ok (some m) ∧ m.echo = r
  consumed : st.after.pending = none

section Answered

variable [JsonSchema] [Rounding] {inp : Inputs} {c : TimeConfig} {s : PlatformTime}
  {past : List TimeOpStep} {st : TimeOpStep}

/-- A response that is taken echoes the outstanding request, in its session. -/
theorem judge_answers {now : ℤ} {payload : Bytes} {received : ℤ} {session : Option PyStr}
    {retained : Bool} {cand : Candidate}
    (h : s.judge now payload received session retained = .ok (.take cand)) :
    ∃ r m, s.pending = some r ∧ retained = false ∧ session = s.session ∧
      readResponse payload s.gateway = .ok (some m) ∧ m.echo = r := by
  unfold PlatformTime.judge at h
  split at h
  · cases h
  rename_i r hpend
  split at h
  · cases h
  rename_i hsource
  simp only [not_or, Bool.not_eq_true, ne_eq, not_not] at hsource
  split at h
  · cases h
  split at h
  · cases h
  split at h
  · cases h
  · cases h
  · rename_i m hread
    split at h
    · cases h
    · rename_i hecho
      exact ⟨r, m, hpend, hsource.1, hsource.2, hread, not_not.mp hecho⟩

/-- A candidate comes from a response to the outstanding request. -/
theorem taken_some {op : TimeOp} {cand : Candidate} (h : op.taken inp s = some cand) :
    ∃ payload received session retained, op = .call (.response payload received session retained) ∧
      s.judge (inp.mono s.reads.mono) payload received session retained = .ok (.take cand) := by
  unfold TimeOp.taken at h
  split at h
  · rename_i payload received session retained
    split at h
    · rename_i cand' hj
      obtain rfl := Option.some.inj h
      exact ⟨payload, received, session, retained, rfl, hj⟩
    · cases h
  · cases h

/-- Only a response is accepted or refused. -/
theorem response_of_accepted {op : TimeOp} {b : Bool}
    (h : (opStep inp c s op).result = .ok (.call (.accepted b))) :
    ∃ payload received session retained, op = .call (.response payload received session retained) := by
  have hwp : wp (op.exec inp c) (fun out _ => out = .call (.accepted b) →
      ∃ payload received session retained, op = .call (.response payload received session retained))
      (fun _ _ => True) s := by
    cases op with
    | call k =>
        cases k
        case response payload received session retained =>
          exact wp_of_forall (fun _ _ _ => ⟨payload, received, session, retained, rfl⟩) fun _ _ => trivial
        all_goals
          simp only [TimeOp.exec, TimeCall.exec, wp_bind, wp_pure]
          exact wp_of_forall (fun _ _ h => by cases h) fun _ _ => trivial
    | _ =>
        simp only [TimeOp.exec, wp_bind, wp_pure]
        exact wp_of_forall (fun _ _ h => by cases h) fun _ _ => trivial
  exact (perform_spec hwp).1 _ h rfl

theorem BetweenCalls.answers (h : BetweenCalls inp past s) (hjitter : inp.Uniform)
    (hs : s.Steady inp) {op : TimeOp} (hacc : (opStep inp c s op).Accepts) :
    ∃ r, Answers past (opStep inp c s op) r := by
  obtain ⟨payload, received, session, retained, rfl⟩ := response_of_accepted hacc
  obtain ⟨-, hround⟩ := response_step (c := c) hjitter hs payload received session
    retained
  rcases hround with ⟨hres, -⟩ | ⟨-, cand, htaken, hp, -⟩ | ⟨hres, -⟩
  · rw [TimeOpStep.Accepts, hres] at hacc
    cases hacc
  · obtain ⟨payload', received', session', retained', hop, hj⟩ := taken_some htaken
    cases hop
    obtain ⟨r, m, hpend, rfl, rfl, hread, hecho⟩ := judge_answers hj
    obtain ⟨hsess, hout⟩ := h.outstanding r hpend
    exact ⟨r, hout, hpend, hsess, ⟨payload, received, m, by rw [perform_call, hsess], hread, hecho⟩, hp⟩
  · rw [TimeOpStep.Accepts] at hacc
    rw [hacc] at hres
    cases hres

/-- A response that returns `False` is refused. -/
theorem refused_of_result (hjitter : inp.Uniform) (hs : s.Steady inp) {op : TimeOp}
    (hres : (opStep inp c s op).result = .ok (.call (.accepted false))) :
    Refused s (opStep inp c s op).after := by
  obtain ⟨payload, received, session, retained, rfl⟩ := response_of_accepted hres
  obtain ⟨-, hround⟩ := response_step (c := c) hjitter hs payload received session
    retained
  rcases hround with ⟨-, -, href, -⟩ | ⟨hres', -⟩ | ⟨hres', -⟩
  · exact href
  · rw [hres] at hres'
    cases hres'
  · rw [hres] at hres'
    cases hres'

/-- The candidates that a step combines: those of the responses since the round
    was opened, with no connection in between. -/
def Combines (inp : Inputs) (past : List TimeOpStep) (st : TimeOpStep) (cs : List Candidate) : Prop :=
  ∃ p opener since, past = p ++ opener :: since ∧ (∀ st' ∈ since, ¬ st'.Reconnects) ∧
    cs = (since ++ [st]).filterMap fun st' => st'.call.taken inp st'.before

theorem BetweenCalls.combines (h : BetweenCalls inp past st.before) {cs : List Candidate}
    (hends : st.call.ends inp st.before = some cs) : Combines inp past st cs := by
  have hround : st.before.roundStart ≠ none → cs = st.before.candidates ++ (st.call.taken inp st.before).toList →
      Combines inp past st cs := by
    intro hopen hcs
    obtain ⟨p, opener, since, rfl, hr⟩ := h.round hopen
    refine ⟨p, opener, since, rfl, fun st' hst' => (hr.within st' hst').connected, ?_⟩
    rw [hcs, hr.stored, List.filterMap_append]
    cases ht : st.call.taken inp st.before <;> simp [ht]
  unfold TimeOp.ends at hends
  split at hends
  · rename_i hcall
    have htaken : st.call.taken inp st.before = none := by rw [hcall]; rfl
    split at hends
    · rename_i hcloses
      refine hround (fun hno => ?_) (by simp [htaken, Option.some.inj hends])
      simp [PlatformTime.closes, PlatformTime.closesRound, hno] at hcloses
    · cases hends
  · split at hends
    · rename_i cand htaken
      obtain ⟨payload, received, session, retained, -, hj⟩ := taken_some htaken
      split at hends
      · refine hround (fun hno => pending_of_take hj (h.idle hno).pending) ?_
        rw [htaken, ← Option.some.inj hends]
        rfl
      · cases hends
    · cases hends

end Answered

/-! ## The back-off -/

/-- The reading with which a step begins. -/
def TimeOpStep.reading (inp : Inputs) (st : TimeOpStep) : ℤ := inp.mono st.before.reads.mono

/-- The step makes no connection and runs into no invalidation. -/
structure TimeOpStep.Quiet [JsonSchema] [Rounding] (inp : Inputs) (st : TimeOpStep) : Prop where
  connected : ¬ st.Reconnects
  kept : st.call.invalidates inp st.before = false

/-- A back-off of 5 to 60 seconds follows the step: a later request that no
    connection and no invalidation precedes returns nothing until it is over,
    and the first one after it opens the next round, unless the clock is in
    `MAINTENANCE`. -/
def BackOffFollows [JsonSchema] [Rounding] (inp : Inputs) (failed : TimeOpStep) (rest : List TimeOpStep) : Prop :=
  failed.asked = none ∧ ∃ delay, 5000 ≤ delay ∧ delay ≤ 60000 ∧
    ∀ mid asking later, rest = mid ++ asking :: later → asking.call = .call .request →
      (∀ st ∈ mid ++ [asking], st.Quiet inp) →
      (asking.reading inp < failed.reading inp + delay →
        asking.result = .ok (.call (.request none))) ∧
      (failed.reading inp + delay ≤ asking.reading inp → (∀ st ∈ mid, st.asked = none) →
        asking.before.state ≠ .maintenance → ∃ r, asking.result = .ok (.call (.request (some r))))

/-- No round is open, in a session, until `t`. -/
structure PlatformTime.Paused (t : ℤ) (s : PlatformTime) : Prop where
  idle : s.Idle
  nextSync : s.nextSync = t
  session : s.session ≠ none

section BackOff

variable [JsonSchema] [Rounding] {inp : Inputs} {c : TimeConfig} {s : PlatformTime} {t : ℤ}

omit [JsonSchema] [Rounding] in
/-- What changes nothing of a round but the clock keeps the pause. -/
theorem PlatformTime.Paused.frame {s' : PlatformTime} (h : s.Paused t) (hf : RoundFrame s s')
    (hn : s'.nextSync = s.nextSync) : s'.Paused t := by
  refine ⟨⟨hf.roundStart.trans h.idle.roundStart, ?_, hf.candidates.trans h.idle.candidates⟩,
    hn.trans h.nextSync, hf.session ▸ h.session⟩
  rcases hf.pending with hp | hp
  · exact hp
  · exact hp.trans h.idle.pending

/-- A request in the pause, as a step. -/
theorem paused_request (hs : s.Steady inp) (h : s.Paused t)
    (hkeep : (TimeOp.call .request).invalidates inp s = false) :
    let st := opStep inp c s (.call .request)
    (st.after.Paused t ∧ st.result = .ok (.call (.request none)) ∧
        (inp.mono s.reads.mono < t ∨ s.state = .maintenance)) ∨
      (∃ r, st.result = .ok (.call (.request (some r))) ∧ t ≤ inp.mono s.reads.mono ∧
        t ≤ st.after.lastMono) := by
  intro st
  have hexp : (s.slew (inp.mono s.reads.mono)).expires (inp.mono s.reads.mono) = false := by
    exact (Bool.or_eq_false_iff.mp hkeep).1
  have hwp := wp_request_idle hs.regular hs.timed.le h.idle h.session hexp
  have hwp' : wp ((TimeOp.call .request).exec inp c)
      (fun out s' => ∃ r, out = .call (.request r) ∧
        ((r = none ∧ s'.Idle ∧ s'.nextSync = s.nextSync ∧ s'.session = s.session ∧
          (inp.mono s.reads.mono < s.nextSync ∨ s.state = .maintenance)) ∨
        (∃ p, r = some p ∧ s.nextSync ≤ inp.mono s.reads.mono ∧ s.state ≠ .maintenance ∧
          s'.lastMono = inp.mono s.reads.mono)))
      (fun _ _ => False) s := by
    simp only [TimeOp.exec, TimeCall.exec, wp_bind, wp_pure]
    exact hwp.mono (fun r _ h => ⟨r, rfl, h⟩) fun _ _ h => h
  obtain ⟨hok, herr⟩ := perform_spec hwp'
  cases hres : st.result with
  | error e => exact (herr e hres).elim
  | ok out =>
      obtain ⟨r, rfl, ⟨rfl, hidle, hnext, hsess, hwhy⟩ | ⟨p, rfl, hle, -, hlast⟩⟩ := hok out hres
      · exact .inl ⟨⟨hidle, hnext.trans h.nextSync, hsess ▸ h.session⟩, rfl, h.nextSync ▸ hwhy⟩
      · exact .inr ⟨p, rfl, h.nextSync ▸ hle, by rw [h.nextSync] at hle; exact hle.trans hlast.ge⟩

omit [JsonSchema] in
/-- A boundary that does not contradict the clock only raises the floor. -/
theorem wp_loadHistoryBoundary_keeps {basis : Option PyStr} {utcLower : Option ℤ}
    (hkeep : s.contradicts basis utcLower = false) :
    wp (PlatformTime.loadHistoryBoundary inp basis utcLower)
      (fun _ s' => RoundFrame s s' ∧ s'.nextSync = s.nextSync) (fun _ _ => False) s := by
  unfold PlatformTime.loadHistoryBoundary
  cases utcLower with
  | none => exact ⟨.refl s, rfl⟩
  | some lower =>
      simp only [PlatformTime.contradicts, Option.any_some, Bool.or_eq_false_iff, bne_eq_false_iff_eq]
        at hkeep
      have hbehind : ({ s with floor := some (max (s.floor.getD 0) lower) } : PlatformTime).behindFloor
          (max (s.floor.getD 0) lower) = false := hkeep.2
      simp only [wp_bind, wp_get, wp_ite, wp_modify, wp_pure, hkeep.1, hbehind]
      simp only [ne_eq, not_true_eq_false, false_implies, not_false_eq_true, true_implies, true_and,
        Bool.false_eq_true, and_true]
      exact ⟨rfl, rfl, rfl, rfl, .inr rfl⟩

/-- Any other quiet operation keeps the pause. -/
theorem paused_other (hs : s.Steady inp) (h : s.Paused t) {op : TimeOp} (hop : op.syncs = true)
    (hrequest : op ≠ .call .request) (hquiet : (opStep inp c s op).Quiet inp) :
    (opStep inp c s op).after.Paused t ∧ (opStep inp c s op).asked = none := by
  have hkeep : op.closesClock inp s = false := (Bool.or_eq_false_iff.mp hquiet.kept).1
  -- What the program leaves, when it is not a connection that is made.
  have hrun : wp (op.exec inp c)
      (fun out s' => (s'.Paused t ∧ ∀ r, out ≠ .call (.request r)) ∨
        op = .call .disconnect ∨ ∃ session, op = .call (.connect session))
      (fun _ s' => s'.Paused t) s := by
    cases op with
    | requireMaintenance => cases hop
    | read completed => cases hop
    | diagnostics => cases hop
    | readMono => cases hop
    | call k =>
        simp only [TimeOp.exec, wp_bind, wp_pure]
        cases k with
        | request => exact absurd rfl hrequest
        | token => cases hop
        | valid token purpose => cases hop
        | require token purpose => cases hop
        | controlSubmitted kind token => cases hop
        | connect session =>
            simp only [TimeCall.exec, wp_bind, wp_pure]
            exact wp_connect_idle.mono (fun _ _ _ => .inr (.inr ⟨session, rfl⟩))
              fun _ s' hsame => hsame ▸ h
        | disconnect =>
            simp only [TimeCall.exec, wp_bind, wp_pure]
            exact wp_disconnect_idle.mono (fun _ _ _ => .inr (.inl trivial))
              fun _ s' hsame => hsame ▸ h
        | response payload received session retained =>
            simp only [TimeCall.exec, wp_bind, wp_pure, PlatformTime.response, wp_readMono, wp_get]
            have hj : s.readNext.judge (inp.mono s.reads.mono) payload received session retained
                = .ok (.refuse (if retained ∨ session ≠ s.session then .sourceMismatch
                  else .staleRequest)) := by
              have hp : s.readNext.pending = none := h.idle.pending
              simp only [PlatformTime.judge, hp]
              rfl
            rw [hj]
            exact .inl ⟨h.frame ⟨rfl, rfl, rfl, rfl, .inr rfl⟩ rfl, by simp⟩
        | snapshot =>
            simp only [TimeCall.exec, wp_bind, wp_pure]
            exact (wp_snapshot_keeps hs.timed.le hkeep).mono
              (fun _ _ hl => .inl ⟨h.frame hl.1 hl.2.1, by simp⟩) fun _ _ h => h.elim
        | loadHistoryBoundary basis utcLower =>
            simp only [TimeCall.exec, wp_bind, wp_pure]
            refine (wp_loadHistoryBoundary_keeps hkeep).mono (fun _ σ hl => ?_) fun _ _ h => h.elim
            exact .inl ⟨h.frame hl.1 hl.2, by simp⟩
  obtain ⟨hok, herr⟩ := perform_spec hrun
  cases hres : (opStep inp c s op).result with
  | error e => exact ⟨herr e hres, asked_of_ne fun r => by rw [hres]; simp⟩
  | ok out =>
      rcases hok out hres with ⟨hp, hno⟩ | hconn
      · exact ⟨hp, asked_of_ne fun r => by rw [hres]; simpa using hno r⟩
      · refine absurd ⟨by rw [hres]; rfl, ?_⟩ hquiet.connected
        rcases hconn with rfl | ⟨session, rfl⟩ <;> exact trivial

/-- The pause lasts until a request opens the next round. -/
theorem paused_run (hmono : Monotone inp.mono) (hs : s.Steady inp) (h : s.Paused t)
    {ops : List TimeOp} (hops : ∀ op ∈ ops, op.syncs = true)
    (hquiet : ∀ st ∈ opTrace inp c s ops, st.Quiet inp) :
    ((opRun inp c s ops).Paused t ∨ t ≤ (opRun inp c s ops).lastMono) ∧
      ((∀ st ∈ opTrace inp c s ops, st.asked = none) → (opRun inp c s ops).Paused t) := by
  -- Later readings are later: once the pause is over, it stays over.
  have hlater : ∀ (ops : List TimeOp) (s' : PlatformTime), s'.Steady inp → t ≤ s'.lastMono →
      t ≤ (opRun inp c s' ops).lastMono := by
    intro ops
    induction ops with
    | nil => exact fun _ _ h => h
    | cons op ops ih =>
        intro s' hs' ht
        exact ih _ (perform_steady hmono op hs').2.2 (ht.trans (after_later hmono hs' op))
  induction ops generalizing s with
  | nil => exact ⟨.inl h, fun _ => h⟩
  | cons op ops ih =>
      have hfirst : (opStep inp c s op).Quiet inp := hquiet _ List.mem_cons_self
      have hsteady : (opStep inp c s op).after.Steady inp := (perform_steady hmono op hs).2.2
      have hrest : ∀ st ∈ opTrace inp c (opStep inp c s op).after ops, st.Quiet inp :=
        fun st hst => hquiet st (List.mem_cons_of_mem _ hst)
      have hsyncs : ∀ op' ∈ ops, op'.syncs = true := fun op' hop' => hops op' (List.mem_cons_of_mem _ hop')
      have hgo : (opStep inp c s op).after.Paused t →
          ((opRun inp c s (op :: ops)).Paused t ∨ t ≤ (opRun inp c s (op :: ops)).lastMono) ∧
            ((∀ st ∈ opTrace inp c s (op :: ops), st.asked = none) →
              (opRun inp c s (op :: ops)).Paused t) := by
        intro hp
        obtain ⟨h1, h2⟩ := ih hsteady hp hsyncs hrest
        exact ⟨h1, fun hall => h2 fun st hst => hall st (List.mem_cons_of_mem _ hst)⟩
      by_cases hop : op = .call .request
      · subst hop
        rcases paused_request (c := c) hs h hfirst.kept with ⟨hp, -⟩ | ⟨r, hres, -, hle⟩
        · exact hgo hp
        · refine ⟨.inr (hlater ops _ hsteady hle), fun hall => ?_⟩
          have hnone : (opStep inp c s (.call .request)).asked = none := hall _ List.mem_cons_self
          rw [asked_eq hres] at hnone
          cases hnone
      · exact hgo (paused_other hs h (hops op List.mem_cons_self) hop hfirst).1

/-- A round that ends with nothing to adopt begins a back-off. -/
theorem paused_of_failed {past : List TimeOpStep} (hjitter : inp.Uniform) (hs : s.Steady inp)
    (hb : BetweenCalls inp past s) {op : TimeOp} {cs : List Candidate}
    (hends : op.ends inp s = some cs) (hfail : choose cs (inp.mono s.reads.mono) = none)
    (hok : (opStep inp c s op).result.isOk = true) :
    (opStep inp c s op).asked = none ∧ ∃ t, (opStep inp c s op).after.Paused t ∧
      inp.mono s.reads.mono + 5000 ≤ t ∧ t ≤ inp.mono s.reads.mono + 60000 := by
  unfold TimeOp.ends at hends
  split at hends
  · split at hends
    · rename_i hcloses
      obtain rfl := Option.some.inj hends
      -- A request whose round is over asks for nothing.
      have hwp : wp ((TimeOp.call .request).exec inp c)
          (fun out s' => out = .call (.request none) ∧ s'.Idle ∧ s'.session = s.session ∧
            s'.BacksOff (inp.mono s.reads.mono)) (fun _ _ => True) s := by
        simp only [TimeOp.exec, TimeCall.exec, wp_bind, wp_pure]
        refine (wp_request_round hjitter hs.regular hs.timed.le).mono ?_ fun _ _ _ => trivial
        rintro r s' ⟨h, -⟩
        obtain ⟨rfl, hback⟩ := h.failed hcloses hfail
        rcases h.round with ⟨-, hidle, -⟩ | ⟨p, hno, -⟩ | ⟨-, hno⟩
        · exact ⟨rfl, hidle, h.session, hback⟩
        · cases hno
        · rw [hcloses] at hno
          cases hno
      cases hres : (opStep inp c s (.call .request)).result with
      | error e =>
          rw [hres] at hok
          cases hok
      | ok out =>
          obtain ⟨rfl, hidle, hsess, hback⟩ := (perform_spec hwp).1 out hres
          refine ⟨asked_eq hres, _, ⟨hidle, rfl, ?_⟩, hback⟩
          simp only [PlatformTime.closes, Bool.and_eq_true] at hcloses
          rw [hsess]
          exact Option.isSome_iff_ne_none.mp hcloses.1.1
    · cases hends
  · split at hends
    · rename_i cand htaken
      split at hends
      · rename_i hlen
        obtain rfl := Option.some.inj hends
        obtain ⟨payload, received, session, retained, rfl, hj⟩ := taken_some htaken
        obtain ⟨r, m, hpend, -⟩ := judge_answers hj
        obtain ⟨hsess, hround⟩ := response_step (c := c) hjitter hs payload received session
          retained
        rcases hround with ⟨-, hnone, -⟩ | ⟨hres, cand', htaken', -, hacc⟩ | ⟨hres, -⟩
        · rw [htaken] at hnone
          cases hnone
        · rw [htaken] at htaken'
          obtain rfl := Option.some.inj htaken'
          refine ⟨asked_of_ne fun r hr => ?_, ?_⟩
          · rw [hres] at hr
            cases hr
          · rcases hacc with ⟨-, hidle, hback⟩ | ⟨hshort, -⟩
            · refine ⟨_, ⟨hidle, rfl, ?_⟩, hback hfail⟩
              rw [hsess, (hb.outstanding r hpend).1]
              exact Option.some_ne_none _
            · omega
        · rw [hres] at hok
          cases hok
      · cases hends
    · cases hends

/-- What follows a failed round. -/
theorem backOff_follows (hmono : Monotone inp.mono) {ops : List TimeOp} {failed : TimeOpStep}
    (hs : failed.after.Steady inp) (hasked : failed.asked = none) (hp : failed.after.Paused t)
    (hlo : failed.reading inp + 5000 ≤ t) (hhi : t ≤ failed.reading inp + 60000)
    (hops : ∀ op ∈ ops, op.syncs = true) :
    BackOffFollows inp failed (opTrace inp c failed.after ops) := by
  refine ⟨hasked, t - failed.reading inp, by omega, by omega, ?_⟩
  intro mid asking later hrest hcall hquiet
  obtain ⟨ops₁, ops₂, rfl, rfl, htail⟩ := trace_eq_append hrest
  obtain ⟨op, ops₃, rfl, rfl, -⟩ := trace_eq_cons htail.symm
  rw [perform_call] at hcall
  subst hcall
  have hsteady := steady_run (c := c) hmono hs ops₁
  obtain ⟨hwhere, hstill⟩ := paused_run (c := c) hmono hs hp
    (fun op hop => hops op (List.mem_append_left _ hop))
    fun st hst => hquiet st (List.mem_append_left _ hst)
  have hkeep : (TimeOp.call .request).invalidates inp (opRun inp c failed.after ops₁) = false :=
    (hquiet _ (List.mem_append_right _ List.mem_cons_self)).kept
  have hahead := hsteady.timed.ahead _ le_rfl
  refine ⟨fun hearly => ?_, fun hlate hnone hst => ?_⟩
  -- Up to here no reading has reached the end of the pause.
  · have hearly' : inp.mono (opRun inp c failed.after ops₁).reads.mono < t := by
      have h : inp.mono (opRun inp c failed.after ops₁).reads.mono
          < failed.reading inp + (t - failed.reading inp) := hearly
      omega
    rcases hwhere with hpaused | hover
    · rcases paused_request (c := c) hsteady hpaused hkeep with ⟨-, hres, -⟩ | ⟨r, -, hle, -⟩
      · exact hres
      · omega
    · omega
  · rcases paused_request (c := c) hsteady (hstill hnone) hkeep with ⟨-, -, hwhy⟩ | ⟨r, hres, -⟩
    · rcases hwhy with hlt | hm
      · have h : failed.reading inp + (t - failed.reading inp)
            ≤ inp.mono (opRun inp c failed.after ops₁).reads.mono := hlate
        omega
      · exact absurd hm hst
    · exact ⟨r, hres⟩

end BackOff

/-! ## The theorem -/

/-- In every run of the synchronisation, the rounds are well formed: between
    calls; at a response that is accepted, and at one that is not; where
    candidates are combined; and after a round that fails. -/
theorem rounds_well_formed [JsonSchema] [Rounding] {inp : Inputs} {c : TimeConfig} {s₀ : PlatformTime}
    (hmode : c.mode = .hubMqtt) (hc : PlatformTime.create inp c = .ok s₀)
    (hmono : Monotone inp.mono) (hjitter : inp.Uniform) {ops : List TimeOp}
    (hops : ∀ op ∈ ops, op.syncs = true) :
    BetweenCalls inp (opTrace inp c s₀ ops) (opRun inp c s₀ ops) ∧
      ∀ past st rest, opTrace inp c s₀ ops = past ++ st :: rest →
        (st.Accepts → ∃ r, Answers past st r) ∧
        (st.result = .ok (.call (.accepted false)) → Refused st.before st.after) ∧
        (∀ cs, st.call.ends inp st.before = some cs → Combines inp past st cs) ∧
        (∀ cs, st.call.ends inp st.before = some cs → st.result.isOk = true →
          choose cs (st.reading inp) = none → BackOffFollows inp st rest) := by
  have hs₀ := steady_create hmode hmono hc
  have hb₀ := between_create hc
  refine ⟨between_run hmono hjitter hs₀ hb₀ hops, fun past st rest hsplit => ?_⟩
  obtain ⟨ops₁, ops₂, rfl, rfl, htail⟩ := trace_eq_append hsplit
  obtain ⟨op, ops₃, rfl, rfl, rfl⟩ := trace_eq_cons htail.symm
  have hs := steady_run (c := c) hmono hs₀ ops₁
  have hb := between_run (c := c) hmono hjitter hs₀ hb₀ fun op hop => hops op (List.mem_append_left _ hop)
  refine ⟨hb.answers hjitter hs, refused_of_result hjitter hs, fun cs hends => ?_,
    fun cs hends hok hfail => ?_⟩
  · exact @BetweenCalls.combines _ _ inp _ (opStep inp c (opRun inp c s₀ ops₁) op) hb cs hends
  · obtain ⟨hasked, t, hp, hlo, hhi⟩ := paused_of_failed hjitter hs hb hends hfail hok
    exact backOff_follows hmono (perform_steady hmono op hs).2.2 hasked hp hlo hhi
      fun op' hop' => hops op' (List.mem_append_right _ (List.mem_cons_of_mem _ hop'))

/-! ## At concrete inputs -/

/-- The provider in a new connection. -/
def PlatformTime.connected (session : PyStr) (s : PlatformTime) : PlatformTime :=
  { s with
    connectionRevision := s.connectionRevision + 1, session := some session,
    sessionSynced := !s.platform, heartbeatSubmitted := false, getSubmitted := false,
    pending := none, roundStart := none, attempts := 0, candidates := [], nextSync := 0 }

theorem connect_step [JsonSchema] [Rounding] {inp : Inputs} {c : TimeConfig} {s : PlatformTime}
    {session : PyStr} (hid : isId session = true) (hlt : s.connectionRevision < maxSafe) :
    (opStep inp c s (.call (.connect session))).after = s.connected session := by
  have hwp : wp ((TimeOp.call (.connect session)).exec inp c)
      (fun _ s' => s' = s.connected session) (fun _ _ => False) s := by
    simp only [TimeOp.exec, TimeCall.exec, PlatformTime.connect, wp_bind, wp_check, wp_get,
      wp_modify, wp_pure]
    exact ⟨fun _ => ⟨fun _ => rfl, fun hno => hno hlt⟩, fun hno => hno hid⟩
  obtain ⟨hok, herr⟩ := perform_spec hwp
  cases hres : (opStep inp c s (.call (.connect session))).result with
  | ok out => exact hok out hres
  | error e => exact (herr e hres).elim

section Scripted

attribute [local instance] JsonSchema.atRoot Rounding.double

/-- A scripted draw is the middle of its interval. -/
theorem scripted_uniform (mono : Nat → ℤ) : (Inputs.scripted mono).Uniform := by
  intro i lo hi h
  show lo ≤ (lo + hi) / 2 ∧ (lo + hi) / 2 ≤ hi
  constructor <;> linarith

/-- A clock that is read every 40 seconds: a round is over at its second request. -/
def slow : Inputs := .scripted fun i => 40000 * i

theorem slow_monotone : Monotone slow.mono := by
  intro i j h
  show (40000 : ℤ) * i ≤ 40000 * j
  omega

/-- The rounds of a synchronisation, and the back-off after a round without answers. -/
theorem rounds_well_formed_scripted :
    BetweenCalls steady (scriptedSteps steady [] setClock) (scriptedState steady setClock) ∧
      BackOffFollows slow (scriptedStep slow [.connect (py "s"), .request] .request)
        [scriptedStep slow [.connect (py "s"), .request, .request] .request] := by
  have hc : ∀ inp, PlatformTime.create inp .scripted = .ok (.started inp .scripted) :=
    fun inp => if_pos (by decide +kernel)
  have hsteady : ∀ op ∈ asOps setClock, op.syncs = true := by decide +kernel
  refine ⟨(rounds_well_formed rfl (hc steady) steady_monotone (scripted_uniform _) hsteady).1, ?_⟩
  exact ((rounds_well_formed rfl (hc slow) slow_monotone (scripted_uniform _)
    (by decide +kernel)).2 _ _ _
    (scripted_cut slow [.connect (py "s"), .request] [] .request .request)).2.2.2 []
    (by decide +kernel) (by decide +kernel) (by decide +kernel)

/-- The scripted provider after `n` connections. -/
def connections (n : ℕ) : PlatformTime :=
  { PlatformTime.started steady .scripted with connectionRevision := n, session := some (py "s") }

theorem connections_next (n : ℕ) :
    (connections n).connected (py "s") = connections (n + 1) := rfl

/-- One connection after another. -/
theorem connections_run (n k : ℕ) (h : (n + k : ℤ) ≤ maxSafe) :
    opRun steady .scripted (connections n) (List.replicate k (.call (.connect (py "s"))))
      = connections (n + k) := by
  induction k generalizing n with
  | zero => rfl
  | succ k ih =>
      have hn : (connections n).connectionRevision < maxSafe := by
        show (n : ℤ) < maxSafe
        omega
      have hstep := @connect_step _ _ steady .scripted _ (py "s") (by decide +kernel) hn
      have hrest := ih (n + 1) (by push_cast at h ⊢; omega)
      rw [opRun] at hrest
      rw [List.replicate_succ, opRun, runCalls, hstep, connections_next, hrest, Nat.add_right_comm,
        Nat.add_assoc]

/-- A synchronisation in the connection after `n` others. -/
def syncAfter (n : ℕ) : List TimeOp :=
  List.replicate (n + 1) (.call (.connect (py "s"))) ++ asOps setClock.tail

theorem syncAfter_syncs (n : ℕ) : ∀ op ∈ syncAfter n, op.syncs = true := by
  intro op hop
  rcases List.mem_append.mp hop with hop | hop
  · rw [List.eq_of_mem_replicate hop]
    rfl
  · have hall : ∀ op ∈ asOps setClock.tail, op.syncs = true := by decide +kernel
    exact hall op hop

theorem syncAfter_run (n : ℕ) (h : (n + 1 : ℤ) ≤ maxSafe) :
    opRun steady .scripted (.started steady .scripted) (syncAfter n)
      = opRun steady .scripted (connections (n + 1)) (asOps setClock.tail) := by
  have hfirst : (perform (TimeOp.exec steady .scripted) (.started steady .scripted)
      (.call (.connect (py "s")))).after = connections 1 := by decide +kernel
  have hrest := connections_run 1 n (by push_cast; omega)
  rw [opRun] at hrest
  rw [syncAfter, List.replicate_succ, List.cons_append, opRun, runCalls, hfirst, runCalls_append,
    hrest, Nat.add_comm 1 n]
  rfl

/-- The last connection that can be numbered, and a round in it. -/
theorem last_connection :
    (opRun steady .scripted (connections 9007199254740991) (asOps setClock.tail)).candidates.length
      = 3 := by
  decide +kernel

/-- Ending the round needs a new revision and raises, so that the round is left
    open with three candidates. -/
theorem candidates_after_exhaustion :
    Monotone steady.mono ∧ steady.Uniform ∧
      PlatformTime.create steady .scripted = .ok (.started steady .scripted) ∧
      (∀ op ∈ syncAfter 9007199254740990, op.syncs = true) ∧
      (opRun steady .scripted (.started steady .scripted) (syncAfter 9007199254740990)).candidates.length
        = 3 := by
  refine ⟨steady_monotone, scripted_uniform _, if_pos (by decide +kernel), syncAfter_syncs _, ?_⟩
  rw [syncAfter_run 9007199254740990 (by decide)]
  exact last_connection

end Scripted

end PlcnextIot.Core
