/-
  PlcnextIot.Core.TimeHandshake

  Telemetry is sent only after the session handshake: an adopted round, then a
  heartbeat, then a request for the configuration.

  The three flags are cleared by every connection and every invalidation.  One
  order of events defeats this: `control_submitted('heartbeat')` checks its
  gate with a first snapshot, takes a second one, and then sets its flag.  A
  clock that expires at the second reading has its flags cleared before the
  heartbeat flag is set, and the flag outlives the next synchronisation
  (`TimeOp.timely` excludes this).
-/

import PlcnextIot.Core.TimeToken

namespace PlcnextIot.Core

open PlcnextIot.Python PlcnextIot.Contracts PlcnextIot.Effect PlcnextIot.Effect.Prog

/-! ## The condition -/

/-- A heartbeat whose gate is open at the first reading finds a clock that is good
    for the second one. -/
def TimeOp.timely [Rounding] (inp : Inputs) (s : PlatformTime) : TimeOp → Bool
  | .call (.controlSubmitted .heartbeat token) =>
    !(s.gateOpen (inp.mono s.reads.mono) token .controlSend && decide s.fresh)
      || s.inTime (inp.mono s.reads.mono) (inp.mono (s.reads.mono + 1))
  | _ => true

/-! ## The property -/

/-- The step adopted a round in the session. -/
structure Adopts [JsonSchema] [Rounding] (inp : Inputs) (st : TimeOpStep) : Prop where
  offer : (st.call.offer inp st.before).isSome = true
  done : st.result.isOk = true
  state : st.after.state = .synced
  synced : st.after.sessionSynced = true

/-- The step is a successful submission. -/
def TimeOpStep.Submits (kind : ControlKind) (st : TimeOpStep) : Prop :=
  st.result.isOk = true ∧ ∃ token, st.call = .call (.controlSubmitted kind token)

/-- A step of the past that satisfies `P`, with no interruption since. -/
def Since [Rounding] (inp : Inputs) (P : List TimeOpStep → TimeOpStep → Prop) (past : List TimeOpStep) : Prop :=
  ∃ p st q, past = p ++ st :: q ∧ P p st ∧ ∀ st' ∈ q, Uninterrupted inp st'

/-- The session has been synchronised. -/
def Synchronised [JsonSchema] [Rounding] (inp : Inputs) : List TimeOpStep → Prop :=
  Since inp fun _ st => Adopts inp st

/-- Then a heartbeat has been submitted. -/
def Announced [JsonSchema] [Rounding] (inp : Inputs) : List TimeOpStep → Prop :=
  Since inp fun p st => Synchronised inp p ∧ st.Submits .heartbeat ∧ Uninterrupted inp st

/-- Then the configuration has been asked for. -/
def Handshaken [JsonSchema] [Rounding] (inp : Inputs) : List TimeOpStep → Prop :=
  Since inp fun p st => Announced inp p ∧ st.Submits .configGet ∧ Uninterrupted inp st

section Since

variable [Rounding] {inp : Inputs} {P : List TimeOpStep → TimeOpStep → Prop} {past : List TimeOpStep}
  {st : TimeOpStep}

theorem Since.now (h : P past st) : Since inp P (past ++ [st]) :=
  ⟨past, st, [], rfl, h, by simp⟩

theorem Since.still (h : Since inp P past) (hst : Uninterrupted inp st) :
    Since inp P (past ++ [st]) := by
  obtain ⟨p, st', q, rfl, hP, hq⟩ := h
  refine ⟨p, st', q ++ [st], by simp, hP, fun st'' hmem => ?_⟩
  rcases List.mem_append.mp hmem with h | h
  · exact hq st'' h
  · rw [List.mem_singleton.mp h]
    exact hst

/-- What the past has seen happens at one of its steps. -/
theorem Since.exists_mem (h : Since inp P past) : ∃ p, ∃ st ∈ past, p ⊆ past ∧ P p st := by
  obtain ⟨p, st, q, rfl, hP, -⟩ := h
  exact ⟨p, st, by simp, fun st' h => by simp [h], hP⟩

end Since

/-! ## Submissions -/

section Submissions

variable [Rounding] {inp : Inputs} {s : PlatformTime}

/-- A timely heartbeat is submitted in the session it was checked in. -/
theorem wp_heartbeat_timely (hmono : Monotone inp.mono) {token : Option TimeToken}
    (hs : s.Steady inp)
    (ht : TimeOp.timely inp s (.call (.controlSubmitted .heartbeat token)) = true) :
    wp (PlatformTime.controlSubmitted inp .heartbeat token)
      (fun _ s' => s.sessionSynced = true ∧ SameSession s s') (fun _ _ => True) s := by
  have hvalid : wp (PlatformTime.require inp token .controlSend)
      (fun t _ => t.timeValid = true) (fun _ _ => True) s := by
    refine (wp_require_valid hmono hs.timed rfl fun _ _ => Iff.rfl).mpr fun hgate hfresh => ?_
    simpa [TimeOp.timely, hgate, hfresh] using ht
  simp only [PlatformTime.controlSubmitted, wp_bind, wp_modify]
  refine ((wp_require_evolves hmono hs.regular hs.timed).and hvalid).mono ?_ fun _ _ _ => trivial
  rintro t σ ⟨⟨-, σ₁, t₁, h₁, hseen₁, -, hpass, h, hseen⟩, hv⟩
  rw [permits_eq_ready h₁.regular.platform rfl, Bool.and_eq_true] at hpass
  have hsync : σ₁.sessionSynced = true := by
    have hready := hpass.2
    simp only [PlatformTime.ready, Bool.and_eq_true] at hready
    exact hready.2
  rcases h₁.evolves.synced hsync with ⟨hsynced, hsame⟩ | hf
  · exact ⟨hsynced, hsame.trans ⟨hseen.kept hv, hseen.connected⟩⟩
  · exact hf.elim

/-- The configuration flag is set only where the heartbeat flag is. -/
theorem wp_configGet_same (hmono : Monotone inp.mono) {token : Option TimeToken}
    (hs : s.Steady inp) (ho : s.opened = true) :
    wp (PlatformTime.controlSubmitted inp .configGet token)
      (fun _ s' => s'.getSubmitted = true → SameSession s s') (fun _ _ => True) s := by
  simp only [PlatformTime.controlSubmitted, wp_bind, wp_modify]
  refine (wp_require_evolves hmono hs.regular hs.timed).mono ?_ fun _ _ _ => trivial
  rintro t σ ⟨h, -⟩ hget
  rcases Bool.or_eq_true_iff.mp hget with hc | hb
  · rcases h.evolves.config hc with ⟨-, hsame⟩ | hf
    · exact hsame ho
    · exact hf.elim
  · rcases h.evolves.heartbeat hb with ⟨-, hsame⟩ | hf
    · exact hsame ho
    · exact hf.elim

end Submissions

/-! ## The invariant -/

/-- Each flag that is up stands for a part of the handshake. -/
structure Progress [JsonSchema] [Rounding] (inp : Inputs) (past : List TimeOpStep) (s : PlatformTime) :
    Prop where
  steady : s.Steady inp
  synced : s.sessionSynced = true → Synchronised inp past
  heartbeat : s.heartbeatSubmitted = true → s.opened = true ∧ Announced inp past
  config : s.getSubmitted = true → s.opened = true ∧ Handshaken inp past

section Runs

variable [JsonSchema] [Rounding] {inp : Inputs} {c : TimeConfig} {s : PlatformTime} {past : List TimeOpStep}

/-- One step of a run. -/
theorem progress_perform (hmono : Monotone inp.mono) (h : Progress inp past s) (op : TimeOp)
    (ht : op.timely inp s = true) :
    Progress inp (past ++ [perform (TimeOp.exec inp c) s op])
      (perform (TimeOp.exec inp c) s op).after := by
  obtain ⟨hperf, herr, hsteady⟩ := perform_steady (c := c) hmono op h.steady
  have hsame : s.opened = true → SameSession s (perform (TimeOp.exec inp c) s op).after →
      Uninterrupted inp (perform (TimeOp.exec inp c) s op) :=
    fun ho hs => uninterrupted_of_same hmono h.steady ho hs
  refine ⟨hsteady, fun hf => ?_, fun hf => ?_, fun hf => ?_⟩
  · rcases hperf.evolves.synced hf with ⟨hb, hs⟩ | ha
    · exact (h.synced hb).still (hsame (h.steady.regular.opened_of_synced hb) hs)
    · cases hok : (perform (TimeOp.exec inp c) s op).result.isOk with
      | true => exact .now ⟨ha, hok, hsteady.regular.synced hf, hf⟩
      | false =>
          -- A call that raises has adopted nothing.
          rcases (herr hok).synced hf with ⟨hb, hs⟩ | hno
          · exact (h.synced hb).still (hsame (h.steady.regular.opened_of_synced hb) hs)
          · exact hno.elim
  · have hkept : s.heartbeatSubmitted = true ∧
        (s.opened = true → SameSession s (perform (TimeOp.exec inp c) s op).after) →
        (perform (TimeOp.exec inp c) s op).after.opened = true ∧
          Announced inp (past ++ [perform (TimeOp.exec inp c) s op]) := by
      rintro ⟨hb, hs⟩
      obtain ⟨ho, hann⟩ := h.heartbeat hb
      have hun := hsame ho (hs ho)
      exact ⟨hun.after, hann.still hun⟩
    rcases hperf.evolves.heartbeat hf with hb | ⟨token, rfl⟩
    · exact hkept hb
    · cases hres : (perform (TimeOp.exec inp c) s
          (.call (.controlSubmitted .heartbeat token))).result with
      | ok out =>
          have hwp : wp ((TimeOp.call (.controlSubmitted .heartbeat token)).exec inp c)
              (fun _ s' => s.sessionSynced = true ∧ SameSession s s') (fun _ _ => True) s := by
            simp only [TimeOp.exec, TimeCall.exec, wp_bind, wp_pure]
            exact wp_heartbeat_timely hmono h.steady ht
          obtain ⟨hsync, hs⟩ := (perform_spec hwp).1 out hres
          have hun := hsame (h.steady.regular.opened_of_synced hsync) hs
          exact ⟨hun.after, .now ⟨h.synced hsync, ⟨by rw [hres]; rfl, token, rfl⟩, hun⟩⟩
      | error e =>
          rcases (herr (by rw [hres]; rfl)).heartbeat hf with hb | hno
          · exact hkept hb
          · exact hno.elim
  · have hkept : s.getSubmitted = true ∧
        (s.opened = true → SameSession s (perform (TimeOp.exec inp c) s op).after) →
        (perform (TimeOp.exec inp c) s op).after.opened = true ∧
          Handshaken inp (past ++ [perform (TimeOp.exec inp c) s op]) := by
      rintro ⟨hb, hs⟩
      obtain ⟨ho, hshaken⟩ := h.config hb
      have hun := hsame ho (hs ho)
      exact ⟨hun.after, hshaken.still hun⟩
    rcases hperf.evolves.config hf with hb | ⟨⟨token, rfl⟩, hb⟩
    · exact hkept hb
    · cases hres : (perform (TimeOp.exec inp c) s
          (.call (.controlSubmitted .configGet token))).result with
      | ok out =>
          obtain ⟨ho, hann⟩ := h.heartbeat hb
          have hwp : wp ((TimeOp.call (.controlSubmitted .configGet token)).exec inp c)
              (fun _ s' => s'.getSubmitted = true → SameSession s s') (fun _ _ => True) s := by
            simp only [TimeOp.exec, TimeCall.exec, wp_bind, wp_pure]
            exact wp_configGet_same hmono h.steady ho
          have hun := hsame ho ((perform_spec hwp).1 out hres hf)
          exact ⟨hun.after, .now ⟨hann, ⟨by rw [hres]; rfl, token, rfl⟩, hun⟩⟩
      | error e =>
          rcases (herr (by rw [hres]; rfl)).config hf with hb | hno
          · exact hkept hb
          · exact hno.elim

theorem progress_run (hmono : Monotone inp.mono) (hs : Progress inp [] s) {ops : List TimeOp}
    (ht : ∀ st ∈ opTrace inp c s ops, st.call.timely inp st.before = true) :
    Progress inp (opTrace inp c s ops) (opRun inp c s ops) := by
  have hrun := @trace_history _ _ _ _ (TimeOp.exec inp c)
    (fun past s' => (∀ st ∈ past, st.call.timely inp st.before = true) → Progress inp past s') s
    (fun _ => hs) (fun past s' op hI htimely => ?_) ops
  · exact hrun ht
  · exact progress_perform hmono (hI fun st hst => htimely st (List.mem_append_left _ hst)) op
      (htimely _ (List.mem_append_right _ List.mem_cons_self))

end Runs

/-! ## The theorem -/

/-- In every run of timely heartbeats, the data gate opens only after the
    handshake of the session. -/
theorem send_after_handshake [JsonSchema] [Rounding] {inp : Inputs} {c : TimeConfig} {s₀ : PlatformTime}
    (hmode : c.mode = .hubMqtt) (hc : PlatformTime.create inp c = .ok s₀)
    (hmono : Monotone inp.mono) {ops : List TimeOp} {past rest : List TimeOpStep}
    {used : TimeOpStep} {token : Option TimeToken}
    (hrun : opTrace inp c s₀ ops = past ++ used :: rest)
    (hused : used.call = .call (.valid token .send))
    (hvalid : used.result = .ok (.call (.valid true)))
    (htimely : ∀ st ∈ past, st.call.timely inp st.before = true) :
    Handshaken inp past ∧ Uninterrupted inp used := by
  obtain ⟨ops₁, rest₁, -, rfl, htail⟩ := trace_eq_append hrun
  obtain ⟨op, rest₂, -, rfl, -⟩ := trace_eq_cons htail.symm
  have hs₀ : Progress inp [] s₀ := by
    have hsteady := steady_create hmode hmono hc
    unfold PlatformTime.create at hc
    split at hc
    · cases hc
      exact ⟨hsteady, fun h => Bool.noConfusion h, fun h => Bool.noConfusion h,
        fun h => Bool.noConfusion h⟩
    · cases hc
  have hp := progress_run (c := c) hmono hs₀ htimely
  rw [perform_call] at hused
  subst hused
  obtain ⟨-, -, hready⟩ := perform_valid hp.steady rfl hvalid
  simp only [PlatformTime.ready, Bool.and_eq_true] at hready
  have hev := evolves_perform (c := c) hmono hp.steady (.call (.valid token .send))
  rcases hev.config hready.2.2 with ⟨hget, hsame⟩ | ⟨⟨token', hno⟩, -⟩
  · obtain ⟨ho, hshaken⟩ := hp.config hget
    exact ⟨hshaken, uninterrupted_of_same hmono hp.steady ho (hsame ho)⟩
  · cases hno

/-! ## At concrete inputs -/

section Scripted

attribute [local instance] JsonSchema.atRoot

theorem scripted_snoc [Rounding] (inp : Inputs) (calls : List TimeCall) (call : TimeCall) :
    opTrace inp .scripted (.started inp .scripted) (asOps (calls ++ [call]))
      = scriptedSteps inp [] calls ++ scriptedStep inp calls call :: [] := by
  simp only [scriptedSteps, scriptedStep, scriptedState, opTrace, opRun, asOps, List.map_append,
    List.map_cons, List.map_nil, trace_append, runCalls, trace]

attribute [local instance] Rounding.double

/-- The handshake after a round. -/
def handshake : List TimeCall :=
  setClock ++ [.token, .controlSubmitted .heartbeat (some ⟨py "b", 1, 1, 90⟩),
    .controlSubmitted .configGet (some ⟨py "b", 1, 1, 90⟩)]

/-- The data gate opens after it. -/
theorem send_after_scripted_handshake :
    Handshaken steady (scriptedSteps steady [] handshake) ∧
      Uninterrupted steady (scriptedStep steady handshake (.valid none .send)) := by
  have hc : PlatformTime.create steady .scripted = .ok (.started steady .scripted) :=
    if_pos (by decide +kernel)
  exact send_after_handshake rfl hc steady_monotone (scripted_snoc steady handshake _) rfl
    (by decide +kernel) (by decide +kernel)

/-- The hour of the clock runs out between the two readings of a heartbeat. -/
def lateHeartbeat : Inputs := .scripted fun i =>
  if i ≤ 8 then 10 * i else if i = 9 then 3600000 else if i = 10 then 3600069
    else 3600070 + 10 * (i - 11)

/-- The heartbeat expires the clock, a round synchronises it again, and only the
    configuration is asked for. -/
def lateCalls : List TimeCall :=
  setClock ++ [.token, .controlSubmitted .heartbeat (some ⟨py "b", 1, 1, 3600000⟩)]
    ++ laterRound 3600090 0
    ++ [.token, .controlSubmitted .configGet (some ⟨py "b", 3, 1, 3600160⟩)]

theorem lateHeartbeat_monotone : Monotone lateHeartbeat.mono := by
  intro i j hij
  show (if i ≤ 8 then (10 * i : ℤ) else if i = 9 then 3600000 else if i = 10 then 3600069
      else 3600070 + 10 * (i - 11)) ≤ (if j ≤ 8 then (10 * j : ℤ) else if j = 9 then 3600000
      else if j = 10 then 3600069 else 3600070 + 10 * (j - 11))
  split_ifs <;> omega

/-- The step submits a heartbeat, as a decision. -/
def TimeOpStep.isHeartbeat (st : TimeOpStep) : Bool :=
  match st.call with
  | .call (.controlSubmitted .heartbeat _) => true
  | _ => false

/-- The data gate is open although every heartbeat of the run ended with the
    clock expired, before the round that synchronised it. -/
theorem send_without_heartbeat :
    Monotone lateHeartbeat.mono ∧
      (scriptedStep lateHeartbeat lateCalls (.valid none .send)).result = .ok (.call (.valid true)) ∧
      (∀ st ∈ scriptedSteps lateHeartbeat [] lateCalls, st.Submits .heartbeat →
        st.after.state = .expired) ∧
      ¬ Handshaken lateHeartbeat (scriptedSteps lateHeartbeat [] lateCalls) := by
  have hlate : ∀ st ∈ scriptedSteps lateHeartbeat [] lateCalls, st.Submits .heartbeat →
      st.after.state = .expired := by
    have h : ∀ st ∈ scriptedSteps lateHeartbeat [] lateCalls, st.isHeartbeat = true →
        st.after.state = .expired := by decide +kernel
    rintro st hst ⟨-, token, hcall⟩
    exact h st hst (by rw [TimeOpStep.isHeartbeat, hcall])
  refine ⟨lateHeartbeat_monotone, by decide +kernel, hlate, fun hshaken => ?_⟩
  obtain ⟨p, -, -, hp, hann, -, -⟩ := hshaken.exists_mem
  obtain ⟨-, st, hst, -, -, hsub, hun⟩ := hann.exists_mem
  have hopen := hun.after
  rw [PlatformTime.opened, hlate st (hp hst) hsub] at hopen
  cases hopen

end Scripted

end PlcnextIot.Core
