/-
  PlcnextIot.Devices.Transitions

  Runs of a device runtime: configurations are prepared, activated, rolled back
  and published, and the runtime is shut down, in the order in which the
  lifecycle calls for it.

  `Phase` is that order.  After an activation that returned, the lifecycle
  publishes or, when the commit failed, rolls back; after one that raised it
  rolls back; a rollback that raised leaves the shutdown; and a fatal error may
  call for the shutdown at any point.  `Phase.Holds` says what the phase means
  for the runners, `step_owned` is one call and `runners_owned` every run.
-/

import PlcnextIot.Devices.Ownership
import PlcnextIot.Effect.Run

namespace PlcnextIot.Devices

open PlcnextIot.Python PlcnextIot.Config PlcnextIot.Effect PlcnextIot.Effect.Prog

/-! ## Calls and their order -/

inductive RuntimeCall where
  | prepare (snapshot : ConfigSnapshot)
  | activate
  | rollback
  | publish
  | shutdown

/-- The program of a call. -/
def RuntimeCall.exec (inp : RuntimeInputs) : RuntimeCall → RuntimeM Unit
  | .prepare snapshot => Devices.prepare inp snapshot
  | .activate => Devices.activate inp
  | .rollback => Devices.rollback inp
  | .publish => Devices.publish inp
  | .shutdown => Devices.shutdown inp

abbrev RuntimeStep := Step RuntimeCall DeviceRuntime RuntimeExc Unit

/-- How far the owner of the runtime has come. -/
inductive Phase where
  | idle
  | prepared
  | activated
  | broken
  | stuck
  deriving DecidableEq, Repr

/-- What the lifecycle may call next. -/
def Phase.permits : Phase → RuntimeCall → Bool
  | .idle, .prepare _ => true
  | .prepared, .activate => true
  | .activated, .publish => true
  | .activated, .rollback => true
  | .broken, .rollback => true
  | _, .shutdown => true
  | _, _ => false

/-- The phase after a call that returned or raised. -/
def Phase.next (p : Phase) (returned : Bool) : RuntimeCall → Phase
  | .prepare _ => if returned then .prepared else p
  | .activate => if returned then .activated else .broken
  | .rollback | .publish | .shutdown => if returned then .idle else .stuck

/-- The steps follow the order of the lifecycle. -/
def InOrder : Phase → List RuntimeStep → Bool
  | _, [] => true
  | p, st :: rest => p.permits st.call && InOrder (p.next st.result.isOk st.call) rest

/-- What a phase means for the runners. -/
def Phase.Holds : Phase → DeviceRuntime → Prop
  | .idle, s => Idle s
  | .prepared, s => ∃ t, Switching t s ∧ t.stopped = [] ∧ t.started = []
  | .activated, s => ∃ t, Switched t s
  | .broken, s => ∃ t, Switching t s
  | .stuck, s => Owned s

theorem Phase.Holds.owned {p : Phase} {s : DeviceRuntime} (h : p.Holds s) : Owned s := by
  cases p with
  | idle => exact Idle.toOwned h
  | prepared => exact h.elim fun _ h => h.1.toOwned
  | activated => exact h.elim fun _ h => h.toOwned
  | broken => exact h.elim fun _ h => h.toOwned
  | stuck => exact h

/-! ## What a step guarantees -/

/-- Exactly the runners of `d` run. -/
def RunsExactly (s : DeviceRuntime) (d : Dict PyStr Runner) : Prop :=
  (∀ r ∈ d.values, s.status r = .running) ∧ ∀ r, s.MayRun r → r ∈ d.values

theorem Idle.runsExactly {s : DeviceRuntime} (h : Idle s) : RunsExactly s s.runners :=
  ⟨h.runs, h.only⟩

/-- A new transition can be prepared: `prepare` refuses no snapshot because of
    a pending one. -/
def CanPrepare (inp : RuntimeInputs) (s : DeviceRuntime) : Prop :=
  ∀ snapshot, ((prepare inp snapshot).run s).1 ≠ .error .transitionPending

theorem Idle.canPrepare {inp : RuntimeInputs} {s : DeviceRuntime} (h : Idle s) :
    CanPrepare inp s := by
  intro snapshot hpending
  have hrun : (prepare inp snapshot).run s = (.error .transitionPending, _) :=
    Prod.ext hpending rfl
  exact ((wp_prepare h snapshot).of_error hrun).2 rfl

/-- Ownership of the runners in one step. -/
structure RunnersOwned (inp : RuntimeInputs) (st : RuntimeStep) : Prop where
  /-- Every runner that may be running is managed. -/
  managed : ∀ r, st.after.MayRun r → r ∈ st.after.managed
  /-- So it was whenever an operation was called. -/
  operated : ∀ ev ∈ st.after.log, ev.Owned
  /-- During a rollback no runner is started while a candidate may be running. -/
  candidatesFirst : st.call = .rollback → ∃ t, st.before.transition = some t ∧
    LogsSince (·.AfterCandidates t) st.before st.after
  /-- After a rollback exactly the old runners run. -/
  rolledBack : st.call = .rollback → st.result = .ok () → ∃ t, st.before.transition = some t ∧
    RunsExactly st.after t.old ∧ st.after.runners = t.old ∧ CanPrepare inp st.after
  /-- After the publication exactly the proposed runners run. -/
  published : st.call = .publish → st.result = .ok () ∧ ∃ t, st.before.transition = some t ∧
    RunsExactly st.after t.proposed ∧ st.after.runners = t.proposed
  /-- After a shutdown nothing runs. -/
  shutDown : st.call = .shutdown → st.result = .ok () → ∀ r, ¬ st.after.MayRun r
  /-- A shutdown that failed tried every managed runner, and keeps those whose
      stop failed. -/
  shutdownFailed : st.call = .shutdown → st.result = .error .recovery →
    ∃ events, st.after.log = st.before.log ++ events ∧
      events.map (fun ev => (ev.op, ev.runner)) = st.before.managed.map (RunnerOp.stop, ·) ∧
      ∀ ev ∈ events, ev.returned = false → ev.runner ∈ st.after.managed

/-! ## Runs -/

/-- The part of a step's guarantee that does not depend on its call. -/
theorem RunnersOwned.of_owned {inp : RuntimeInputs} {st : RuntimeStep} (h : Owned st.after)
    (hrollback : st.call ≠ .rollback) (hpublish : st.call ≠ .publish)
    (hshutdown : st.call ≠ .shutdown) : RunnersOwned inp st where
  managed := h.managed
  operated := h.logged
  candidatesFirst := fun hc => absurd hc hrollback
  rolledBack := fun hc => absurd hc hrollback
  published := fun hc => absurd hc hpublish
  shutDown := fun hc => absurd hc hshutdown
  shutdownFailed := fun hc => absurd hc hshutdown

/-- A call in its phase: it owns the runners, and leads to the next phase. -/
def Proceeds (inp : RuntimeInputs) (p : Phase) (st : RuntimeStep) : Prop :=
  RunnersOwned inp st ∧ (p.next st.result.isOk st.call).Holds st.after

section Steps

variable {inp : RuntimeInputs} {s : DeviceRuntime} {t : RuntimeTransition}

theorem prepare_proceeds (h : Idle s) (snapshot : ConfigSnapshot) :
    Proceeds inp .idle (perform (RuntimeCall.exec inp) s (.prepare snapshot)) := by
  have hspec : wp (RuntimeCall.exec inp (.prepare snapshot)) _ _ s := wp_prepare h snapshot
  obtain ⟨hok, herror⟩ := perform_spec hspec
  generalize hst : perform (RuntimeCall.exec inp) s (.prepare snapshot) = st at hok herror ⊢
  have hcall : st.call = .prepare snapshot := hst ▸ rfl
  have hnext : (Phase.next .idle st.result.isOk st.call).Holds st.after := by
    rw [hcall]
    cases hresult : st.result with
    | ok =>
        obtain ⟨t, ht, hstopped, hstarted, _⟩ := hok () hresult
        exact ⟨t, ht, hstopped, hstarted⟩
    | error e => exact (herror e hresult).1
  exact ⟨.of_owned hnext.owned (by rw [hcall]; nofun) (by rw [hcall]; nofun)
    (by rw [hcall]; nofun), hnext⟩

theorem activate_proceeds (h : Switching t s) (hstopped : t.stopped = []) (hstarted : t.started = []) :
    Proceeds inp .prepared (perform (RuntimeCall.exec inp) s .activate) := by
  have hspec : wp (RuntimeCall.exec inp .activate) _ _ s := wp_activate h hstopped hstarted
  obtain ⟨hok, herror⟩ := perform_spec hspec
  generalize hst : perform (RuntimeCall.exec inp) s .activate = st at hok herror ⊢
  have hcall : st.call = .activate := hst ▸ rfl
  have hnext : (Phase.next .prepared st.result.isOk st.call).Holds st.after := by
    rw [hcall]
    cases hresult : st.result with
    | ok => exact ⟨_, hok () hresult⟩
    | error e =>
        obtain ⟨stopped, started, hs⟩ := herror e hresult
        exact ⟨_, hs⟩
  exact ⟨.of_owned hnext.owned (by rw [hcall]; nofun) (by rw [hcall]; nofun)
    (by rw [hcall]; nofun), hnext⟩

theorem rollback_proceeds (h : Switching t s) (p : Phase) :
    Proceeds inp p (perform (RuntimeCall.exec inp) s .rollback) := by
  have hspec : wp (RuntimeCall.exec inp .rollback) _ _ s := wp_rollback h
  obtain ⟨hok, herror⟩ := perform_spec hspec
  generalize hst : perform (RuntimeCall.exec inp) s .rollback = st at hok herror ⊢
  have hcall : st.call = .rollback := hst ▸ rfl
  have hbefore : st.before = s := hst ▸ rfl
  cases hresult : st.result with
  | ok =>
      obtain ⟨⟨hidle, hrunners⟩, hlog⟩ := hok () hresult
      have hold : st.after.runners = t.old := hrunners.trans h.old
      refine ⟨?_, by rw [hcall, hresult]; exact hidle⟩
      refine { managed := hidle.managed, operated := hidle.logged,
               candidatesFirst := fun _ => ?_, rolledBack := fun _ _ => ?_,
               published := fun hc => absurd (hcall.symm.trans hc) nofun,
               shutDown := fun hc => absurd (hcall.symm.trans hc) nofun,
               shutdownFailed := fun hc => absurd (hcall.symm.trans hc) nofun }
      · rw [hbefore]
        exact ⟨t, h.held, hlog⟩
      · rw [hbefore]
        exact ⟨t, h.held, hold ▸ hidle.runsExactly, hold, hidle.canPrepare⟩
  | error e =>
      obtain ⟨howned, hlog⟩ := herror e hresult
      refine ⟨?_, by rw [hcall, hresult]; exact howned⟩
      refine { managed := howned.managed, operated := howned.logged,
               candidatesFirst := fun _ => ?_,
               rolledBack := fun _ hr => absurd (hresult.symm.trans hr) nofun,
               published := fun hc => absurd (hcall.symm.trans hc) nofun,
               shutDown := fun hc => absurd (hcall.symm.trans hc) nofun,
               shutdownFailed := fun hc => absurd (hcall.symm.trans hc) nofun }
      rw [hbefore]
      exact ⟨t, h.held, hlog⟩

theorem publish_proceeds (h : Switched t s) :
    Proceeds inp .activated (perform (RuntimeCall.exec inp) s .publish) := by
  have hspec : wp (RuntimeCall.exec inp .publish) _ _ s := wp_publish h
  obtain ⟨hok, herror⟩ := perform_spec hspec
  generalize hst : perform (RuntimeCall.exec inp) s .publish = st at hok herror ⊢
  have hcall : st.call = .publish := hst ▸ rfl
  have hbefore : st.before = s := hst ▸ rfl
  cases hresult : st.result with
  | error e => exact (herror e hresult).elim
  | ok =>
      obtain ⟨hidle, hrunners, _, _⟩ := hok () hresult
      refine ⟨?_, by rw [hcall, hresult]; exact hidle⟩
      refine { managed := hidle.managed, operated := hidle.logged,
               candidatesFirst := fun hc => absurd (hcall.symm.trans hc) nofun,
               rolledBack := fun hc => absurd (hcall.symm.trans hc) nofun,
               published := fun _ => ⟨hresult, ?_⟩,
               shutDown := fun hc => absurd (hcall.symm.trans hc) nofun,
               shutdownFailed := fun hc => absurd (hcall.symm.trans hc) nofun }
      rw [hbefore]
      exact ⟨t, h.held, hrunners ▸ hidle.runsExactly, hrunners⟩

theorem shutdown_proceeds (h : Owned s) (p : Phase) :
    Proceeds inp p (perform (RuntimeCall.exec inp) s .shutdown) := by
  have hspec : wp (RuntimeCall.exec inp .shutdown) _ _ s := wp_shutdown h
  obtain ⟨hok, herror⟩ := perform_spec hspec
  generalize hst : perform (RuntimeCall.exec inp) s .shutdown = st at hok herror ⊢
  have hcall : st.call = .shutdown := hst ▸ rfl
  have hbefore : st.before = s := hst ▸ rfl
  cases hresult : st.result with
  | ok =>
      obtain ⟨hidle, hstopped, _⟩ := hok () hresult
      refine ⟨?_, by rw [hcall, hresult]; exact hidle⟩
      exact { managed := hidle.managed, operated := hidle.logged,
              candidatesFirst := fun hc => absurd (hcall.symm.trans hc) nofun,
              rolledBack := fun hc => absurd (hcall.symm.trans hc) nofun,
              published := fun hc => absurd (hcall.symm.trans hc) nofun,
              shutDown := fun _ _ => hstopped,
              shutdownFailed := fun _ hr => absurd (hresult.symm.trans hr) nofun }
  | error e =>
      obtain ⟨howned, hrecovery⟩ := herror e hresult
      refine ⟨?_, by rw [hcall, hresult]; exact howned⟩
      refine { managed := howned.managed, operated := howned.logged,
               candidatesFirst := fun hc => absurd (hcall.symm.trans hc) nofun,
               rolledBack := fun hc => absurd (hcall.symm.trans hc) nofun,
               published := fun hc => absurd (hcall.symm.trans hc) nofun,
               shutDown := fun _ hr => absurd (hresult.symm.trans hr) nofun,
               shutdownFailed := fun _ hr => ?_ }
      have he : e = .recovery := by
        rw [hresult] at hr
        cases hr
        rfl
      obtain ⟨failures, hstopped⟩ := hrecovery he
      obtain ⟨events, hlog, hops, hfail⟩ := hstopped.tried
      rw [hbefore]
      refine ⟨events, hlog, hops, fun ev hev hret => ?_⟩
      have hin : ev.runner ∈ failures := hfail ev hev hret
      exact (hstopped.kept _).mpr ⟨hstopped.among _ hin, fun _ => hin⟩

/-- Whatever the lifecycle calls next, the runners stay owned. -/
theorem step_proceeds {p : Phase} {c : RuntimeCall} (h : p.Holds s) (hc : p.permits c = true) :
    Proceeds inp p (perform (RuntimeCall.exec inp) s c) := by
  cases c with
  | prepare snapshot =>
      cases p with
      | idle => exact prepare_proceeds h snapshot
      | prepared | activated | broken | stuck => cases hc
  | activate =>
      cases p with
      | prepared =>
          obtain ⟨t, ht, hstopped, hstarted⟩ := h
          exact activate_proceeds ht hstopped hstarted
      | idle | activated | broken | stuck => cases hc
  | rollback =>
      cases p with
      | activated =>
          obtain ⟨t, ht⟩ := h
          exact rollback_proceeds ht.toSwitching _
      | broken =>
          obtain ⟨t, ht⟩ := h
          exact rollback_proceeds ht _
      | idle | prepared | stuck => cases hc
  | publish =>
      cases p with
      | activated =>
          obtain ⟨t, ht⟩ := h
          exact publish_proceeds ht
      | idle | prepared | broken | stuck => cases hc
  | shutdown => exact shutdown_proceeds h.owned p

end Steps

/-- From any phase on, every step of an orderly run owns the runners. -/
theorem trace_proceeds {inp : RuntimeInputs} {p : Phase} {s : DeviceRuntime} (h : p.Holds s)
    {calls : List RuntimeCall} (horder : InOrder p (trace (RuntimeCall.exec inp) s calls) = true) :
    ∀ st ∈ trace (RuntimeCall.exec inp) s calls, RunnersOwned inp st := by
  induction calls generalizing p s with
  | nil => intro st hst; cases hst
  | cons c cs ih =>
      rw [trace, InOrder, Bool.and_eq_true] at horder
      obtain ⟨howned, hnext⟩ : Proceeds inp p (perform (RuntimeCall.exec inp) s c) :=
        step_proceeds h horder.1
      intro st hst
      rcases List.mem_cons.mp hst with rfl | hst
      · exact howned
      · exact ih hnext horder.2 st hst

/-- A runtime of a new process, or of the same boot after an earlier runtime. -/
theorem idle_new (boot : ProcessBootContext) : Idle { boot } where
  managed := fun _ hr => absurd rfl hr
  distinctManaged := List.nodup_nil
  made := nofun
  logged := nofun
  pending := rfl
  distinct := List.nodup_nil
  runs := nofun
  only := fun _ hr => absurd rfl hr

/-- Every runner that may be running is managed, and what runs is what the
    transitions say, however the operations of the runners end. -/
theorem runners_owned (inp : RuntimeInputs) (boot : ProcessBootContext) (calls : List RuntimeCall)
    (horder : InOrder .idle (trace (RuntimeCall.exec inp) { boot } calls) = true) :
    ∀ st ∈ trace (RuntimeCall.exec inp) { boot } calls, RunnersOwned inp st :=
  trace_proceeds (p := .idle) (idle_new boot) horder

section Example

/-- A configuration of one device with one point. -/
def oneDevice (port : ℤ) : ConfigSnapshot where
  gatewayId := py "g"
  messageId := py "m"
  configVersion := port
  timestamp := 0
  enabled := true
  report := ⟨1000, 10⟩
  devices := [{
    deviceId := py "d", name := [], enabled := true, protocol := py "modbus_tcp",
    connection := { host := py "h", port, unitId := some 1, connectTimeoutMs := 100,
                    requestTimeoutMs := 100, retryCount := 0 },
    points := [{
      pointId := py "p", name := [], enabled := true, dataType := py "uint16",
      pollIntervalMs := 1000, scale := .int 1, offset := .int 0, unit := none,
      reportMode := py "cyclic", reportIntervalMs := 1000, deadband := .int 0,
      staleAfterMs := 5000, modbus := some ⟨py "holding", 0, none⟩ }] }]
  contentJson := []
  wireJson := []

/-- The start of the second runner fails, and the first stop of the shutdown
    times out. -/
def failingInputs : RuntimeInputs where
  factory := some fun _ _ => .ok 0
  outcome := fun n => if n = 2 then .error .failed else if n = 6 then .error .timedOut else .ok ()
  monotonic := fun n => n

/-- A failed replacement, its rollback, and a shutdown that succeeds at the
    second attempt. -/
def failingCalls : List RuntimeCall :=
  [.prepare (oneDevice 1), .activate, .publish, .prepare (oneDevice 2), .activate, .rollback,
    .shutdown, .shutdown]

theorem failing_replacement_owned :
    (trace (RuntimeCall.exec failingInputs) { boot := {} } failingCalls).map (·.result) =
        [.ok (), .ok (), .ok (), .ok (), .error (.runner .failed), .ok (), .error .recovery, .ok ()] ∧
      ∀ st ∈ trace (RuntimeCall.exec failingInputs) { boot := {} } failingCalls,
        RunnersOwned failingInputs st :=
  ⟨by rfl, runners_owned failingInputs {} failingCalls (by decide +kernel)⟩

end Example

end PlcnextIot.Devices
