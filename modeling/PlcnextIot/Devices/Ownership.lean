/-
  PlcnextIot.Devices.Ownership

  Who owns the runners, in every state of a transition.

  `Owned` is what holds throughout: a runner that may be running is managed.
  `Idle` describes the runtime between two transitions, `Switching t` the
  runtime inside the transition `t`, whatever was stopped and started so far,
  and `Switched t` the end of its activation.  One lemma for each method says
  from which of these it leads to which, for every way in which its awaits can
  end.
-/

import PlcnextIot.Devices.Runtime
import PlcnextIot.Effect.Returns

namespace PlcnextIot.Devices

open PlcnextIot.Python PlcnextIot.Config PlcnextIot.Effect PlcnextIot.Effect.Prog

variable {inp : RuntimeInputs} {s : DeviceRuntime} {t : RuntimeTransition} {r : Runner}
  {op : RunnerOp} {returned : Bool}

/-- A runner that may be running. -/
def DeviceRuntime.MayRun (s : DeviceRuntime) (r : Runner) : Prop := s.status r ≠ .stopped

/-- What is managed when an operation is called: its runner, and whatever may
    be running. -/
def RunnerEvent.Owned (ev : RunnerEvent) : Prop :=
  ev.runner ∈ ev.managed ∧ ∀ r, ev.status r ≠ .stopped → r ∈ ev.managed

/-- A runner that may be running is managed, now and at every operation. -/
structure Owned (s : DeviceRuntime) : Prop where
  managed : ∀ r, s.MayRun r → r ∈ s.managed
  distinctManaged : s.managed.Nodup
  made : ∀ r ∈ s.managed, r.made < s.prepares
  logged : ∀ ev ∈ s.log, ev.Owned

/-- Between two transitions exactly the published runners run. -/
structure Idle (s : DeviceRuntime) : Prop extends Owned s where
  pending : s.pending = none
  distinct : s.runners.values.Nodup
  runs : ∀ r ∈ s.runners.values, s.status r = .running
  only : ∀ r, s.MayRun r → r ∈ s.runners.values

/-- The runtime is in the transition `t`.  What it stopped so far leaves, what it
    started arrives, and nothing else has changed. -/
structure Switching (t : RuntimeTransition) (s : DeviceRuntime) : Prop extends Owned s where
  held : s.transition = some t
  pending : s.pending = some t.number
  old : s.runners = t.old
  oldDistinct : t.old.values.Nodup
  proposedDistinct : t.proposed.values.Nodup
  oldManaged : ∀ r ∈ t.old.values, r ∈ s.managed
  proposedManaged : ∀ r ∈ t.proposed.values, r ∈ s.managed
  older : ∀ r ∈ t.old.values, r.made < t.number
  newer : ∀ r ∈ t.arriving, r.made = t.number
  leaves : ∀ r ∈ t.stopped, r ∈ t.leaving
  arrives : ∀ r ∈ t.started, r ∈ t.arriving
  keeps : ∀ r ∈ t.old.values, r ∉ t.stopped → s.status r = .running
  only : ∀ r, s.MayRun r → r ∈ t.old.values ∨ r ∈ t.started

/-- The activation of `t` is complete. -/
structure Switched (t : RuntimeTransition) (s : DeviceRuntime) : Prop extends Switching t s where
  activated : t.activated = true
  left : ∀ r ∈ t.leaving, r ∈ t.stopped ∧ s.status r = .stopped
  arrived : ∀ r ∈ t.arriving, s.status r = .running

/-- The operations since `s` have a property. -/
def LogsSince (P : RunnerEvent → Prop) (s s' : DeviceRuntime) : Prop :=
  ∃ events, s'.log = s.log ++ events ∧ ∀ ev ∈ events, P ev

theorem LogsSince.refl (P : RunnerEvent → Prop) (s : DeviceRuntime) : LogsSince P s s :=
  ⟨[], by simp, by simp⟩

theorem LogsSince.note {P : RunnerEvent → Prop} {s₀ : DeviceRuntime} (h : LogsSince P s₀ s)
    (hP : P ⟨op, r, returned, s.status, s.managed⟩) : LogsSince P s₀ (s.note op r returned) := by
  obtain ⟨events, hlog, hevents⟩ := h
  refine ⟨events ++ [⟨op, r, returned, s.status, s.managed⟩], ?_, ?_⟩
  · show s.log ++ _ = _
    rw [hlog, List.append_assoc]
  · intro ev hev
    rcases List.mem_append.mp hev with hev | hev
    · exact hevents ev hev
    · rw [List.mem_singleton.mp hev]
      exact hP

/-! ## Operations -/

@[simp] theorem status_note_self : (s.note op r returned).status r = op.leaves returned :=
  Function.update_self ..

theorem status_note_ne {x : Runner} (h : x ≠ r) : (s.note op r returned).status x = s.status x :=
  Function.update_of_ne h ..

/-- What an await may end in. -/
theorem wp_operate {Q : Unit → DeviceRuntime → Prop} {E : RuntimeExc → DeviceRuntime → Prop}
    (hreturned : Q () (s.note op r true)) (hraised : ∀ e, E (.runner e) (s.note op r false)) :
    wp (operate inp op r) Q E s := by
  unfold wp operate
  split
  · next h =>
      split at h
      · cases h
        exact hreturned
      · cases h
  · next h =>
      split at h
      · cases h
      · cases h
        exact hraised _

theorem Owned.note (h : Owned s) (hr : r ∈ s.managed) : Owned (s.note op r returned) where
  managed := by
    intro x hx
    by_cases hxr : x = r
    · exact hxr ▸ hr
    · exact h.managed x (by rwa [DeviceRuntime.MayRun, status_note_ne hxr] at hx)
  distinctManaged := h.distinctManaged
  made := h.made
  logged := by
    intro ev hev
    rcases List.mem_append.mp hev with hev | hev
    · exact h.logged ev hev
    · rw [List.mem_singleton.mp hev]
      exact ⟨hr, h.managed⟩

/-- A runner that does not run need not be managed. -/
theorem Owned.unmanage (h : Owned s) (hr : s.status r = .stopped) : Owned (s.unmanage r) where
  managed := by
    intro x hx
    have hxr : x ≠ r := fun he => hx (he ▸ hr)
    exact List.mem_filter.mpr ⟨h.managed x hx, by simpa using hxr⟩
  distinctManaged := h.distinctManaged.filter _
  made := fun x hx => h.made x (List.mem_of_mem_filter hx)
  logged := h.logged

/-! ## The runners of a transition -/

theorem old_of_leaving (h : r ∈ t.leaving) : r ∈ t.old.values := by
  obtain ⟨key, hkey, _⟩ := Dict.mem_unmatched.mp h
  exact Dict.mem_values.mpr ⟨key, hkey⟩

theorem proposed_of_arriving (h : r ∈ t.arriving) : r ∈ t.proposed.values := by
  obtain ⟨key, hkey, _⟩ := Dict.mem_unmatched.mp h
  exact Dict.mem_values.mpr ⟨key, hkey⟩

/-- The proposed runners are new ones and old ones that stay. -/
theorem arriving_or_old (hr : r ∈ t.proposed.values) : r ∈ t.arriving ∨ r ∈ t.old.values := by
  obtain ⟨key, hkey⟩ := Dict.mem_values.mp hr
  by_cases hold : t.old.get? key = some r
  · exact .inr (Dict.mem_values.mpr ⟨key, hold⟩)
  · exact .inl (Dict.mem_unmatched.mpr ⟨key, hkey, hold⟩)

/-- An old runner stays or leaves. -/
theorem proposed_or_leaving (hr : r ∈ t.old.values) : r ∈ t.proposed.values ∨ r ∈ t.leaving := by
  obtain ⟨key, hkey⟩ := Dict.mem_values.mp hr
  by_cases hprop : t.proposed.get? key = some r
  · exact .inl (Dict.mem_values.mpr ⟨key, hprop⟩)
  · exact .inr (Dict.mem_unmatched.mpr ⟨key, hkey, hprop⟩)

namespace Switching

variable (h : Switching t s)

include h

/-- A new runner is no old one. -/
theorem not_old (hr : r ∈ t.arriving) : r ∉ t.old.values := by
  intro hold
  have hlt := h.older r hold
  rw [h.newer r hr] at hlt
  exact Nat.lt_irrefl _ hlt

/-- A runner that leaves is not proposed, under any key. -/
theorem not_proposed (hr : r ∈ t.leaving) : r ∉ t.proposed.values := by
  obtain ⟨key, hold, hne⟩ := Dict.mem_unmatched.mp hr
  intro hprop
  obtain ⟨key', hkey'⟩ := Dict.mem_values.mp hprop
  by_cases hold' : t.old.get? key' = some r
  · -- one old runner, one key
    have hk : key = key' := Dict.key_unique h.oldDistinct hold hold'
    subst hk
    exact hne hkey'
  · exact h.not_old (Dict.mem_unmatched.mpr ⟨key', hkey', hold'⟩) (old_of_leaving hr)

theorem managed_of_stopped (hr : r ∈ t.stopped) : r ∈ s.managed :=
  h.oldManaged r (old_of_leaving (h.leaves r hr))

theorem managed_of_started (hr : r ∈ t.started) : r ∈ s.managed :=
  h.proposedManaged r (proposed_of_arriving (h.arrives r hr))

/-- A runner that the transition has touched may be operated again. -/
theorem note (hr : r ∈ t.stopped ∨ r ∈ t.started) : Switching t (s.note op r returned) := by
  have hmanaged : r ∈ s.managed := hr.elim h.managed_of_stopped h.managed_of_started
  refine { h with toOwned := h.toOwned.note hmanaged, keeps := ?_, only := ?_ }
  · intro x hx hns
    have hxr : x ≠ r := by
      rintro rfl
      rcases hr with hr | hr
      · exact hns hr
      · exact h.not_old (h.arrives _ hr) hx
    rw [status_note_ne hxr]
    exact h.keeps x hx hns
  · intro x hx
    by_cases hxr : x = r
    · subst hxr
      exact hr.imp (fun hr => old_of_leaving (h.leaves _ hr)) id
    · exact h.only x (by rwa [DeviceRuntime.MayRun, status_note_ne hxr] at hx)

/-- `self.stopped.append(runner)`, before the runner is stopped. -/
theorem appendStopped (hr : r ∈ t.leaving) :
    Switching { t with stopped := t.stopped ++ [r] } (s.appendStopped r) := by
  have hheld : (s.appendStopped r).transition = some { t with stopped := t.stopped ++ [r] } := by
    show s.transition.map _ = _
    rw [h.held]
    rfl
  refine { h with held := hheld, leaves := ?_, keeps := ?_ }
  · intro x hx
    rcases List.mem_append.mp hx with hx | hx
    · exact h.leaves x hx
    · rw [List.mem_singleton.mp hx]
      exact hr
  · intro x hx hns
    exact h.keeps x hx fun hxs => hns (List.mem_append_left _ hxs)

/-- `self.started.append(runner)`, before the runner is started. -/
theorem appendStarted (hr : r ∈ t.arriving) :
    Switching { t with started := t.started ++ [r] } (s.appendStarted r) := by
  have hheld : (s.appendStarted r).transition = some { t with started := t.started ++ [r] } := by
    show s.transition.map _ = _
    rw [h.held]
    rfl
  refine { h with held := hheld, arrives := ?_, only := ?_ }
  · intro x hx
    rcases List.mem_append.mp hx with hx | hx
    · exact h.arrives x hx
    · rw [List.mem_singleton.mp hx]
      exact hr
  · intro x hx
    exact (h.only x hx).imp id fun hxs => List.mem_append_left _ hxs

end Switching

/-! ## `prepare` -/

theorem mem_foldl_manage {managed rs : List Runner} :
    r ∈ rs.foldl DeviceRuntime.manage managed ↔ r ∈ managed ∨ r ∈ rs := by
  induction rs generalizing managed with
  | nil => simp
  | cons x rs ih =>
      rw [List.foldl_cons, ih, DeviceRuntime.manage, List.mem_cons]
      by_cases hx : x ∈ managed
      · rw [if_pos hx]
        constructor
        · rintro (hr | hr)
          · exact .inl hr
          · exact .inr (.inr hr)
        · rintro (hr | rfl | hr)
          · exact .inl hr
          · exact .inl hx
          · exact .inr hr
      · rw [if_neg hx, List.mem_append, List.mem_singleton, or_assoc]

theorem nodup_foldl_manage {managed rs : List Runner} (h : managed.Nodup) :
    (rs.foldl DeviceRuntime.manage managed).Nodup := by
  induction rs generalizing managed with
  | nil => exact h
  | cons x rs ih =>
      rw [List.foldl_cons]
      refine ih ?_
      unfold DeviceRuntime.manage
      split
      · exact h
      · next hx =>
          rw [← List.concat_eq_append]
          exact h.concat hx

theorem make_made {number : ℕ} {device : DeviceConfig} (h : make inp number device = .ok r) :
    r.made = number := by
  unfold make at h
  split at h
  · cases h
  · split at h
    · cases h
      rfl
    · cases h
    · cases h

theorem reusable_eq_some {key : PyStr} {device : DeviceConfig}
    (h : s.reusable key device = .ok (some r)) : s.runners.get? key = some r := by
  unfold DeviceRuntime.reusable at h
  split at h
  · cases h
  · next runner hrunner =>
      split at h
      · cases h
      · split at h
        · cases h
          exact hrunner
        · cases h

/-- A proposed runner is the published one of its device or was just made. -/
theorem proposed_cases {devices : List (PyStr × DeviceConfig)} {proposed : Dict PyStr Runner}
    (h : devices.foldlM (s.propose inp) .empty = .ok proposed) {key : PyStr}
    (hr : proposed.get? key = some r) : s.runners.get? key = some r ∨ r.made = s.prepares := by
  refine foldlM_eq_ok (P := fun d : Dict PyStr Runner => ∀ key r, d.get? key = some r →
    s.runners.get? key = some r ∨ r.made = s.prepares) ?_ ?_ h key r hr
  · intro d hd kd _ d' hstep key r hget
    unfold DeviceRuntime.propose at hstep
    obtain ⟨reused, hreused, hstep⟩ := bind_eq_ok hstep
    cases reused with
    | some runner =>
        cases hstep
        rw [Dict.get?_set] at hget
        split at hget
        · next hkey =>
            cases hget
            rw [hkey]
            exact .inl (reusable_eq_some hreused)
        · exact hd key r hget
    | none =>
        obtain ⟨runner, hmake, hstep⟩ := bind_eq_ok hstep
        cases hstep
        rw [Dict.get?_set] at hget
        split at hget
        · cases hget
          exact .inr (make_made hmake)
        · exact hd key r hget
  · intro key r hget
    cases hget

/-- The loop of `prepare` raises what the factory raises, or misses a device. -/
theorem propose_error {d : Dict PyStr Runner} {kd : PyStr × DeviceConfig} {e : RuntimeExc}
    (h : s.propose inp d kd = .error e) : e ≠ .transitionPending := by
  rcases bind_eq_error h with h | ⟨reused, _, h⟩
  · unfold DeviceRuntime.reusable at h
    split at h
    · cases h
    · split at h
      · cases h
        nofun
      · cases h
  · cases reused with
    | some runner => cases h
    | none =>
        rcases bind_eq_error h with h | ⟨runner, _, h⟩
        · unfold make at h
          split at h
          · cases h
            nofun
          · split at h <;> cases h <;> nofun
        · cases h

/-- `prepare` on an idle runtime: a plan for the given snapshot that has not
    touched any runner, or no change at all. -/
theorem wp_prepare (h : Idle s) (snapshot : ConfigSnapshot) :
    wp (prepare inp snapshot)
      (fun _ s' => ∃ t, Switching t s' ∧ t.stopped = [] ∧ t.started = [] ∧ t.snapshot = snapshot)
      (fun e s' => Idle s' ∧ e ≠ .transitionPending) s := by
  unfold prepare
  rw [wp_bind, wp_get, wp_bind, wp_check, wp_bind, wp_modify, wp_bind]
  refine ⟨fun _ => ?_, fun hne => absurd h.pending hne⟩
  -- the runners are as before, one more call of `prepare` has been made
  have hidle : Idle { s with prepares := s.prepares + 1 } :=
    { h with made := fun r hr => Nat.lt_succ_of_lt (h.made r hr) }
  rw [wp_result]
  constructor
  · intro proposed hproposed
    rw [wp_bind, wp_check]
    refine ⟨fun hdistinct => ?_, fun _ => ⟨hidle, nofun⟩⟩
    have hcases : ∀ key r, proposed.get? key = some r →
        s.runners.get? key = some r ∨ r.made = s.prepares :=
      fun _ _ hr => proposed_cases hproposed hr
    refine ⟨{ number := s.prepares, snapshot, proposed, old := s.runners }, ?_, rfl, rfl, rfl⟩
    refine { held := rfl, pending := rfl, old := rfl, oldDistinct := h.distinct,
             proposedDistinct := hdistinct, leaves := nofun, arrives := nofun,
             logged := h.logged, distinctManaged := nodup_foldl_manage h.distinctManaged,
             managed := ?_, made := ?_, oldManaged := ?_,
             proposedManaged := ?_, older := ?_, newer := ?_, keeps := ?_, only := ?_ }
    · intro r hr
      exact mem_foldl_manage.mpr (.inl (h.managed r hr))
    · intro r hr
      rcases mem_foldl_manage.mp hr with hr | hr
      · exact Nat.lt_succ_of_lt (h.made r hr)
      · obtain ⟨key, hkey⟩ := Dict.mem_values.mp hr
        rcases hcases key r hkey with hold | hnew
        · have hmay : s.MayRun r := by
            rw [DeviceRuntime.MayRun, h.runs r (Dict.mem_values.mpr ⟨key, hold⟩)]
            nofun
          exact Nat.lt_succ_of_lt (h.made r (h.managed r hmay))
        · rw [hnew]
          exact Nat.lt_succ_self _
    · intro r hr
      have hmay : s.MayRun r := by
        rw [DeviceRuntime.MayRun, h.runs r hr]
        nofun
      exact mem_foldl_manage.mpr (.inl (h.managed r hmay))
    · intro r hr
      exact mem_foldl_manage.mpr (.inr hr)
    · intro r hr
      have hmay : s.MayRun r := by
        rw [DeviceRuntime.MayRun, h.runs r hr]
        nofun
      exact h.made r (h.managed r hmay)
    · intro r hr
      obtain ⟨key, hkey, hne⟩ := Dict.mem_unmatched.mp hr
      exact (hcases key r hkey).resolve_left hne
    · intro r hr _
      exact h.runs r hr
    · intro r hr
      exact .inl (h.only r hr)
  · intro e he
    obtain ⟨d, kd, _, hstep⟩ := foldlM_eq_error he
    exact ⟨hidle, propose_error hstep⟩

/-! ## `activate` -/

theorem wp_onTransition {f : RuntimeTransition → RuntimeM Unit} {Q : Unit → DeviceRuntime → Prop}
    {E : RuntimeExc → DeviceRuntime → Prop} (h : s.transition = some t) (hf : wp (f t) Q E s) :
    wp (onTransition f) Q E s := by
  rw [onTransition, wp_bind, wp_gets, h]
  exact hf

/-- `activate` completes the switch, or ends inside the transition. -/
theorem wp_activate (h : Switching t s) (hstopped : t.stopped = []) (hstarted : t.started = []) :
    wp (activate inp)
      (fun _ => Switched { t with stopped := t.leaving, started := t.arriving, activated := true })
      (fun _ s' => ∃ stopped started, Switching { t with stopped, started } s') s := by
  refine wp_onTransition h.held ?_
  rw [wp_bind]
  -- the old runners that leave are stopped one after the other
  refine (wp_each_done (I := fun done s => Switching { t with stopped := done } s ∧
    ∀ r ∈ done, s.status r = .stopped) ?_ ⟨by rwa [← hstopped], nofun⟩).mono ?_ fun _ _ h => h
  · rintro done r rest hsplit s ⟨h, hdone⟩
    have hr : r ∈ t.leaving := hsplit ▸ List.mem_append_right done List.mem_cons_self
    rw [wp_bind, wp_modify]
    have happended := h.appendStopped (r := r) hr
    have htouched : r ∈ done ++ [r] ∨ r ∈ t.started := .inl (List.mem_append_right done (.head _))
    refine wp_operate ⟨happended.note htouched, fun x hx => ?_⟩
      fun _ => ⟨_, _, happended.note htouched⟩
    by_cases hxr : x = r
    · rw [hxr, status_note_self]
      rfl
    · rw [status_note_ne hxr]
      exact hdone x ((List.mem_append.mp hx).resolve_right (by simpa using hxr))
  rintro _ s ⟨h, hleft⟩
  rw [wp_bind]
  -- then the new ones are started
  refine (wp_each_done (I := fun done s =>
    Switching { t with stopped := t.leaving, started := done } s ∧
      (∀ r ∈ t.leaving, s.status r = .stopped) ∧ ∀ r ∈ done, s.status r = .running)
    ?_ ⟨by rwa [← hstarted], hleft, nofun⟩).mono ?_ fun _ _ h => h
  · rintro done r rest hsplit s ⟨h, hleft, hdone⟩
    have hr : r ∈ t.arriving := hsplit ▸ List.mem_append_right done List.mem_cons_self
    rw [wp_bind, wp_modify]
    have happended := h.appendStarted (r := r) hr
    have htouched : r ∈ t.leaving ∨ r ∈ done ++ [r] := .inr (List.mem_append_right done (.head _))
    refine wp_operate ⟨happended.note htouched, fun x hx => ?_, fun x hx => ?_⟩
      fun _ => ⟨_, _, happended.note htouched⟩
    · have hxr : x ≠ r := fun he => h.not_old hr (old_of_leaving (he ▸ hx))
      rw [status_note_ne hxr]
      exact hleft x hx
    · by_cases hxr : x = r
      · rw [hxr, status_note_self]
        rfl
      · rw [status_note_ne hxr]
        exact hdone x ((List.mem_append.mp hx).resolve_right (by simpa using hxr))
  rintro _ s ⟨h, hleft, harrived⟩
  rw [wp_modify]
  have hheld : (s.withTransition fun t => { t with activated := true }).transition =
      some { t with stopped := t.leaving, started := t.arriving, activated := true } := by
    show s.transition.map _ = _
    rw [h.held]
    rfl
  exact { h with held := hheld, activated := rfl, left := fun r hr => ⟨hr, hleft r hr⟩,
                 arrived := harrived }

/-! ## `rollback` -/

/-- No runner is started while a candidate of `t` may run. -/
def RunnerEvent.AfterCandidates (t : RuntimeTransition) (ev : RunnerEvent) : Prop :=
  ev.op = .start → ∀ r ∈ t.arriving, ev.status r = .stopped

/-- `rollback` brings the old runners back, or raises with every runner that
    may run still managed.  In both cases the candidates stop first. -/
theorem wp_rollback (h : Switching t s) :
    wp (rollback inp)
      (fun _ s' => (Idle s' ∧ s'.runners = s.runners) ∧ LogsSince (·.AfterCandidates t) s s')
      (fun _ s' => Owned s' ∧ LogsSince (·.AfterCandidates t) s s') s := by
  have hold := h.old
  refine wp_onTransition h.held ?_
  rw [wp_bind]
  refine (wp_each_done (I := fun done s' => Switching t s' ∧
    (∀ r ∈ done, s'.status r = .stopped) ∧ LogsSince (·.AfterCandidates t) s s')
    ?_ ⟨h, nofun, .refl _ s⟩).mono ?_ fun _ _ h => h
  · rintro done r rest hsplit s' ⟨h, hdone, hlog⟩
    have hr : r ∈ t.started :=
      List.mem_reverse.mp (hsplit ▸ List.mem_append_right done List.mem_cons_self)
    have hnote : ∀ returned, Switching t (s'.note .stop r returned) := fun _ => h.note (.inr hr)
    refine wp_operate ⟨hnote true, fun x hx => ?_, hlog.note nofun⟩
      fun _ => ⟨(hnote false).toOwned, hlog.note nofun⟩
    by_cases hxr : x = r
    · rw [hxr, status_note_self]
      rfl
    · rw [status_note_ne hxr]
      exact hdone x ((List.mem_append.mp hx).resolve_right (by simpa using hxr))
  rintro _ s₁ ⟨h, hstarted, hlog⟩
  -- a candidate that was not started has never run
  have hcandidates : ∀ r ∈ t.arriving, s₁.status r = .stopped := by
    intro r hr
    by_contra hmay
    rcases h.only r hmay with hr' | hr'
    · exact h.not_old hr hr'
    · exact hmay (hstarted r (List.mem_reverse.mpr hr'))
  rw [wp_bind]
  refine (wp_each_done (I := fun done s' => Switching t s' ∧
    (∀ r ∈ t.arriving, s'.status r = .stopped) ∧ (∀ r ∈ done, s'.status r = .running) ∧
      LogsSince (·.AfterCandidates t) s s')
    ?_ ⟨h, hcandidates, nofun, hlog⟩).mono ?_ fun _ _ h => h
  · rintro done r rest hsplit s' ⟨h, hcandidates, hdone, hlog⟩
    have hr : r ∈ t.stopped := hsplit ▸ List.mem_append_right done List.mem_cons_self
    have hne : ∀ x ∈ t.arriving, x ≠ r :=
      fun x hx he => h.not_old hx (old_of_leaving (h.leaves x (he ▸ hr)))
    rw [wp_bind]
    refine wp_operate ?_ fun _ => ⟨(h.note (.inl hr)).toOwned, hlog.note nofun⟩
    have hstop : Switching t (s'.note .stop r true) := h.note (.inl hr)
    have hstopLog : LogsSince (·.AfterCandidates t) s (s'.note .stop r true) := hlog.note nofun
    have hstopCandidates : ∀ x ∈ t.arriving, (s'.note .stop r true).status x = .stopped := by
      intro x hx
      rw [status_note_ne (hne x hx)]
      exact hcandidates x hx
    refine wp_operate ⟨hstop.note (.inl hr), fun x hx => ?_, fun x hx => ?_,
      hstopLog.note fun _ => hstopCandidates⟩
      fun _ => ⟨(hstop.note (.inl hr)).toOwned, hstopLog.note fun _ => hstopCandidates⟩
    · rw [status_note_ne (hne x hx)]
      exact hstopCandidates x hx
    · by_cases hxr : x = r
      · rw [hxr, status_note_self]
        rfl
      · rw [status_note_ne hxr, status_note_ne hxr]
        exact hdone x ((List.mem_append.mp hx).resolve_right (by simpa using hxr))
  rintro _ s₂ ⟨h, hcandidates, hrestarted, hlog⟩
  rw [wp_bind]
  -- the candidates, stopped, are let go
  refine (wp_each (I := fun s' => Owned s' ∧ s'.status = s₂.status ∧ s'.runners = s₂.runners ∧
    s'.log = s₂.log) ?_ ⟨h.toOwned, rfl, rfl, rfl⟩).mono ?_ fun _ _ h => h
  · rintro r hr s' ⟨howned, hstatus, hrest⟩
    rw [wp_modify]
    exact ⟨howned.unmanage (hstatus ▸ hcandidates r hr), hstatus, hrest⟩
  rintro _ s₃ ⟨howned, hstatus, hrunners, hlog'⟩
  rw [wp_modify]
  have hruns : ∀ r ∈ t.old.values, s₃.status r = .running := by
    intro r hr
    rw [hstatus]
    by_cases hstopped : r ∈ t.stopped
    · exact hrestarted r hstopped
    · exact h.keeps r hr hstopped
  have honly : ∀ r, s₃.MayRun r → r ∈ t.old.values := by
    intro r hmay
    rw [DeviceRuntime.MayRun, hstatus] at hmay
    refine (h.only r hmay).resolve_right fun hr => hmay ?_
    exact hcandidates r (h.arrives r hr)
  have hback : s₃.runners = t.old := hrunners.trans h.old
  refine ⟨⟨?_, hback.trans hold.symm⟩, ?_⟩
  · exact { howned with pending := rfl, distinct := by rw [hback]; exact h.oldDistinct,
                        runs := by rw [hback]; exact hruns, only := by rw [hback]; exact honly }
  · obtain ⟨events, hevents, hafter⟩ := hlog
    exact ⟨events, hlog'.trans hevents, hafter⟩

/-! ## `publish` -/

/-- What the boot and the generation become is left open here. -/
theorem wp_publishSampling {snapshot : ConfigSnapshot} {Q : Unit → DeviceRuntime → Prop}
    {E : RuntimeExc → DeviceRuntime → Prop}
    (h : ∀ boot generation publishedAt reads,
      Q () { s with boot := boot, sampleGeneration := generation, samplePublishedAt := publishedAt,
                    clockReads := reads }) :
    wp (publishSampling inp snapshot) Q E s := by
  unfold publishSampling
  rw [wp_bind, wp_get, wp_ite]
  refine ⟨fun _ => ?_, fun _ => h s.boot s.sampleGeneration s.samplePublishedAt s.clockReads⟩
  unfold beginGeneration
  rw [wp_bind, wp_bind, wp_get, wp_ite]
  exact ⟨fun _ => h _ _ _ _, fun _ => h s.boot _ _ s.clockReads⟩

/-- `publish` of a complete transition returns, and exactly the proposed
    runners run. -/
theorem wp_publish (h : Switched t s) :
    wp (publish inp)
      (fun _ s' => Idle s' ∧ s'.runners = t.proposed ∧ s'.snapshot = some t.snapshot ∧
        s'.log = s.log)
      (fun _ _ => False) s := by
  refine wp_onTransition h.held ?_
  rw [wp_bind, wp_get, wp_bind, wp_check]
  refine ⟨fun _ => ?_, fun hne => hne ⟨h.activated, h.pending⟩⟩
  rw [wp_bind, wp_modify, wp_bind]
  refine wp_publishSampling fun boot generation publishedAt reads => ?_
  rw [wp_bind, wp_modify, wp_bind]
  -- the runners that left, stopped, are let go
  refine (wp_each (I := fun s' => Owned s' ∧ s'.status = s.status ∧ s'.runners = t.proposed ∧
    s'.snapshot = some t.snapshot ∧ s'.log = s.log) ?_ ?_).mono ?_ fun _ _ h => h
  · rintro r hr s' ⟨howned, hstatus, hrest⟩
    rw [wp_modify]
    have hstopped : s.status r = .stopped := (h.left r (h.leaves r hr)).2
    exact ⟨howned.unmanage (hstatus ▸ hstopped), hstatus, hrest⟩
  · exact ⟨{ h.toOwned with }, rfl, rfl, rfl, rfl⟩
  rintro _ s' ⟨howned, hstatus, hrunners, hsnapshot, hlog⟩
  rw [wp_modify]
  have hruns : ∀ r ∈ t.proposed.values, s'.status r = .running := by
    intro r hr
    rw [hstatus]
    rcases arriving_or_old hr with hr' | hold
    · exact h.arrived r hr'
    · exact h.keeps r hold fun hs => h.not_proposed (h.leaves r hs) hr
  have honly : ∀ r, s'.MayRun r → r ∈ t.proposed.values := by
    intro r hmay
    rw [DeviceRuntime.MayRun, hstatus] at hmay
    rcases h.only r hmay with hold | hstarted
    · exact (proposed_or_leaving hold).resolve_right fun hl => hmay (h.left r hl).2
    · exact proposed_of_arriving (h.arrives r hstarted)
  refine ⟨?_, hrunners, hsnapshot, hlog⟩
  exact { howned with pending := rfl, distinct := by rw [hrunners]; exact h.proposedDistinct,
                      runs := by rw [hrunners]; exact hruns, only := by rw [hrunners]; exact honly }

/-! ## `shutdown` -/

/-- One stop was called for each of `rs`, in order; those of `failures` stay
    managed, the others are let go. -/
structure StoppedEach (rs failures : List Runner) (s s' : DeviceRuntime) : Prop extends
    Owned s' where
  among : ∀ r ∈ failures, r ∈ rs
  kept : ∀ r, r ∈ s'.managed ↔ r ∈ s.managed ∧ (r ∈ rs → r ∈ failures)
  tried : ∃ events, s'.log = s.log ++ events ∧
    events.map (fun ev => (ev.op, ev.runner)) = rs.map (RunnerOp.stop, ·) ∧
    ∀ ev ∈ events, ev.returned = false → ev.runner ∈ failures

theorem wp_stopEach {rs : List Runner} (h : Owned s) (hdistinct : rs.Nodup)
    (hrs : ∀ r ∈ rs, r ∈ s.managed) :
    wp (stopEach inp rs) (fun failures s' => StoppedEach rs failures s s')
      (fun e s' => e = .runner .cancelled ∧ Owned s') s := by
  induction rs generalizing s with
  | nil =>
      refine { h with among := nofun, kept := fun r => ?_, tried := ⟨[], ?_, rfl, nofun⟩ }
      · exact ⟨fun hr => ⟨hr, nofun⟩, And.left⟩
      · exact (List.append_nil _).symm
  | cons r rest ih =>
      obtain ⟨hr, hdistinct⟩ := List.nodup_cons.mp hdistinct
      have hmanaged : r ∈ s.managed := hrs r (.head _)
      rw [stopEach, wp_bind, wp_attempt, wp_bind]
      refine wp_operate ?_ fun e => ?_
      · -- the stop returned
        rw [wp_bind, wp_modify, wp_pure, wp_bind]
        have hnext : Owned ((s.note .stop r true).unmanage r) :=
          (h.note hmanaged).unmanage status_note_self
        have hmem : ∀ x, x ∈ ((s.note .stop r true).unmanage r).managed ↔ x ∈ s.managed ∧ x ≠ r :=
          fun x => List.mem_filter.trans (by simp [DeviceRuntime.note])
        refine (ih hnext hdistinct fun x hx => (hmem x).mpr ⟨hrs x (.tail _ hx), ?_⟩).mono
          (fun failures s' hs' => ?_) fun _ _ h => h
        · exact fun he => hr (he ▸ hx)
        refine { hs' with among := fun x hx => .tail _ (hs'.among x hx), kept := fun x => ?_,
                          tried := ?_ }
        · rw [hs'.kept, hmem, List.mem_cons, List.nil_append]
          constructor
          · rintro ⟨⟨hx, hxr⟩, hfail⟩
            exact ⟨hx, fun hmem => hfail (hmem.resolve_left hxr)⟩
          · rintro ⟨hx, hfail⟩
            refine ⟨⟨hx, ?_⟩, fun hmem => hfail (.inr hmem)⟩
            rintro rfl
            exact hr (hs'.among x (hfail (.inl rfl)))
        · obtain ⟨events, hlog, hops, hfail⟩ := hs'.tried
          refine ⟨⟨.stop, r, true, s.status, s.managed⟩ :: events, ?_, ?_, ?_⟩
          · rw [hlog]
            exact List.append_assoc _ _ _
          · rw [List.map_cons, hops, List.map_cons]
          · intro ev hev hret
            rcases List.mem_cons.mp hev with rfl | hev
            · cases hret
            · exact hfail ev hev hret
      · -- the stop raised; a cancellation ends the loop
        by_cases he : e = .cancelled
        · subst he
          exact ⟨rfl, h.note hmanaged⟩
        have hnext : Owned (s.note .stop r false) := h.note hmanaged
        have hloop : wp (stopEach inp rest)
            (fun failures s' => StoppedEach (r :: rest) (r :: failures) s s')
            (fun e s' => e = .runner .cancelled ∧ Owned s') (s.note .stop r false) := by
          refine (ih hnext hdistinct fun x hx => hrs x (.tail _ hx)).mono
            (fun failures s' hs' => ?_) fun _ _ h => h
          refine { hs' with among := ?_, kept := fun x => ?_, tried := ?_ }
          · intro x hx
            rcases List.mem_cons.mp hx with rfl | hx
            · exact .head _
            · exact .tail _ (hs'.among x hx)
          · rw [hs'.kept, List.mem_cons, List.mem_cons]
            constructor
            · rintro ⟨hx, hfail⟩
              exact ⟨hx, fun hmem => hmem.imp id hfail⟩
            · rintro ⟨hx, hfail⟩
              refine ⟨hx, fun hmem => (hfail (.inr hmem)).resolve_left ?_⟩
              rintro rfl
              exact hr hmem
          · obtain ⟨events, hlog, hops, hfail⟩ := hs'.tried
            refine ⟨⟨.stop, r, false, s.status, s.managed⟩ :: events, ?_, ?_, ?_⟩
            · rw [hlog]
              exact List.append_assoc _ _ _
            · rw [List.map_cons, hops, List.map_cons]
            · intro ev hev hret
              rcases List.mem_cons.mp hev with rfl | hev
              · exact .head _
              · exact .tail _ (hfail ev hev hret)
        cases e with
        | cancelled => exact absurd rfl he
        | failed => exact (wp_bind _ _).mpr hloop
        | timedOut => exact (wp_bind _ _).mpr hloop

/-- `shutdown` that returns leaves nothing running.  One that fails has tried
    every runner and keeps those whose stop failed. -/
theorem wp_shutdown (h : Owned s) :
    wp (shutdown inp)
      (fun _ s' => Idle s' ∧ (∀ r, ¬ s'.MayRun r) ∧ s'.runners = .empty)
      (fun e s' => Owned s' ∧ (e = .recovery → ∃ failures, StoppedEach s.managed failures s s')) s := by
  unfold shutdown
  rw [wp_bind, wp_gets, wp_bind]
  refine (wp_stopEach h h.distinctManaged fun _ hr => hr).mono (fun failures s' hs' => ?_)
    fun e s' he => ⟨he.2, fun hrec => absurd (he.1.symm.trans hrec) nofun⟩
  rw [wp_bind, wp_check]
  refine ⟨fun hnone => ?_, fun _ => ⟨hs'.toOwned, fun _ => ⟨failures, hs'⟩⟩⟩
  rw [wp_modify]
  have hstopped : ∀ r, ¬ s'.MayRun r := by
    intro r hmay
    have hr := (hs'.kept r).mp (hs'.managed r hmay)
    have hfail := hr.2 hr.1
    rw [hnone] at hfail
    cases hfail
  refine ⟨?_, hstopped, rfl⟩
  exact { hs'.toOwned with pending := rfl, distinct := List.nodup_nil, runs := nofun,
                           only := fun r hr => absurd hr (hstopped r) }

/-! ## What is published -/

/-- The published configuration and its runners are the same. -/
def SamePublication (s s' : DeviceRuntime) : Prop :=
  s'.runners = s.runners ∧ s'.snapshot = s.snapshot

theorem SamePublication.refl (s : DeviceRuntime) : SamePublication s s := ⟨rfl, rfl⟩

theorem SamePublication.trans (a b c : DeviceRuntime) (h : SamePublication a b)
    (h' : SamePublication b c) : SamePublication a c :=
  ⟨h'.1.trans h.1, h'.2.trans h.2⟩

theorem operate_published (op : RunnerOp) (r : Runner) :
    Moves SamePublication (operate inp op r) :=
  fun _ => wp_operate ⟨rfl, rfl⟩ fun _ => ⟨rfl, rfl⟩

theorem modify_published {f : DeviceRuntime → DeviceRuntime}
    (hf : ∀ s, SamePublication s (f s)) :
    Moves SamePublication (modify f : RuntimeM Unit) := fun s => hf s

theorem bind_published {α β : Type} {x : RuntimeM α} {f : α → RuntimeM β}
    (hx : Moves SamePublication x) (hf : ∀ a, Moves SamePublication (f a)) :
    Moves SamePublication (x >>= f) := Moves.bind SamePublication.trans hx hf

theorem each_published {rs : List Runner} {body : Runner → RuntimeM Unit}
    (h : ∀ r, Moves SamePublication (body r)) : Moves SamePublication (each rs body) :=
  Moves.each SamePublication.refl SamePublication.trans fun r _ => h r

theorem onTransition_published {f : RuntimeTransition → RuntimeM Unit}
    (hf : ∀ t, Moves SamePublication (f t)) : Moves SamePublication (onTransition f) := by
  refine bind_published (fun _ => .refl _) fun held => ?_
  cases held with
  | none => exact fun _ => .refl _
  | some t => exact hf t

/-- A transition that is not published leaves the publication alone. -/
theorem prepare_published (snapshot : ConfigSnapshot) :
    Moves SamePublication (prepare inp snapshot) := by
  intro s
  unfold prepare
  rw [wp_bind, wp_get, wp_bind, wp_check]
  refine ⟨fun _ => ?_, fun _ => .refl s⟩
  rw [wp_bind, wp_modify, wp_bind, wp_result]
  refine ⟨fun proposed _ => ?_, fun _ _ => ⟨rfl, rfl⟩⟩
  rw [wp_bind, wp_check]
  exact ⟨fun _ => ⟨rfl, rfl⟩, fun _ => ⟨rfl, rfl⟩⟩

theorem activate_published : Moves SamePublication (activate inp) := by
  refine onTransition_published fun t => ?_
  refine bind_published (each_published fun r => ?_) fun _ =>
    bind_published (each_published fun r => ?_) fun _ => modify_published fun _ => ⟨rfl, rfl⟩
  · exact bind_published (modify_published fun _ => ⟨rfl, rfl⟩) fun _ => operate_published _ _
  · exact bind_published (modify_published fun _ => ⟨rfl, rfl⟩) fun _ => operate_published _ _

theorem rollback_published : Moves SamePublication (rollback inp) := by
  refine onTransition_published fun t => ?_
  refine bind_published (each_published fun r => operate_published _ _) fun _ =>
    bind_published (each_published fun r => ?_) fun _ =>
      bind_published (each_published fun r => modify_published fun _ => ⟨rfl, rfl⟩) fun _ =>
        modify_published fun _ => ⟨rfl, rfl⟩
  exact bind_published (operate_published _ _) fun _ => operate_published _ _

end PlcnextIot.Devices
