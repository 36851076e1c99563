/-
  PlcnextIot.Core.Consistency

  Database, runtime and reported version agree, whatever fails.

  `Settled` is the agreement between two items.  While an item is processed,
  `Holding` says that nothing visible has changed yet: the active version, what
  the agent reports and what the runtime publishes.  Each part of `_apply` ends
  in `Ends`: a fatal state, the agreement with nothing changed, or the
  agreement with the requested version applied.  A raise needs no description,
  since the coordinator answers every one with a fatal state.
-/

import PlcnextIot.Config.Receipts
import PlcnextIot.Core.Lifecycle
import PlcnextIot.Devices.Transitions
import PlcnextIot.Effect.Run

namespace PlcnextIot.Core

open PlcnextIot.Python PlcnextIot.Contracts PlcnextIot.Config PlcnextIot.Devices PlcnextIot.Effect
  PlcnextIot.Effect.Prog

variable [JsonSchema] {inp : AgentInputs} {cfg : StoreConfig}

/-! ## What the store answers -/

section Store

variable {s s' : Session} {kind : ItemKind} {payload : Bytes}

/-- The snapshot that an item asks for. -/
def Requested (cfg : StoreConfig) (t : Tables) (kind : ItemKind) (payload : Bytes)
    (snapshot : ConfigSnapshot) : Prop :=
  match kind with
  | .configSet => ConfigSnapshot.parse payload cfg.gatewayId = .ok snapshot
  | .configPatch => ∃ command active, parseCommand payload cfg.gatewayId = .ok command ∧
      loadActive cfg t = .ok active ∧ materialize command active cfg.gatewayId = .ok snapshot

/-- The version that an item asks for. -/
def RequestedVersion (cfg : StoreConfig) (kind : ItemKind) (payload : Bytes) (version : ℤ) : Prop :=
  match kind with
  | .configSet => ∃ snapshot, ConfigSnapshot.parse payload cfg.gatewayId = .ok snapshot ∧
      snapshot.configVersion = version
  | .configPatch => ∃ command messageId, parseCommand payload cfg.gatewayId = .ok command ∧
      commandKey command = .ok (messageId, version)

/-- A version is committed. -/
def Commits (t : Tables) (version : ℤ) : Prop :=
  ∃ row ∈ t.snapshots, row.version = version ∧ row.state = .committed

/-- The prepared row of a snapshot's version, found by its token. -/
def PreparedRow (cfg : StoreConfig) (s : Session) (snapshot : ConfigSnapshot)
    (token : Option PyStr) : Prop :=
  ∃ row ∈ s.tables.snapshots, row.token = token ∧ token.isSome ∧ row.state = .prepared ∧
    row.version = snapshot.configVersion ∧
    ∃ saved, decode cfg row = .ok saved ∧ saved.contentJson = snapshot.contentJson

/-- The active version, and what is loaded for it, are the same. -/
structure SameActive (cfg : StoreConfig) (s s' : Session) : Prop where
  sound : s'.Sound cfg
  pointer : s'.tables.active = s.tables.active
  loads : loadActive cfg s'.tables = loadActive cfg s.tables

theorem SameActive.trans {s'' : Session} (h : SameActive cfg s s') (h' : SameActive cfg s' s'') :
    SameActive cfg s s'' :=
  ⟨h'.sound, h'.pointer.trans h.pointer, h'.loads.trans h.loads⟩

theorem SameActive.of_tables (hs : s'.Sound cfg) (h : s'.tables = s.tables) :
    SameActive cfg s s' := ⟨hs, by rw [h], by rw [h]⟩

/-- Rows keep their content, so the active row loads as before. -/
theorem SameActive.of_grows (hs : s.Sound cfg) (hs' : s'.Sound cfg)
    (hgrows : s.tables.Grows s'.tables) (hpointer : s'.tables.active = s.tables.active) :
    SameActive cfg s s' := by
  have hversion : s'.tables.activeVersion = s.tables.activeVersion := by
    rw [Tables.activeVersion, hpointer, Tables.activeVersion]
  refine ⟨hs', hpointer, ?_⟩
  unfold loadActive
  rw [hversion]
  split
  · rfl
  · next hne =>
      obtain ⟨row, hrow, hv, hcommitted, _⟩ := hs.active_row hne
      obtain ⟨row', hrow', hsame, hstays⟩ := hgrows.snapshots row hrow
      have hfind : s.tables.snapshot? s.tables.activeVersion = some row :=
        hv ▸ hs.snapshot?_eq_some hrow
      have hfind' : s'.tables.snapshot? s.tables.activeVersion = some row' :=
        (hsame.version.trans hv) ▸ hs'.snapshot?_eq_some hrow'
      rw [hfind, hfind']
      simp only [hcommitted, hstays hcommitted, decode_same cfg hsame]

/-- How the store answers an item. -/
inductive Answer (cfg : StoreConfig) (kind : ItemKind) (payload : Bytes) (s : Session)
    (r : PrepareResult) (s' : Session) : Prop where
  | refused (hstatus : r.status = .rejected)
  | applied (hstatus : r.status = .applied) {version : ℤ}
      (hversion : RequestedVersion cfg kind payload version)
      (hcommits : Commits s.tables version)
  | prepared (hstatus : r.status = .prepared) {snapshot : ConfigSnapshot}
      (hrequested : Requested cfg s.tables kind payload snapshot)
      (hversion : RequestedVersion cfg kind payload snapshot.configVersion)
      (hnewer : s.tables.activeVersion < snapshot.configVersion)
      (hsnapshot : kind = .configPatch → r.snapshot = some snapshot)
      (hcandidate : PreparedRow cfg s' snapshot r.token)

/-- An accepted preparation is an answer. -/
theorem Answer.of_accepted {snapshot : ConfigSnapshot} {digest commandKind : Option PyStr}
    {r : PrepareResult} (h : Accepted cfg snapshot digest commandKind s.tables r s'.tables)
    (hrequested : Requested cfg s.tables kind payload snapshot)
    (hversion : RequestedVersion cfg kind payload snapshot.configVersion)
    (hkind : kind = .configPatch → commandKind.isSome) : Answer cfg kind payload s r s' := by
  obtain ⟨row, hrow, hv, hcontent, ⟨hstatus, hnewer, hstate, htoken, hsome, _⟩ |
    ⟨hstatus, _, hstate, _, hsame, _⟩⟩ := h.row
  · refine .prepared hstatus hrequested hversion hnewer (fun hk => ?_)
      ⟨row, hrow, htoken.symm, hsome, hstate, hv, hcontent⟩
    rw [h.candidate, if_pos (hkind hk)]
  · exact .applied hstatus hversion ⟨row, hsame ▸ hrow, hv, hstate⟩

theorem rejectInvalid_answer (hs : s.Sound cfg) (issues : List Issue) {fate : Fate} :
    wp (rejectInvalid fate issues) (fun r s' => Answer cfg kind payload s r s' ∧ SameActive cfg s s')
      (fun _ s' => SameActive cfg s s') s := by
  refine (rejectInvalid_spec issues).mono ?_ ?_
  · rintro r s' ⟨_, hstatus, _, rfl⟩
    exact ⟨.refused hstatus, .of_tables hs rfl⟩
  · rintro e s' ⟨_, _, rfl⟩
    exact .of_tables hs rfl

/-- A transaction whose body answers. -/
theorem transaction_answer {body : Prog Session StoreExc PrepareResult} {fate : Fate}
    (hs : s.Sound cfg) {E : StoreExc → Prop}
    (h : wp body (fun r s' => (Answer cfg kind payload s r s' ∧ s'.tables.active = s.tables.active) ∧
      s'.Sound cfg ∧ s.Advances cfg s') (fun e s' => s.drawn ≤ s'.drawn ∧ E e) s) :
    wp (transaction fate body)
      (fun r s' => Answer cfg kind payload s r s' ∧ SameActive cfg s s')
      (fun _ s' => SameActive cfg s s') s := by
  refine (transaction_spec hs h).mono ?_ ?_
  · rintro r s' ⟨_, ⟨hanswer, hpointer⟩, hsound, hadvances⟩
    exact ⟨hanswer, .of_grows hs hsound hadvances.grows hpointer⟩
  · rintro e s' ⟨_, hsound, hadvances, htables | ⟨_, _, _, hpointer⟩⟩
    · exact .of_tables hsound htables
    · exact .of_grows hs hsound hadvances.grows hpointer

/-- Whether it returns or raises, preparing an item leaves the active version. -/
theorem prepareItem_spec (hs : s.Sound cfg) (fate : Fate) :
    wp (prepareItem cfg kind payload fate)
      (fun r s' => Answer cfg kind payload s r s' ∧ SameActive cfg s s')
      (fun _ s' => SameActive cfg s s') s := by
  cases kind with
  | configSet =>
      show wp (Config.prepare cfg payload fate) _ _ s
      rcases parse_cases payload cfg.gatewayId with ⟨snapshot, _, hparse, _⟩ | ⟨issues, _, hparse⟩
      · rw [prepare_valid hparse]
        have hspec := @prepareSnapshot_spec _ cfg s payload snapshot none none hs hparse nofun
        refine transaction_answer hs (E := fun _ => True) (hspec.mono ?_ ?_)
        · rintro r s' (⟨code, _, rfl, rfl⟩ | ⟨haccepted, hsound, hadvances⟩)
          · exact ⟨⟨.refused rfl, rfl⟩, hs, .refl _⟩
          · exact ⟨⟨.of_accepted haccepted hparse ⟨snapshot, hparse, rfl⟩ nofun,
              haccepted.pointer⟩, hsound, hadvances⟩
        · rintro e s' ⟨hdrawn, _⟩
          exact ⟨hdrawn, trivial⟩
      · rw [prepare_invalid hparse]
        exact rejectInvalid_answer hs issues
  | configPatch =>
      show wp (Config.preparePatch cfg payload fate) _ _ s
      rcases parseCommand_cases payload cfg.gatewayId with
        ⟨command, hparse, hloaded, hconforms, _⟩ | ⟨issues, _, hparse⟩
      · obtain ⟨⟨messageId, version⟩, hkey, _⟩ := commandKey_returns hconforms
        have hversion : RequestedVersion cfg .configPatch payload version :=
          ⟨command, messageId, hparse, hkey⟩
        rw [preparePatch_valid hparse]
        refine transaction_answer hs (E := fun _ => True)
          ((patchBody_spec hs hloaded hkey (sha256 payload)).mono ?_ ?_)
        · rintro r s' ⟨hresult, hsound, hadvances⟩
          refine ⟨?_, hsound, hadvances⟩
          cases hresult with
          | refused hstatus _ hsame => exact ⟨.refused hstatus, by rw [hsame]⟩
          | @replays q hq _ hv happlied hr hsame =>
              obtain ⟨row, hrow, hrv, hiff⟩ := hs.applied q hq
              exact ⟨.applied (by rw [hr]; rfl) hversion
                ⟨row, hrow, hrv.trans hv, hiff.mp happlied⟩, by rw [hsame]⟩
          | @accepted active snapshot hactive hsnapshot _ hv haccepted =>
              exact ⟨.of_accepted haccepted ⟨command, active, hparse, hactive, hsnapshot⟩
                (hv ▸ hversion) fun _ => rfl, haccepted.pointer⟩
        · rintro e s' ⟨hdrawn, _⟩
          exact ⟨hdrawn, trivial⟩
      · rw [preparePatch_invalid hparse]
        exact rejectInvalid_answer hs issues

/-- A snapshot's version is active, with the snapshot's content. -/
structure Active (cfg : StoreConfig) (snapshot committed : ConfigSnapshot) (s : Session) : Prop where
  sound : s.Sound cfg
  pointer : s.tables.active = some snapshot.configVersion
  loads : loadActive cfg s.tables = .ok (some committed)
  version : committed.configVersion = snapshot.configVersion
  content : committed.contentJson = snapshot.contentJson

/-- The commit of a prepared row makes its version active. -/
theorem promote_active {snapshot committed : ConfigSnapshot} {row : SnapshotRow} (hs : s.Sound cfg)
    (hrow : row ∈ s.tables.snapshots) (hstate : row.state = .prepared)
    (hversion : row.version = snapshot.configVersion) (hdecode : decode cfg row = .ok committed)
    (hcontent : committed.contentJson = snapshot.contentJson) {drawn : ℕ}
    (hs' : Session.Sound cfg ⟨s.tables.promote row.version, drawn⟩) :
    Active cfg snapshot committed ⟨s.tables.promote row.version, drawn⟩ := by
  have hactive : (s.tables.promote row.version).activeVersion = row.version := rfl
  have hpositive : 0 < row.version := (hs.decodes row hrow).1
  refine ⟨hs', by rw [← hversion]; rfl, ?_, (decode_version hdecode).trans hversion, hcontent⟩
  rcases hs'.loadActive_returns with ⟨hzero, _⟩ | ⟨r, loaded, hr, hrv, _, hdecoded, hloads⟩
  · rw [hactive] at hzero
    omega
  · -- the active row is the promoted one
    obtain ⟨row', hrow', hsame, _⟩ := (hs.promote_grows hrow hstate).snapshots row hrow
    have hr' : r = row' :=
      hs'.versions.eq_of_key hr hrow' (hrv.trans (hactive.trans hsame.version.symm))
    rw [hr', decode_same cfg hsame, hdecode] at hdecoded
    cases hdecoded
    exact hloads

/-- What a commit of a prepared row did. -/
theorem committed_active {snapshot committed : ConfigSnapshot} {token : Option PyStr}
    (hs : s.Sound cfg) (hprepared : PreparedRow cfg s snapshot token)
    (h : Committed cfg s (token.getD []) committed s') (hs' : s'.Sound cfg) :
    Active cfg snapshot committed s' := by
  obtain ⟨row, hrow, htoken, hsome, hstate, hversion, saved, hsaved, hcontent⟩ := hprepared
  -- one row holds the token
  have hunique : ∀ r ∈ s.tables.snapshots, r.token = some (token.getD []) → r = row := by
    intro r hr hrt
    have hsame : r.token = row.token := by
      rw [hrt, htoken]
      cases token with
      | none => cases hsome
      | some k => rfl
    exact hs.distinct r hr row hrow hsame (by rw [hrt]; rfl)
  cases h with
  | @promotes r hr hrt _ hdecode hsame =>
      obtain rfl := hunique r hr hrt
      subst hsame
      rw [hsaved] at hdecode
      cases hdecode
      exact promote_active hs hrow hstate hversion hsaved hcontent hs'
  | @repeats r hr hrt hcommitted _ _ _ =>
      obtain rfl := hunique r hr hrt
      rw [hstate] at hcommitted
      cases hcommitted

/-- A commit makes the candidate's version active; one that raises did so, or
    left the active version. -/
theorem commit_spec {snapshot : ConfigSnapshot} {token : Option PyStr} (hs : s.Sound cfg)
    (hprepared : PreparedRow cfg s snapshot token) (fate : Fate) :
    wp (Config.commit cfg (token.getD []) fate)
      (fun committed s' => Active cfg snapshot committed s')
      (fun _ s' => SameActive cfg s s' ∨ ∃ committed, Active cfg snapshot committed s') s := by
  refine (transaction_spec hs (commitBody_spec hs _)).mono ?_ ?_
  · rintro committed s' ⟨_, hcommitted, hs', _⟩
    exact committed_active hs hprepared hcommitted hs'
  · rintro e s' ⟨_, hs', _, htables | ⟨_, committed, hcommitted⟩⟩
    · exact .inl (.of_tables hs' htables)
    · exact .inr ⟨committed, committed_active hs hprepared hcommitted hs'⟩

/-- A candidate that fails leaves the active version. -/
theorem fail_spec (hs : s.Sound cfg) (token : PyStr) (fate : Fate) :
    wp (Config.fail token fate) (fun _ s' => SameActive cfg s s') (fun _ _ => True) s := by
  refine (transaction_spec hs (failBody_spec hs token)).mono ?_ fun _ _ _ => trivial
  rintro _ s' ⟨_, ⟨row, _, _, _, hsame⟩, hs', hadvances⟩
  exact .of_grows hs hs' hadvances.grows (by rw [hsame]; rfl)

theorem readActive_spec (fate : Fate) :
    wp (readActive cfg fate) (fun r s' => s' = s ∧ loadActive cfg s.tables = .ok r)
      (fun _ s' => s' = s) s := by
  rw [readActive, wp_bind, wp_check]
  refine ⟨fun _ => ?_, fun _ => rfl⟩
  rw [wp_bind, wp_gets, wp_result]
  exact ⟨fun _ h => ⟨rfl, h⟩, fun _ _ => rfl⟩

end Store

/-! ## Awaits -/

section Awaits

omit [JsonSchema]

variable {α : Type} {a : Agent}

theorem suspended_eq (a : Agent) : ∃ closing state awaits,
    a.suspended inp = { a with closing := closing, state := state, awaits := awaits } ∧
      (state = .failed ↔ a.state = .failed) := by
  unfold Agent.suspended Agent.beginClose
  split
  · split
    · exact ⟨_, _, _, rfl, Iff.rfl⟩
    · refine ⟨_, _, _, rfl, ?_⟩
      split <;> simp [*]
  · exact ⟨_, _, _, rfl, Iff.rfl⟩

@[simp] theorem suspended_store : (a.suspended inp).store = a.store := by
  obtain ⟨_, _, _, h, _⟩ := suspended_eq a
  rw [h]

@[simp] theorem suspended_runtime : (a.suspended inp).runtime = a.runtime := by
  obtain ⟨_, _, _, h, _⟩ := suspended_eq a
  rw [h]

@[simp] theorem suspended_active : (a.suspended inp).active = a.active := by
  obtain ⟨_, _, _, h, _⟩ := suspended_eq a
  rw [h]

@[simp] theorem suspended_durable : (a.suspended inp).durableVersion = a.durableVersion := by
  obtain ⟨_, _, _, h, _⟩ := suspended_eq a
  rw [h]

@[simp] theorem suspended_worker : (a.suspended inp).worker = a.worker := by
  obtain ⟨_, _, _, h, _⟩ := suspended_eq a
  rw [h]

@[simp] theorem suspended_failed : (a.suspended inp).state = .failed ↔ a.state = .failed := by
  obtain ⟨_, _, _, h, hstate⟩ := suspended_eq a
  rw [h]
  exact hstate

/-- The agent was started and has not failed. -/
def LifecycleState.Alive (state : LifecycleState) : Prop := state ≠ .new ∧ state ≠ .failed

theorem LifecycleState.Alive.suspended (h : a.state.Alive) : (a.suspended inp).state.Alive := by
  refine ⟨?_, fun hf => h.2 (suspended_failed.mp hf)⟩
  unfold Agent.suspended Agent.beginClose
  split
  · split
    · exact h.1
    · dsimp only
      split <;> nofun
  · exact h.1

/-- A call of the store worker: the job's own outcome, a refusal, or a
    cancellation after the job. -/
theorem wp_call {x : Fate → Prog ConfigStore StoreExc α} {Q : α → Agent → Prop}
    {E : AgentExc → Agent → Prop}
    (hx : ∀ fate, wp (x fate) (fun b s => Q b { a.suspended inp with store := s })
      (fun e s => E (.store e) { a.suspended inp with store := s }) a.store)
    (hrefused : E .workerFull (a.suspended inp))
    (hcancelled : ∀ s, E .cancelled { a.suspended inp with store := s }) :
    wp (call inp x) Q E a := by
  rw [call, wp_bind, wp_gets, wp_bind, suspend, wp_modify]
  cases inp.storage a.awaits with
  | refused => exact hrefused
  | settles fate =>
      rw [wp_bind, job, wp_tried, wp_zoom, suspended_store]
      exact hx fate
  | cancelled fate =>
      rw [wp_bind, job, wp_tried, wp_zoom, suspended_store]
      exact (hx fate).mono (fun _ s _ => hcancelled s) fun _ s _ => hcancelled s

/-- A program of an open store. -/
theorem wp_using {x : Prog Session StoreExc α} {s : Session} {Q : α → ConfigStore → Prop}
    {E : StoreExc → ConfigStore → Prop}
    (h : wp x (fun b s' => Q b (.opened s')) (fun e s' => E e (.opened s')) s) :
    wp (ConfigStore.using x) Q E (.opened s) := by
  have hrun : ConfigStore.using x (.opened s) = ((x s).1, .opened (x s).2) := rfl
  unfold wp at h ⊢
  rw [hrun]
  rcases hx : x s with ⟨r, s'⟩
  rw [hx] at h
  cases r <;> exact h

/-- A synchronous call of the runtime. -/
theorem wp_onRuntime {x : RuntimeM Unit} {Q : Except RuntimeExc Unit → Agent → Prop}
    {E : AgentExc → Agent → Prop}
    (hx : wp x (fun _ r => Q (.ok ()) { a with runtime := r })
      (fun e r => Q (.error e) { a with runtime := r }) a.runtime) :
    wp (onRuntime x) Q E a := by
  rw [onRuntime, wp_tried, wp_zoom]
  exact hx

/-- An awaited call of the runtime. -/
theorem wp_awaitRuntime {x : RuntimeM Unit} {Q : Except RuntimeExc Unit → Agent → Prop}
    {E : AgentExc → Agent → Prop}
    (hx : wp x (fun _ r => Q (.ok ()) { a.suspended inp with runtime := r })
      (fun e r => e ≠ .runner .cancelled → Q (.error e) { a.suspended inp with runtime := r })
      a.runtime)
    (hcancelled : ∀ r, E .cancelled { a.suspended inp with runtime := r }) :
    wp (awaitRuntime inp x) Q E a := by
  rw [awaitRuntime, wp_bind, suspend, wp_modify, wp_bind]
  refine wp_onRuntime ?_
  rw [suspended_runtime]
  refine hx.mono (fun _ _ h => h) fun e r h => ?_
  by_cases he : e = .runner .cancelled
  · rw [he]
    exact hcancelled r
  · have hout : wp (pure (Except.error e) : AgentM (Except RuntimeExc Unit)) Q E
        { a.suspended inp with runtime := r } := h he
    rcases e with _ | _ | _ | _ | _ | _ | _ | e
    all_goals first | exact hout | skip
    cases e with
    | cancelled => exact absurd rfl he
    | failed | timedOut => exact hout

end Awaits

/-! ## The agreement -/

/-- The agreement between two items. -/
structure Settled (cfg : StoreConfig) (s : Session) (a : Agent) : Prop where
  opened : a.store = .opened s
  sound : s.Sound cfg
  loads : loadActive cfg s.tables = .ok a.active
  durable : a.durableVersion = some s.tables.activeVersion
  idle : Idle a.runtime
  alive : a.state.Alive
  worker : a.worker = true

/-- The visible state of `a₀` and its store `s₀`, in the course of an item. -/
structure Holding (cfg : StoreConfig) (s₀ : Session) (a₀ : Agent) (s : Session) (a : Agent) :
    Prop where
  opened : a.store = .opened s
  same : SameActive cfg s₀ s
  active : a.active = a₀.active
  durable : a.durableVersion = a₀.durableVersion
  alive : a.state.Alive
  worker : a.worker = true
  published : SamePublication a₀.runtime a.runtime

variable {s₀ s : Session} {a₀ a : Agent} {kind : ItemKind} {payload : Bytes}

theorem Settled.holding (h : Settled cfg s a) : Holding cfg s a s a where
  opened := h.opened
  same := .of_tables h.sound rfl
  active := rfl
  durable := rfl
  alive := h.alive
  worker := h.worker
  published := .refl _

/-- Nothing visible has changed, and the runtime is idle again. -/
theorem Holding.settled (h : Holding cfg s₀ a₀ s a) (h₀ : Settled cfg s₀ a₀) (hidle : Idle a.runtime) :
    Settled cfg s a where
  opened := h.opened
  sound := h.same.sound
  loads := by rw [h.same.loads, h.active]; exact h₀.loads
  durable := by rw [h.durable, h₀.durable, Tables.activeVersion, Tables.activeVersion, h.same.pointer]
  idle := hidle
  alive := h.alive
  worker := h.worker

/-- An await of the runtime that publishes nothing. -/
theorem Holding.awaited (h : Holding cfg s₀ a₀ s a) {r : DeviceRuntime}
    (hpublished : SamePublication a.runtime r) :
    Holding cfg s₀ a₀ s { a.suspended inp with runtime := r } where
  opened := suspended_store.trans h.opened
  same := h.same
  active := suspended_active.trans h.active
  durable := suspended_durable.trans h.durable
  alive := h.alive.suspended
  worker := suspended_worker.trans h.worker
  published := h.published.trans _ _ _ hpublished

theorem Holding.suspended (h : Holding cfg s₀ a₀ s a) : Holding cfg s₀ a₀ s (a.suspended inp) := by
  have hawaited : Holding cfg s₀ a₀ s { a.suspended inp with runtime := a.runtime } :=
    h.awaited (.refl _)
  rwa [← suspended_runtime] at hawaited

omit [JsonSchema] in
theorem idle_suspended (h : Idle a.runtime) : Idle (a.suspended inp).runtime := by
  rw [suspended_runtime]
  exact h

/-- An await and a job of the store that leaves the active version. -/
theorem Holding.next (h : Holding cfg s₀ a₀ s a) {s' : Session} (hs : SameActive cfg s s') :
    Holding cfg s₀ a₀ s' { a.suspended inp with store := .opened s' } where
  opened := rfl
  same := h.same.trans hs
  active := suspended_active.trans h.active
  durable := suspended_durable.trans h.durable
  alive := h.alive.suspended
  worker := suspended_worker.trans h.worker
  published := by
    show SamePublication a₀.runtime (a.suspended inp).runtime
    rw [suspended_runtime]
    exact h.published

/-- What a request leaves alone when it is not applied. -/
structure Unchanged (s₀ : Session) (a₀ : Agent) (s : Session) (a : Agent) : Prop where
  pointer : s.tables.active = s₀.tables.active
  durable : a.durableVersion = a₀.durableVersion
  published : SamePublication a₀.runtime a.runtime

/-- The requested snapshot is active in the database, published, and reported. -/
structure AppliedNow (cfg : StoreConfig) (snapshot : ConfigSnapshot) (s : Session) (a : Agent) :
    Prop where
  pointer : s.tables.active = some snapshot.configVersion
  durable : a.durableVersion = some snapshot.configVersion
  published : a.runtime.snapshot = some snapshot
  content : ∃ committed, a.active = some committed ∧
    committed.configVersion = snapshot.configVersion ∧ committed.contentJson = snapshot.contentJson

/-- How the processing of an item ends. -/
inductive Ends (cfg : StoreConfig) (kind : ItemKind) (payload : Bytes) (s₀ : Session) (a₀ : Agent)
    (r : ApplyResult) (a : Agent) : Prop where
  | fatal (hstatus : r.status = .failed) (hstate : a.state = .failed)
  | kept {s : Session} (hsettled : Settled cfg s a) (hunchanged : Unchanged s₀ a₀ s a)
      (hreplay : r.status = .applied → ∃ version, RequestedVersion cfg kind payload version ∧
        Commits s₀.tables version)
  | applied {s : Session} {snapshot : ConfigSnapshot} (hstatus : r.status = .applied)
      (hrequested : Requested cfg s₀.tables kind payload snapshot)
      (hversion : RequestedVersion cfg kind payload snapshot.configVersion)
      (hsettled : Settled cfg s a) (happlied : AppliedNow cfg snapshot s a)

omit [JsonSchema] in
theorem steady_eq (h : a.state.Alive) : ∃ state, a.steady = { a with state } ∧ state.Alive := by
  unfold Agent.steady
  rw [if_neg h.2]
  split
  · exact ⟨_, rfl, nofun, nofun⟩
  · split
    · exact ⟨_, rfl, nofun, nofun⟩
    · refine ⟨_, rfl, ?_⟩
      split <;> exact ⟨nofun, nofun⟩

theorem Settled.steady (h : Settled cfg s a) : Settled cfg s a.steady := by
  obtain ⟨state, heq, hstate⟩ := steady_eq h.alive
  rw [heq]
  exact { h with alive := hstate }

omit [JsonSchema] in
@[simp] theorem steadyResult_wp {status : ApplyStatus} {code : Option PyStr} {issues : List Issue}
    {applied : Option ℤ} {Q : ApplyResult → Agent → Prop} {E : AgentExc → Agent → Prop} :
    wp (steadyResult status code issues applied) Q E a ↔
      Q (a.steady.resultOf status code issues applied) a.steady := Iff.rfl

/-- A result with nothing changed. -/
theorem Holding.ends (h : Holding cfg s₀ a₀ s a) (h₀ : Settled cfg s₀ a₀) (hidle : Idle a.runtime)
    {status : ApplyStatus} {code : Option PyStr} {issues : List Issue} {applied : Option ℤ}
    (hreplay : status = .applied → ∃ version, RequestedVersion cfg kind payload version ∧
      Commits s₀.tables version) :
    wp (steadyResult status code issues applied) (Ends cfg kind payload s₀ a₀) (fun _ _ => True) a := by
  rw [steadyResult_wp]
  obtain ⟨state, heq, _⟩ := steady_eq h.alive
  refine .kept (h.settled h₀ hidle).steady ?_ hreplay
  rw [heq]
  exact ⟨h.same.pointer, h.durable, h.published⟩

/-! ## Failures -/

omit [JsonSchema] in
/-- A fatal error leaves the agent failed, also when the shutdown is cancelled. -/
theorem fatal_spec (code : String) :
    wp (fatal inp code) (fun _ a' => a'.state = .failed ∧ a'.worker = a.worker)
      (fun _ a' => a'.state = .failed ∧ a'.worker = a.worker) a := by
  rw [fatal, wp_bind, wp_modify, wp_bind]
  have hdown : (Agent.suspended inp { a with state := .failed, lastError := some (py code) }).state =
      .failed ∧ (Agent.suspended inp { a with state := .failed, lastError := some (py code) }).worker =
      a.worker := ⟨suspended_failed.mpr rfl, suspended_worker⟩
  exact wp_awaitRuntime (wp_of_forall (fun _ _ => hdown) fun _ _ _ => hdown) fun _ => hdown

omit [JsonSchema] in
theorem fatalResult_state (fatalCode code : String) :
    wp (fatalResult inp fatalCode code) (fun r a' => r.status = .failed ∧ a'.state = .failed)
      (fun _ a' => a'.state = .failed) a := by
  rw [fatalResult, wp_bind]
  exact (fatal_spec fatalCode).mono (fun _ _ h => ⟨rfl, h.1⟩) fun _ _ h => h.1

/-- A fatal end. -/
theorem fatalResult_ends (fatalCode code : String) :
    wp (fatalResult inp fatalCode code) (Ends cfg kind payload s₀ a₀) (fun _ _ => True) a :=
  (fatalResult_state fatalCode code).mono (fun _ _ h => .fatal h.1 h.2) fun _ _ _ => trivial

/-- `fail` on the store: the visible state stays, or the call raised. -/
theorem callFail_spec (h : Holding cfg s₀ a₀ s a) (token : Option PyStr)
    {Q : Except AgentExc Unit → Agent → Prop} {E : AgentExc → Agent → Prop}
    (hok : ∀ s' a', Holding cfg s₀ a₀ s' a' → a'.runtime = a.runtime → Q (.ok ()) a')
    (herror : ∀ e a', Q (.error e) a') : wp (tried (callFail inp token)) Q E a := by
  rw [wp_tried, callFail]
  refine wp_call (fun fate => ?_) (herror _ _) fun _ => herror _ _
  rw [h.opened]
  refine wp_using ((fail_spec h.same.sound _ fate).mono (fun _ s' hs' => ?_) fun _ _ _ => herror _ _)
  exact hok s' _ (h.next hs') suspended_runtime

/-- The end of an item after its candidate was given up. -/
theorem failed_ends (h : Holding cfg s₀ a₀ s a) (h₀ : Settled cfg s₀ a₀) (hidle : Idle a.runtime)
    (token : Option PyStr) {x : Except AgentExc Unit → AgentM ApplyResult}
    (hok : ∃ status code, status ≠ .applied ∧ x (.ok ()) = steadyResult status code [] none)
    (herror : ∀ e a', wp (x (.error e)) (Ends cfg kind payload s₀ a₀) (fun _ _ => True) a') :
    wp (tried (callFail inp token) >>= x) (Ends cfg kind payload s₀ a₀) (fun _ _ => True) a := by
  rw [wp_bind]
  refine callFail_spec h token (fun s' a' h' hruntime => ?_) herror
  obtain ⟨status, code, hstatus, hx⟩ := hok
  rw [hx]
  exact h'.ends h₀ (hruntime ▸ hidle) fun happlied => absurd happlied hstatus

/-- `_restore`: the rollback brings the visible state back, or the end is fatal. -/
theorem restore_ends {t : RuntimeTransition} (h : Holding cfg s₀ a₀ s a) (h₀ : Settled cfg s₀ a₀)
    (hswitching : Switching t a.runtime) (token : Option PyStr) (code : String) :
    wp (restore inp token code) (Ends cfg kind payload s₀ a₀) (fun _ _ => True) a := by
  rw [restore, wp_bind]
  refine wp_awaitRuntime ?_ fun _ => trivial
  refine ((wp_rollback hswitching).and (rollback_published a.runtime)).mono ?_ ?_
  · rintro _ r ⟨⟨⟨hidle, _⟩, _⟩, hpublished⟩
    refine failed_ends (h.awaited hpublished) h₀ hidle token ⟨.failed, some (py code), nofun, rfl⟩ fun e a' => ?_
    cases e with
    | cancelled => exact trivial
    | workerFull | store | config | runtime | lifecycle => exact fatalResult_ends _ _
  · rintro e r _ _
    rw [wp_bind, wp_tried]
    refine wp_of_forall (fun _ _ => fatalResult_ends _ _) fun e a' => ?_
    cases e with
    | cancelled => exact trivial
    | workerFull | store | config | runtime | lifecycle => exact fatalResult_ends _ _

theorem preflightFailed_ends (h : Holding cfg s₀ a₀ s a) (h₀ : Settled cfg s₀ a₀)
    (hidle : Idle a.runtime) (token : Option PyStr) (e : RuntimeExc) :
    wp (preflightFailed inp token e) (Ends cfg kind payload s₀ a₀) (fun _ _ => True) a := by
  refine failed_ends h h₀ hidle token ⟨.rejected, _, nofun, rfl⟩ fun e a' => ?_
  cases e with
  | cancelled => exact trivial
  | workerFull | store | config | runtime | lifecycle => exact fatalResult_ends _ _

/-! ## A candidate -/

section Candidates

variable {snapshot : ConfigSnapshot} {t : RuntimeTransition} {token : Option PyStr}

/-- Publishing after the commit ends with the requested version applied. -/
theorem publishCommitted_ends {committed : ConfigSnapshot} (hopened : a.store = .opened s)
    (hactive : Active cfg snapshot committed s) (hswitched : Switched t a.runtime)
    (ht : t.snapshot = snapshot) (halive : a.state.Alive) (hworker : a.worker = true)
    (hrequested : Requested cfg s₀.tables kind payload snapshot)
    (hversion : RequestedVersion cfg kind payload snapshot.configVersion) :
    wp (publishCommitted inp kind committed) (Ends cfg kind payload s₀ a₀) (fun _ _ => True) a := by
  rw [publishCommitted, wp_bind, wp_modify, wp_bind]
  refine wp_onRuntime ((wp_publish hswitched).mono ?_ fun _ _ h => h.elim)
  rintro _ r ⟨hidle, _, hpublished, _⟩
  rw [wp_bind, wp_modify, steadyResult_wp]
  have hsettled : Settled cfg s { a with durableVersion := some committed.configVersion,
                                         runtime := r, active := some committed } :=
    { opened := hopened, sound := hactive.sound, loads := hactive.loads, idle := hidle,
      alive := halive, worker := hworker,
      durable := by rw [Tables.activeVersion, hactive.pointer, hactive.version]; rfl }
  obtain ⟨state, heq, _⟩ := steady_eq hsettled.alive
  refine .applied rfl hrequested hversion hsettled.steady ?_
  rw [heq]
  exact ⟨hactive.pointer, congrArg some hactive.version, ht ▸ hpublished, committed, rfl,
    hactive.version, hactive.content⟩

/-- The commit raised and did not take effect. -/
theorem commitMissing_ends (h : Holding cfg s₀ a₀ s a) (h₀ : Settled cfg s₀ a₀)
    (hswitching : Switching t a.runtime) (committed : Option ConfigSnapshot) :
    wp (commitMissing inp token committed) (Ends cfg kind payload s₀ a₀) (fun _ _ => True) a := by
  rw [commitMissing, wp_bind, wp_get, wp_ite]
  refine ⟨fun _ => restore_ends h h₀ hswitching _ _, fun _ => ?_⟩
  rw [wp_bind, wp_modify]
  exact fatalResult_ends _ _

/-- After a commit that raised, the candidate is active or nothing has
    changed. -/
theorem commitRaised_ends (h₀ : Settled cfg s₀ a₀) (hopened : a.store = .opened s)
    (hswitched : Switched t a.runtime) (ht : t.snapshot = snapshot) (halive : a.state.Alive)
    (hworker : a.worker = true)
    (hcases : Holding cfg s₀ a₀ s a ∨ ∃ committed, Active cfg snapshot committed s)
    (hrequested : Requested cfg s₀.tables kind payload snapshot)
    (hversion : RequestedVersion cfg kind payload snapshot.configVersion)
    (hnewer : s₀.tables.activeVersion < snapshot.configVersion) :
    wp (commitRaised inp cfg kind snapshot token) (Ends cfg kind payload s₀ a₀)
      (fun _ _ => True) a := by
  have hfatal : ∀ a', wp (do
      modify fun a => { a with durableVersion := none }
      fatalResult inp "COMMIT_OUTCOME_UNKNOWN" "COMMIT_OUTCOME_UNKNOWN")
      (Ends cfg kind payload s₀ a₀) (fun _ _ => True) a' := by
    intro a'
    rw [wp_bind, wp_modify]
    exact fatalResult_ends _ _
  rw [commitRaised, wp_bind, wp_tried, callLoadActive]
  refine wp_call (fun fate => ?_) (hfatal _) fun _ => trivial
  rw [hopened]
  refine wp_using ((readActive_spec fate).mono ?_ fun _ _ _ => hfatal _)
  rintro loaded s' ⟨rfl, hloads⟩
  have hswitched' : Switched t { a.suspended inp with store := .opened s' }.runtime := by
    show Switched t (a.suspended inp).runtime
    rw [suspended_runtime]
    exact hswitched
  rcases hcases with h | ⟨committed, hactive⟩
  · -- the active snapshot is the old one
    have hnext : Holding cfg s₀ a₀ s' { a.suspended inp with store := .opened s' } :=
      h.next (.of_tables h.same.sound rfl)
    have hmissing := fun loaded =>
      @commitMissing_ends _ inp cfg s₀ s' a₀ _ kind payload t token hnext h₀ hswitched'.toSwitching
        loaded
    cases loaded with
    | none => exact hmissing none
    | some committed =>
        refine (wp_ite _ _ _).mpr ⟨fun hmatch => ?_, fun _ => hmissing _⟩
        -- its version is older than the candidate's
        have hold : committed.configVersion = s₀.tables.activeVersion := by
          rw [h.same.loads] at hloads
          rcases h₀.sound.loadActive_returns with ⟨_, hnone⟩ | ⟨row, saved, _, hv, _, hdecode, hsome⟩
          · rw [hnone] at hloads
            cases hloads
          · rw [hsome] at hloads
            cases hloads
            exact (decode_version hdecode).trans hv
        rw [hmatch.1] at hold
        exact absurd hold (ne_of_gt hnewer)
  · rw [hactive.loads] at hloads
    cases hloads
    refine (wp_ite _ _ _).mpr ⟨fun _ => ?_, fun hne => absurd ⟨hactive.version, hactive.content⟩ hne⟩
    exact publishCommitted_ends rfl hactive hswitched' ht halive.suspended
      (suspended_worker.trans hworker) hrequested hversion

/-- The commit of an activated candidate ends in one of the three ways. -/
theorem commitCandidate_ends (h : Holding cfg s₀ a₀ s a) (h₀ : Settled cfg s₀ a₀)
    (hswitched : Switched t a.runtime) (ht : t.snapshot = snapshot)
    (hprepared : PreparedRow cfg s snapshot token)
    (hrequested : Requested cfg s₀.tables kind payload snapshot)
    (hversion : RequestedVersion cfg kind payload snapshot.configVersion)
    (hnewer : s₀.tables.activeVersion < snapshot.configVersion) :
    wp (commitCandidate inp cfg kind snapshot token) (Ends cfg kind payload s₀ a₀)
      (fun _ _ => True) a := by
  have halive : (a.suspended inp).state.Alive := h.alive.suspended
  have hworker : (a.suspended inp).worker = true := suspended_worker.trans h.worker
  have hruntime : Switched t (a.suspended inp).runtime := by
    rw [suspended_runtime]
    exact hswitched
  rw [commitCandidate, wp_bind, wp_tried, callCommit]
  refine wp_call (fun fate => ?_) ?_ fun _ => trivial
  · rw [h.opened]
    refine wp_using ((commit_spec h.same.sound hprepared fate).mono ?_ ?_)
    · rintro committed s' hactive
      exact publishCommitted_ends rfl hactive hruntime ht halive hworker hrequested hversion
    · rintro e s' hcases
      exact commitRaised_ends h₀ rfl hruntime ht halive hworker (hcases.imp_left h.next) hrequested
        hversion hnewer
  · -- the worker refused the call
    have hnext : Holding cfg s₀ a₀ s { a.suspended inp with store := .opened s } :=
      h.next (SameActive.of_tables h.same.sound rfl)
    have hsame : { a.suspended inp with store := .opened s } = a.suspended inp := by
      rw [← h.opened, ← suspended_store]
    rw [hsame] at hnext
    exact commitRaised_ends h₀ hnext.opened hruntime ht halive hworker (.inl hnext) hrequested
      hversion hnewer

/-- A prepared candidate. -/
theorem applyCandidate_ends (h : Holding cfg s₀ a₀ s a) (h₀ : Settled cfg s₀ a₀)
    (hidle : Idle a.runtime) (hprepared : PreparedRow cfg s snapshot token)
    (hrequested : Requested cfg s₀.tables kind payload snapshot)
    (hversion : RequestedVersion cfg kind payload snapshot.configVersion)
    (hnewer : s₀.tables.activeVersion < snapshot.configVersion) :
    wp (applyCandidate inp cfg kind snapshot token) (Ends cfg kind payload s₀ a₀)
      (fun _ _ => True) a := by
  rw [applyCandidate, wp_bind]
  refine wp_onRuntime (((wp_prepare hidle snapshot).and (prepare_published snapshot a.runtime)).mono
    ?_ ?_)
  · rintro _ r ⟨⟨t, hswitching, hstopped, hstarted, ht⟩, hpublished⟩
    have hnext : Holding cfg s₀ a₀ s { a with runtime := r } :=
      { h with published := h.published.trans _ _ _ hpublished }
    rw [wp_bind]
    refine wp_awaitRuntime ?_ fun _ => trivial
    refine ((wp_activate hswitching hstopped hstarted).and (activate_published r)).mono ?_ ?_
    · rintro _ r' ⟨hswitched, hpublished'⟩
      exact commitCandidate_ends (hnext.awaited hpublished') h₀ hswitched ht hprepared hrequested hversion hnewer
    · rintro e r' ⟨⟨stopped, started, hbroken⟩, hpublished'⟩ _
      exact restore_ends (hnext.awaited hpublished') h₀ hbroken _ _
  · rintro e r ⟨⟨hidle', _⟩, hpublished⟩
    have hnext : Holding cfg s₀ a₀ s { a with runtime := r } :=
      { h with published := h.published.trans _ _ _ hpublished }
    exact preflightFailed_ends hnext h₀ hidle' _ _

end Candidates

/-! ## An item -/

theorem applyPrepared_ends {prepared : PrepareResult} (h : Holding cfg s₀ a₀ s a)
    (h₀ : Settled cfg s₀ a₀) (hidle : Idle a.runtime) (hanswer : Answer cfg kind payload s₀ prepared s) :
    wp (applyPrepared inp cfg kind payload prepared) (Ends cfg kind payload s₀ a₀)
      (fun _ _ => True) a := by
  unfold applyPrepared
  cases hanswer with
  | refused hstatus =>
      rw [hstatus]
      exact h.ends h₀ hidle nofun
  | applied hstatus hversion hcommits =>
      rw [hstatus]
      show wp (alreadyApplied inp prepared) _ _ a
      rw [alreadyApplied, wp_bind, wp_get, wp_ite]
      exact ⟨fun _ => fatalResult_ends _ _,
        fun _ => h.ends h₀ hidle fun _ => ⟨_, hversion, hcommits⟩⟩
  | @prepared hstatus snapshot hrequested hversion hnewer hsnapshot hcandidate =>
      rw [hstatus]
      cases kind with
      | configPatch =>
          rw [hsnapshot rfl]
          exact applyCandidate_ends h h₀ hidle hcandidate hrequested hversion hnewer
      | configSet =>
          show wp (callParse inp cfg payload >>= _) _ _ a
          -- the second reading of the payload gives the same snapshot
          have hparse : ConfigSnapshot.parse payload cfg.gatewayId = .ok snapshot := hrequested
          rw [callParse, wp_bind, wp_bind, wp_gets, wp_bind, suspend, wp_modify]
          cases inp.storage a.awaits with
          | refused => exact trivial
          | cancelled fate => exact trivial
          | settles fate =>
              rw [hparse]
              exact applyCandidate_ends h.suspended h₀ (idle_suspended hidle) hcandidate hrequested
                hversion hnewer

theorem storeFailed_ends (h : Holding cfg s₀ a₀ s a) (h₀ : Settled cfg s₀ a₀)
    (hidle : Idle a.runtime) (e : StoreExc) :
    wp (storeFailed inp e) (Ends cfg kind payload s₀ a₀) (fun _ _ => True) a := by
  cases e with
  | format m => exact fatalResult_ends _ _
  | storeError | identity | invalidCandidate => exact h.ends h₀ hidle nofun
  | inUse | sqlite | attributeError | python => exact trivial

/-- `_apply` from the agreement. -/
theorem apply_ends (h : Holding cfg s₀ a₀ s₀ a) (h₀ : Settled cfg s₀ a₀) (hidle : Idle a.runtime) :
    wp (apply inp cfg kind payload) (Ends cfg kind payload s₀ a₀) (fun _ _ => True) a := by
  rw [apply, wp_bind, wp_modify, wp_bind, wp_tried]
  have hheld : Holding cfg s₀ a₀ s₀
      { a with state := if a.closing then .stopping else .applying } :=
    { h with alive := by dsimp only; split <;> exact ⟨nofun, nofun⟩ }
  have hidle' : Idle { a with state := if a.closing then .stopping else .applying }.runtime := hidle
  generalize { a with state := if a.closing then .stopping else .applying } = b at hheld hidle' ⊢
  refine wp_call (fun fate => ?_) trivial fun _ => trivial
  rw [hheld.opened]
  refine wp_using ((prepareItem_spec h₀.sound fate).mono ?_ ?_)
  · rintro prepared s ⟨hanswer, hsame⟩
    exact applyPrepared_ends (hheld.next hsame) h₀ (idle_suspended hidle') hanswer
  · rintro e s hsame
    exact storeFailed_ends (hheld.next hsame) h₀ (idle_suspended hidle') e

/-- The coordinator answers every exception with a fatal end. -/
theorem serve_ends (h : Holding cfg s₀ a₀ s₀ a) (h₀ : Settled cfg s₀ a₀) (hidle : Idle a.runtime) :
    wp (serve inp cfg kind payload) (Ends cfg kind payload s₀ a₀)
      (fun _ a' => a'.state = .failed) a := by
  rw [serve, wp_bind, wp_tried]
  refine (apply_ends h h₀ hidle).mono (fun _ _ hends => hends) fun e a' _ => ?_
  have hfatal : ∀ {a'} (fatalCode code : String), wp (fatalResult inp fatalCode code)
      (Ends cfg kind payload s₀ a₀) (fun _ a' => a'.state = .failed) a' :=
    fun _ _ => (fatalResult_state _ _).mono (fun _ _ h => .fatal h.1 h.2) fun _ _ h => h
  cases e with
  | cancelled =>
      rw [wp_bind, wp_modify]
      exact hfatal _ _
  | workerFull | store | config | runtime | lifecycle => exact hfatal _ _

/-- An item that the coordinator takes. -/
theorem process_ends (h₀ : Settled cfg s₀ a₀) :
    wp (process inp cfg kind payload)
      (fun r a => Ends cfg kind payload s₀ a₀ r a ∧ (a.state = .failed → a.worker = false))
      (fun _ a => a.state = .failed ∧ a.worker = false) a₀ := by
  rw [process, wp_bind, wp_get, if_neg (by rw [h₀.worker]; nofun), wp_bind, suspend, wp_modify,
    wp_bind, wp_tried]
  refine (serve_ends h₀.holding.suspended h₀ (idle_suspended h₀.idle)).mono ?_ ?_
  · rintro r a hends
    rw [wp_bind, wp_modify, wp_result_ok]
    refine ⟨?_, fun hf => decide_eq_false (not_not.mpr hf)⟩
    -- the worker goes on exactly when the agent has not failed
    cases hends with
    | fatal hstatus hstate => exact .fatal hstatus hstate
    | kept hsettled hunchanged hreplay =>
        refine .kept { hsettled with worker := decide_eq_true hsettled.alive.2 } ?_ hreplay
        exact { hunchanged with }
    | applied hstatus hrequested hversion hsettled happlied =>
        refine .applied hstatus hrequested hversion
          { hsettled with worker := decide_eq_true hsettled.alive.2 } ?_
        exact { happlied with }
  · rintro e a hf
    rw [wp_bind, wp_modify, wp_result_error]
    exact ⟨hf, decide_eq_false (not_not.mpr hf)⟩

/-! ## Start -/

/-- The part of a new agent that its startup relies on. -/
structure Starting (a : Agent) : Prop where
  none : a.active = none
  worker : a.worker = false
  idle : Idle a.runtime
  alive : a.state.Alive

omit [JsonSchema] in
theorem Starting.next (h : Starting a) (store : ConfigStore) :
    Starting { a.suspended inp with store } where
  none := suspended_active.trans h.none
  worker := suspended_worker.trans h.worker
  idle := idle_suspended h.idle
  alive := h.alive.suspended

/-- The agreement, but for the task that is yet to be created. -/
def Startable (cfg : StoreConfig) (a : Agent) : Prop :=
  ∃ s, Settled cfg s { a with worker := true }

theorem Startable.steady (h : Startable cfg a) : Startable cfg a.steady := by
  obtain ⟨s, hs⟩ := h
  have hcomm : { a.steady with worker := true } = ({ a with worker := true } : Agent).steady := by
    obtain ⟨store, runtime, state, lastError, active, durable, closing, failed, worker, awaits⟩ := a
    by_cases hf : state = .failed
    · simp [Agent.steady, hf]
    · cases closing with
      | true => simp [Agent.steady, hf]
      | false => cases active <;> simp [Agent.steady, hf]
  exact ⟨s, hcomm ▸ hs.steady⟩

/-- The runtime of the stored configuration. -/
theorem activateStored_startable {active : Option ConfigSnapshot} (h : Starting a)
    (hopened : a.store = .opened s) (hsound : s.Sound cfg)
    (hloads : loadActive cfg s.tables = .ok active)
    (hdurable : a.durableVersion = some s.tables.activeVersion) :
    wp (activateStored inp active) (fun _ a' => Startable cfg a') (fun _ a' => a'.worker = false)
      a := by
  cases active with
  | none =>
      exact ⟨s, { opened := hopened, sound := hsound, loads := h.none ▸ hloads,
                  durable := hdurable, idle := h.idle, alive := h.alive, worker := rfl }⟩
  | some active =>
      have hworker : ∀ r, (Agent.suspended inp { a with runtime := r }).worker = false :=
        fun _ => suspended_worker.trans h.worker
      rw [activateStored, wp_bind]
      refine wp_onRuntime ((wp_prepare h.idle active).mono ?_ fun _ _ _ => h.worker)
      rintro _ r ⟨t, hswitching, hstopped, hstarted, ht⟩
      rw [wp_bind]
      refine wp_awaitRuntime ?_ fun _ => hworker r
      refine (wp_activate hswitching hstopped hstarted).mono ?_ fun _ _ _ _ => hworker r
      intro _ r' hswitched
      rw [wp_bind]
      refine wp_onRuntime ((wp_publish hswitched).mono ?_ fun _ _ h => h.elim)
      rintro _ r'' ⟨hidle, _⟩
      rw [wp_modify]
      have halive : (Agent.suspended inp { a with runtime := r }).state.Alive :=
        LifecycleState.Alive.suspended (a := { a with runtime := r }) h.alive
      exact ⟨s, { opened := suspended_store.trans hopened, sound := hsound, loads := hloads,
                  durable := suspended_durable.trans hdurable, idle := hidle,
                  alive := halive, worker := rfl }⟩

/-- The version of the active snapshot is the active version. -/
theorem loaded_version {active : Option ConfigSnapshot} (hs : s.Sound cfg)
    (hloads : loadActive cfg s.tables = .ok active) :
    (active.map (·.configVersion)).getD 0 = s.tables.activeVersion := by
  rcases hs.loadActive_returns with ⟨hzero, hnone⟩ | ⟨row, saved, _, hv, _, hdecode, hsome⟩
  · rw [hnone] at hloads
    cases hloads
    exact hzero.symm
  · rw [hsome] at hloads
    cases hloads
    exact (decode_version hdecode).trans hv

/-- A startup that returns establishes the agreement; one that raises created
    no task. -/
theorem startup_settled (h : Starting a) (hsound : a.store.Sound cfg) :
    wp (startup inp cfg) (fun _ a' => ∃ s, Settled cfg s a') (fun _ a' => a'.worker = false) a := by
  have hworker : (a.suspended inp).worker = false := suspended_worker.trans h.worker
  rw [startup, wp_bind]
  refine wp_call (fun fate => ?_) hworker fun _ => hworker
  refine (open_spec hsound fate).mono ?_ fun _ _ _ => hworker
  rintro _ store ⟨hstore, _, file, drawn, _, rfl⟩
  have hs : Session.Sound cfg ⟨recovered cfg file, drawn⟩ := hstore.session rfl
  have hb : Starting { a.suspended inp with store := .opened ⟨recovered cfg file, drawn⟩ } :=
    h.next _
  have hopened : Agent.store { a.suspended inp with store := .opened ⟨recovered cfg file, drawn⟩ } =
      .opened ⟨recovered cfg file, drawn⟩ := rfl
  generalize { a.suspended inp with store := .opened ⟨recovered cfg file, drawn⟩ } = b at hb hopened ⊢
  have hworker' : (b.suspended inp).worker = false := suspended_worker.trans hb.worker
  rw [wp_bind, callLoadActive]
  refine wp_call (fun fate => ?_) hworker' fun _ => hworker'
  rw [hopened]
  refine wp_using ((readActive_spec fate).mono ?_ fun _ _ _ => hworker')
  rintro active s ⟨rfl, hloads⟩
  rw [wp_bind, wp_modify, wp_bind]
  have hc : Starting { b.suspended inp with
      store := .opened ⟨recovered cfg file, drawn⟩,
      durableVersion := some ((active.map (·.configVersion)).getD 0) } :=
    { hb.next (.opened ⟨recovered cfg file, drawn⟩) with }
  refine (activateStored_startable hc rfl hs hloads (congrArg some (loaded_version hs hloads))).mono
    ?_ fun _ _ h => h
  intro _ a' ha'
  rw [wp_modify]
  exact ha'.steady

/-! ## Runs -/

inductive AgentCall where
  | start
  | item (kind : ItemKind) (payload : Bytes)

inductive AgentAnswer where
  | started
  | result (r : ApplyResult)

/-- The program of a call. -/
def AgentCall.exec (inp : AgentInputs) (cfg : StoreConfig) : AgentCall → AgentM AgentAnswer
  | .start => do
    Core.start inp cfg
    return .started
  | .item kind payload => do return .result (← process inp cfg kind payload)

abbrev AgentStep := Step AgentCall Agent AgentExc AgentAnswer

/-- An agent that was not started. -/
def Agent.created (store : ConfigStore) (boot : ProcessBootContext) : Agent :=
  { store, runtime := { boot } }

/-- The version that is active in the database. -/
def Agent.databaseVersion (a : Agent) : Option ℤ := a.store.file.bind (·.active)

/-- The states in which the agent takes configurations. -/
def LifecycleState.serves (state : LifecycleState) : Bool :=
  state = .waitingConfig || state = .running || state = .disabled

/-- What holds of an agent between two calls. -/
inductive Standing (cfg : StoreConfig) (a : Agent) : Prop where
  | created (hstate : a.state = .new) (hworker : a.worker = false) (hsound : a.store.Sound cfg)
      (hnone : a.active = none) (hidle : Idle a.runtime)
  | settled {s : Session} (h : Settled cfg s a)
  | down (hstate : a.state = .failed) (hworker : a.worker = false)

theorem Standing.reported (h : Standing cfg a) (hserves : a.state.serves = true) :
    a.durableVersion = some (a.databaseVersion.getD 0) := by
  cases h with
  | created hstate =>
      rw [hstate] at hserves
      cases hserves
  | @settled s h =>
      rw [h.durable, Agent.databaseVersion, h.opened]
      rfl
  | down hstate =>
      rw [hstate] at hserves
      cases hserves

/-- The requested version was not committed before: applying it is new. -/
def NewVersion (cfg : StoreConfig) (a : Agent) (kind : ItemKind) (payload : Bytes) : Prop :=
  ∀ t, a.store.file = some t → ∀ version, RequestedVersion cfg kind payload version →
    ¬ Commits t version

/-- Database, runtime and reported version in one step. -/
structure ConsistentStep (cfg : StoreConfig) (st : AgentStep) : Prop where
  /-- A result APPLIED of a new version: the database has it, the runtime
      publishes it. -/
  applied : ∀ kind payload r, st.call = .item kind payload → st.result = .ok (.result r) →
    r.status = .applied → NewVersion cfg st.before kind payload → ∃ t snapshot,
      st.before.store.file = some t ∧ Requested cfg t kind payload snapshot ∧
      st.after.databaseVersion = some snapshot.configVersion ∧
      st.after.runtime.snapshot = some snapshot
  /-- A result REJECTED or FAILED of an agent that goes on: nothing changed. -/
  refused : ∀ kind payload r, st.call = .item kind payload → st.result = .ok (.result r) →
    r.status ≠ .applied → st.after.state ≠ .failed →
      st.after.databaseVersion = st.before.databaseVersion ∧
      st.after.durableVersion = st.before.durableVersion ∧
      st.after.runtime.snapshot = st.before.runtime.snapshot ∧
      st.after.runtime.runners = st.before.runtime.runners
  /-- An agent that takes configurations reports the version of the database. -/
  reported : st.after.state.serves = true →
    st.after.durableVersion = some (st.after.databaseVersion.getD 0)

/-- `start` leads to the agreement, or to an agent that is down. -/
theorem start_standing (h : Standing cfg a) :
    wp (start inp cfg) (fun _ a' => Standing cfg a') (fun _ a' => Standing cfg a') a := by
  rw [start, wp_bind, wp_get, wp_bind, wp_check]
  refine ⟨fun hnew => ?_, fun _ => h⟩
  cases h with
  | created _ hworker hsound hnone hidle =>
      rw [wp_bind, wp_modify, wp_bind, wp_tried]
      have hstarting : Starting { a with state := .starting } := ⟨hnone, hworker, hidle, nofun, nofun⟩
      refine (startup_settled hstarting hsound).mono ?_ ?_
      · rintro _ a' ⟨s, hs⟩
        exact .settled hs
      · intro e a' hworker'
        rw [wp_bind]
        refine (fatal_spec _).mono ?_ ?_
        · rintro _ a'' ⟨hstate, hworker''⟩
          exact .down hstate (hworker''.trans hworker')
        · rintro _ a'' ⟨hstate, hworker''⟩
          exact .down hstate (hworker''.trans hworker')
  | settled hs => exact absurd hnew.1 hs.alive.1
  | down hstate _ =>
      rw [hstate] at hnew
      cases hnew.1

/-- An agent without a coordinator answers and changes nothing. -/
theorem process_idle (h : a.worker = false) :
    wp (process inp cfg kind payload) (fun r a' => r.status = .rejected ∧ a' = a)
      (fun _ _ => False) a := by
  rw [process, wp_bind, wp_get, if_pos h]
  exact ⟨rfl, rfl⟩

theorem Ends.standing {r : ApplyResult} (h : Ends cfg kind payload s₀ a₀ r a)
    (hworker : a.state = .failed → a.worker = false) : Standing cfg a := by
  cases h with
  | fatal _ hstate => exact .down hstate (hworker hstate)
  | kept hsettled => exact .settled hsettled
  | applied _ _ _ hsettled => exact .settled hsettled

/-- Every call is consistent, whatever fails. -/
theorem call_consistent (h : Standing cfg a) (c : AgentCall) :
    ConsistentStep cfg (perform (AgentCall.exec inp cfg) a c) ∧
      Standing cfg (perform (AgentCall.exec inp cfg) a c).after := by
  cases c with
  | start =>
      have hspec : wp (AgentCall.exec inp cfg .start)
          (fun b a' => b = .started ∧ Standing cfg a') (fun _ a' => Standing cfg a') a := by
        rw [AgentCall.exec, wp_bind]
        exact (start_standing h).mono (fun _ _ h => ⟨rfl, h⟩) fun _ _ h => h
      have hafter : Standing cfg (perform (AgentCall.exec inp cfg) a .start).after :=
        (hspec.mono (fun _ _ h => h.2) fun _ _ h => h).final
      exact ⟨⟨fun _ _ _ hc => (nomatch hc), fun _ _ _ hc => (nomatch hc), hafter.reported⟩, hafter⟩
  | item kind payload =>
      cases hworker : a.worker with
      | false =>
          have hspec : wp (AgentCall.exec inp cfg (.item kind payload))
              (fun b a' => ∃ r, b = .result r ∧ r.status = .rejected ∧ a' = a) (fun _ _ => False) a := by
            rw [AgentCall.exec, wp_bind]
            exact (process_idle hworker).mono (fun r _ h => ⟨r, rfl, h⟩) fun _ _ h => h
          obtain ⟨hok, herror⟩ := perform_spec hspec
          generalize hst : perform (AgentCall.exec inp cfg) a (.item kind payload) = st at hok herror ⊢
          have hbefore : st.before = a := hst ▸ rfl
          have hsame : st.after = a := by
            cases hresult : st.result with
            | error e => exact (herror e hresult).elim
            | ok b => exact (hok b hresult).elim fun _ h => h.2.2
          refine ⟨⟨fun kind' payload' r hc hr happlied => ?_, fun _ _ _ _ _ _ _ => ?_, fun hserves => ?_⟩,
            hsame ▸ h⟩
          · obtain ⟨r', hr', hrejected, _⟩ := hok _ hr
            cases hr'
            rw [hrejected] at happlied
            cases happlied
          · rw [hsame, hbefore]
            exact ⟨rfl, rfl, rfl, rfl⟩
          · rw [hsame] at hserves ⊢
            exact h.reported hserves
      | true =>
          cases h with
          -- Only a settled agent has a worker.
          | created _ hnone => exact absurd (hnone.symm.trans hworker) nofun
          | down _ hnone => exact absurd (hnone.symm.trans hworker) nofun
          | @settled s₀ h₀ =>
              have hspec : wp (AgentCall.exec inp cfg (.item kind payload))
                  (fun b a' => ∃ r, b = .result r ∧ Ends cfg kind payload s₀ a r a' ∧
                    (a'.state = .failed → a'.worker = false))
                  (fun _ a' => a'.state = .failed ∧ a'.worker = false) a := by
                rw [AgentCall.exec, wp_bind]
                exact (process_ends h₀).mono (fun r _ h => ⟨r, rfl, h⟩) fun _ _ h => h
              obtain ⟨hok, herror⟩ := perform_spec hspec
              generalize hst : perform (AgentCall.exec inp cfg) a (.item kind payload) = st
                at hok herror ⊢
              have hbefore : st.before = a := hst ▸ rfl
              have hcall : st.call = .item kind payload := hst ▸ rfl
              have hafter : Standing cfg st.after := by
                cases hresult : st.result with
                | error e => exact .down (herror e hresult).1 (herror e hresult).2
                | ok b =>
                    obtain ⟨r, _, hends, hdown⟩ := hok b hresult
                    exact hends.standing hdown
              refine ⟨⟨fun kind' payload' r hc hr happlied hnew => ?_,
                fun kind' payload' r hc hr hstatus halive => ?_, hafter.reported⟩, hafter⟩
              · obtain ⟨r', hr', hends, _⟩ := hok _ hr
                cases hr'
                rw [hcall] at hc
                cases hc
                rw [hbefore] at hnew ⊢
                have hfile : a.store.file = some s₀.tables := by rw [h₀.opened]; rfl
                cases hends with
                | fatal hfailed =>
                    rw [hfailed] at happlied
                    cases happlied
                -- `APPLIED` for a version that was committed before is a replay.
                | kept _ _ hreplay =>
                    obtain ⟨version, hversion, hcommits⟩ := hreplay happlied
                    exact absurd hcommits (hnew _ hfile version hversion)
                | @applied s snapshot _ hrequested _ hsettled hdone =>
                    refine ⟨_, snapshot, hfile, hrequested, ?_, hdone.published⟩
                    rw [Agent.databaseVersion, hsettled.opened]
                    exact hdone.pointer
              · obtain ⟨r', hr', hends, _⟩ := hok _ hr
                cases hr'
                rw [hbefore]
                cases hends with
                | fatal _ hstate => exact absurd hstate halive
                | applied happlied => exact absurd happlied hstatus
                | kept hsettled hunchanged =>
                    refine ⟨?_, hunchanged.durable, hunchanged.published.2, hunchanged.published.1⟩
                    rw [Agent.databaseVersion, hsettled.opened, Agent.databaseVersion, h₀.opened]
                    exact hunchanged.pointer

/-- Every store that calls reach is sound. -/
theorem reachable_sound {store : ConfigStore} (h : store.Sound cfg) (history : List StoreCall) :
    (runCalls (StoreCall.exec cfg) store history).Sound cfg := by
  induction history generalizing store with
  | nil => exact h
  | cons c rest ih => exact ih (call_stepped h c).sound

/-- Database, runtime and reported version agree in every step of an agent,
    from any store that calls have left behind, whatever fails. -/
theorem agent_consistent (inp : AgentInputs) (cfg : StoreConfig) (history : List StoreCall)
    (boot : ProcessBootContext) (calls : List AgentCall) :
    ∀ st ∈ trace (AgentCall.exec inp cfg)
      (.created (runCalls (StoreCall.exec cfg) (.closed none 0) history) boot) calls,
      ConsistentStep cfg st := by
  have hempty : (ConfigStore.closed none 0).Sound cfg := fun _ ht => nomatch ht
  have hcreated : Standing cfg
      (.created (runCalls (StoreCall.exec cfg) (.closed none 0) history) boot) :=
    .created rfl rfl (reachable_sound hempty history) rfl (idle_new boot)
  exact trace_forall (I := Standing cfg) (C := fun _ => True)
    (fun a c h _ => call_consistent h c) hcreated fun _ _ => trivial

end PlcnextIot.Core

/-! ## A failed replacement -/

namespace PlcnextIot.Core

open PlcnextIot.Python PlcnextIot.Contracts PlcnextIot.Config PlcnextIot.Effect

attribute [local instance] JsonSchema.atRoot

/-- A gateway `g` with room for a few configurations. -/
def roomyStore : StoreConfig :=
  { smallStore with
    maxSnapshots := 4, maxSnapshots_pos := by decide
    maxRequests := 4, maxRequests_pos := by decide
    maxPayloadBytes := 4000, maxPayloadBytes_pos := by decide }

/-- A configuration of one device with one point. -/
def deviceMessage (id : String) (version port : ℤ) : Json :=
  .obj [(py "schemaVersion", .int 1), (py "gatewayId", .str (py "g")), (py "timestamp", .int 0),
    (py "messageId", .str (py id)), (py "configVersion", .int version),
    (py "config", .obj [(py "enabled", .bool true),
      (py "report", .obj [(py "batchIntervalMs", .int 1000), (py "maxBatchPoints", .int 10)]),
      (py "devices", .arr [.obj [(py "deviceId", .str (py "d")), (py "name", .str (py "d")),
        (py "enabled", .bool true), (py "protocol", .str (py "modbus_tcp")),
        (py "connection", .obj [(py "host", .str (py "h")), (py "port", .int port),
          (py "unitId", .int 1), (py "connectTimeoutMs", .int 100),
          (py "requestTimeoutMs", .int 100), (py "retryCount", .int 0)]),
        (py "points", .arr [.obj [(py "pointId", .str (py "p")), (py "name", .str (py "p")),
          (py "enabled", .bool true), (py "dataType", .str (py "uint16")),
          (py "pollIntervalMs", .int 1000), (py "scale", .int 1), (py "offset", .int 0),
          (py "reportMode", .str (py "cyclic")), (py "reportIntervalMs", .int 1000),
          (py "deadband", .int 0), (py "staleAfterMs", .int 5000),
          (py "modbus", .obj [(py "area", .str (py "holding_register")), (py "address", .int 0),
            (py "byteOrder", .str (py "AB"))])]])]])])]

def deviceItem (id : String) (version port : ℤ) : AgentCall :=
  .item .configSet ((utf8Encode (dumps (deviceMessage id version port))).getD [])

/-- Surroundings in which the start of the second runner fails. -/
def shakyInputs : AgentInputs where
  runtime := Devices.failingInputs
  storage _ := .settles .commits
  closes _ := false

/-- An agent on an empty database. -/
def emptyAgent : Agent := .created (runCalls (StoreCall.exec roomyStore) (.closed none 0) []) {}

/-- It starts, takes a configuration, and is given another one. -/
def replacement : List AgentCall := [.start, deviceItem "m" 1 1, deviceItem "n" 2 2]

/-- What a step answered for its item. -/
def outcomeOf (st : AgentStep) : Option (ApplyStatus × Option PyStr) :=
  match st.result with
  | .ok (.result r) => some (r.status, r.code)
  | _ => none

/-- The second configuration cannot be activated; database, runtime and reported version stay
    with the first one. -/
theorem agent_consistent_replaced :
    let steps := trace (AgentCall.exec shakyInputs roomyStore) emptyAgent replacement
    steps.map (fun st => (outcomeOf st, st.after.databaseVersion, st.after.durableVersion,
        st.after.runtime.snapshot.map (·.configVersion))) =
      [(none, none, some 0, none), (some (ApplyStatus.applied, none), some 1, some 1, some 1),
        (some (ApplyStatus.failed, some (py "APPLY_FAILED")), some 1, some 1, some 1)] ∧
      ∀ st ∈ steps, ConsistentStep roomyStore st := by
  intro steps
  refine ⟨by decide +kernel, ?_⟩
  exact agent_consistent shakyInputs roomyStore [] {} replacement

end PlcnextIot.Core
