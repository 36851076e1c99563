/-
  PlcnextIot.Config.Receipts

  Exactly-once commands: the receipt of a committed command survives every
  later call, and the command is answered from it.

  A receipt names the message, the version, the digest and the kind of a
  command.  Rows only grow, so the receipt stays; its version was committed,
  so its status is `APPLIED`; and the replay check comes before every check
  that looks at the current base.
-/

import PlcnextIot.Config.StoreHistory

namespace PlcnextIot.Config

open PlcnextIot.Python PlcnextIot.Contracts PlcnextIot.Effect PlcnextIot.Effect.Prog

/-! ## Receipts -/

/-- The tables hold the receipt of a command. -/
def Receipt (messageId : PyStr) (version : ℤ) (digest : PyStr) (t : Tables) : Prop :=
  ∃ q ∈ t.requests, q.messageId = messageId ∧ q.version = version ∧
    q.commandDigest = some digest ∧ q.commandKind = some patchKind

/-- The tables hold the receipt of a command whose version was committed. -/
structure AppliedReceipt (messageId : PyStr) (version : ℤ) (digest : PyStr) (t : Tables) :
    Prop where
  receipt : Receipt messageId version digest t
  committed : ∃ r ∈ t.snapshots, r.version = version ∧ r.state = .committed

section Grow

variable {messageId digest : PyStr} {version : ℤ} {t t' : Tables}

theorem Receipt.grow (h : Receipt messageId version digest t) (hgrows : t.Grows t') :
    Receipt messageId version digest t' := by
  obtain ⟨q, hq, hm, hv, hd, hk⟩ := h
  obtain ⟨q', hq', hsame⟩ := hgrows.requests q hq
  exact ⟨q', hq', hsame.messageId.trans hm, hsame.version.trans hv, hsame.commandDigest.trans hd,
    hsame.commandKind.trans hk⟩

theorem AppliedReceipt.grow (h : AppliedReceipt messageId version digest t)
    (hgrows : t.Grows t') : AppliedReceipt messageId version digest t' := by
  refine ⟨h.receipt.grow hgrows, ?_⟩
  obtain ⟨r, hr, hv, hc⟩ := h.committed
  obtain ⟨r', hr', hsame, hcommitted⟩ := hgrows.snapshots r hr
  exact ⟨r', hr', hsame.version.trans hv, hcommitted hc⟩

end Grow

section Commands

variable [JsonSchema] {cfg : StoreConfig}

/-! ## Answers from a receipt -/

section Answers

variable {s : Session} {payload : Bytes} {command : Json} {messageId digest : PyStr} {version : ℤ}

/-- A healthy operation that cannot raise. -/
theorem perform_run {op : Operation} {P : StoreAnswer → Session → Prop}
    (h : wp (op.program cfg .commits) P (fun _ _ => False) s) :
    ∃ a s', (perform (StoreCall.exec cfg) (.opened s) (.run op true)).result = .ok a ∧
      (perform (StoreCall.exec cfg) (.opened s) (.run op true)).after = .opened s' ∧ P a s' := by
  have hrun : ∃ a s', op.program cfg .commits s = (.ok a, s') ∧ P a s' := by
    unfold wp at h
    rcases hx : op.program cfg .commits s with ⟨e | a, s'⟩
    · rw [hx] at h
      exact absurd h id
    · rw [hx] at h
      exact ⟨a, s', rfl, h⟩
  obtain ⟨a, s', hx, hP⟩ := hrun
  have husing : ConfigStore.using (op.program cfg .commits) (.opened s) = (.ok a, .opened s') := by
    show ((op.program cfg .commits s).1, ConfigStore.opened (op.program cfg .commits s).2) = _
    rw [hx]
  exact ⟨a, s', congrArg (·.1) husing, congrArg (·.2) husing, hP⟩

/-- A command whose reading part has an answer leaves the session alone. -/
theorem preparePatch_answer {r : PrepareResult}
    (hparse : parseCommand payload cfg.gatewayId = .ok command)
    (hkey : commandKey command = .ok (messageId, version))
    (hstep : patchStep cfg s.tables command messageId version (sha256 payload)
      = .ok (.answer r)) :
    wp ((Operation.preparePatch payload).program cfg .commits)
      (fun a s' => a = .prepared r ∧ s' = s) (fun _ _ => False) s := by
  have hbody : wp (patchBody cfg command (sha256 payload)) (fun a s' => a = r ∧ s' = s)
      (fun _ _ => False) s := by
    rw [patchBody, wp_bind, wp_gets, wp_bind, hkey]
    show wp (result (patchStep cfg s.tables command messageId version (sha256 payload)) >>= _) _ _ s
    rw [wp_bind, hstep, wp_result_ok]
    exact ⟨rfl, rfl⟩
  show wp (Config.preparePatch cfg payload .commits >>= _) _ _ s
  rw [wp_bind, preparePatch_valid hparse]
  refine wp_transaction_commits.mpr (hbody.mono ?_ fun _ _ h => h)
  rintro a s' ⟨rfl, rfl⟩
  exact ⟨rfl, rfl⟩

/-- An invalid payload is refused. -/
theorem rejectInvalid_answer {op : Operation} {i : List Issue}
    (hprogram : op.program cfg .commits = do return .prepared (← rejectInvalid .commits i)) :
    wp (op.program cfg .commits) (fun a s' => ∃ r, a = .prepared r ∧ r.status = .rejected ∧ s' = s)
      (fun _ _ => False) s := by
  rw [hprogram, wp_bind]
  refine (rejectInvalid_spec i).mono ?_ ?_
  · rintro r s' ⟨-, hstatus, -, rfl⟩
    exact ⟨r, rfl, hstatus, rfl⟩
  · rintro e s' ⟨-, h, -⟩
    cases h

/-- A sound store knows that a receipt of a committed version was applied. -/
theorem AppliedReceipt.applied (h : AppliedReceipt messageId version digest s.tables)
    (hs : s.Sound cfg) : ∃ q ∈ s.tables.requests, (q.messageId = messageId ∧
      q.version = version ∧ q.commandDigest = some digest ∧ q.commandKind = some patchKind) ∧
      q.status = .applied := by
  obtain ⟨q, hq, hm, hv, hd, hk⟩ := h.receipt
  obtain ⟨r, hr, hrv, hc⟩ := h.committed
  obtain ⟨r', hr', hrv', hiff⟩ := hs.applied q hq
  refine ⟨q, hq, ⟨hm, hv, hd, hk⟩, hiff.mpr ?_⟩
  rw [hs.versions.eq_of_key hr' hr (hrv'.trans (hv.trans hrv.symm))]
  exact hc

/-- The command that was applied is answered from its receipt. -/
theorem AppliedReceipt.replays
    (h : AppliedReceipt messageId version (sha256 payload) s.tables) (hs : s.Sound cfg)
    (hparse : parseCommand payload cfg.gatewayId = .ok command)
    (hkey : commandKey command = .ok (messageId, version)) :
    wp ((Operation.preparePatch payload).program cfg .commits)
      (fun a s' => a = .prepared (replayed s.tables version) ∧ s' = s) (fun _ _ => False) s := by
  obtain ⟨q, hq, hsame, happlied⟩ := h.applied hs
  exact preparePatch_answer hparse hkey (patchStep_replay hs hq hsame happlied)

/-- Another command with the message id of a receipt is refused. -/
theorem Receipt.refuses_patch {digest : PyStr} (h : Receipt messageId version digest s.tables)
    (hs : s.Sound cfg) {other : Bytes} (hother : sha256 other ≠ digest)
    (hcarries : ∀ c, parseCommand other cfg.gatewayId = .ok c →
      strItem c "messageId" = .ok messageId) :
    wp ((Operation.preparePatch other).program cfg .commits)
      (fun a s' => ∃ r, a = .prepared r ∧ r.status = .rejected ∧ s' = s) (fun _ _ => False) s := by
  rcases parseCommand_cases other cfg.gatewayId with ⟨c, hparse, -, hconforms, -⟩ | ⟨issues, -, hi⟩
  · obtain ⟨⟨m, v⟩, hkey, -⟩ := commandKey_returns hconforms
    have hm : m = messageId := by
      have hm := (commandKey_eq_ok hkey).1
      rw [hcarries c hparse] at hm
      exact (Except.ok.inj hm).symm
    subst hm
    obtain ⟨q, hq, hqm, -, hd, -⟩ := h
    subst hqm
    have hdiffers : receiptDiffers q v (some (sha256 other)) (some patchKind) = true := by
      by_contra hsame
      have := (receiptDiffers_eq_false.mp (Bool.not_eq_true _ ▸ hsame)).2.1
      rw [hd, Option.some_inj] at this
      exact hother this.symm
    refine (preparePatch_answer hparse hkey
      (patchStep_conflict (hs.request?_eq_some hq) hdiffers)).mono ?_ fun _ _ h => h
    rintro a s' ⟨rfl, rfl⟩
    exact ⟨_, rfl, rfl, rfl⟩
  · refine rejectInvalid_answer (i := issues) ?_
    rw [← preparePatch_invalid hi]
    rfl

/-- A full configuration with the message id of a command's receipt is
    refused. -/
theorem Receipt.refuses_set {digest : PyStr} (h : Receipt messageId version digest s.tables)
    (hs : s.Sound cfg) {other : Bytes}
    (hcarries : ∀ snapshot, ConfigSnapshot.parse other cfg.gatewayId = .ok snapshot →
      snapshot.messageId = messageId) :
    wp ((Operation.prepare other).program cfg .commits)
      (fun a s' => ∃ r, a = .prepared r ∧ r.status = .rejected ∧ s' = s) (fun _ _ => False) s := by
  rcases parse_cases other cfg.gatewayId with ⟨snapshot, -, hparse, -⟩ | ⟨issues, -, hi⟩
  · obtain ⟨q, hq, hqm, -, hd, hk⟩ := h
    have hm := hcarries snapshot hparse
    have hdiffers : receiptDiffers q snapshot.configVersion none none = true := by
      by_contra hsame
      have := (receiptDiffers_eq_false.mp (Bool.not_eq_true _ ▸ hsame)).2.1
      rw [hd] at this
      cases this
    have hfound : s.tables.request? snapshot.messageId = some q := by
      rw [hm, ← hqm]
      exact hs.request?_eq_some hq
    have hrefusal : refusal cfg s.tables snapshot none none
        = .ok (some (py "MESSAGE_ID_CONFLICT")) := by
      unfold refusal
      simp only [hfound, Option.any_some, hdiffers, if_true]
      rfl
    show wp (Config.prepare cfg other .commits >>= _) _ _ s
    rw [wp_bind, prepare_valid hparse]
    refine wp_transaction_commits.mpr ?_
    rw [prepareSnapshot, wp_bind, wp_gets, wp_bind, hrefusal, wp_result_ok]
    exact ⟨_, rfl, rfl, rfl⟩
  · refine rejectInvalid_answer (i := issues) ?_
    rw [← prepare_invalid hi]
    rfl

end Answers

/-! ## Runs -/

/-- A run moves a sound store upwards. -/
theorem runs_advance {s : ConfigStore} (hs : s.Sound cfg) (calls : List StoreCall) :
    s.Advances cfg (runCalls (StoreCall.exec cfg) s calls) :=
  runCalls_moves (I := fun s => s.Sound cfg) .refl (fun _ _ _ h h' => h.trans h')
    (fun _ c h => ⟨(call_stepped h c).advances, (call_stepped h c).sound⟩) hs calls

/-- A preparation that issues a token leaves the receipt of its command and the
    row of the token. -/
theorem preparePatch_issues {st : StoreStep} (h : Stepped cfg st)
    (hcall : st.call.operation = some (.preparePatch payload)) {r : PrepareResult}
    (hresult : st.result = .ok (.prepared r)) {token : PyStr} (htoken : r.token = some token) :
    ∃ command messageId version t row, parseCommand payload cfg.gatewayId = .ok command ∧
      commandKey command = .ok (messageId, version) ∧ st.after.file = some t ∧
      Receipt messageId version (sha256 payload) t ∧ row ∈ t.snapshots ∧ row.version = version ∧
      row.token = some token := by
  cases h.ended with
  | raised hresult' hfile hopen hformat =>
      rw [hresult] at hresult'
      cases hresult'
  | opened hopens hresult' hopened =>
      rw [hresult] at hresult'
      cases hresult'
  | gone hrun hopens hresult' hclosed =>
      rw [hresult] at hresult'
      cases hresult'
  | @answered op hh a s s' hrun hresult' hbefore hafter hop =>
      rw [hresult] at hresult'
      cases hresult'
      have hpatch : op = .preparePatch payload := by
        rw [hrun] at hcall
        exact Option.some.inj hcall
      subst hpatch
      cases hop with
      | refused hop hstatus hnone =>
          rw [htoken] at hnone
          cases hnone
      | @preparePatch _ _ _ command messageId version hparse hkey hpr =>
          cases hpr with
          | refused hstatus hnone hsame =>
              rw [htoken] at hnone
              cases hnone
          | replays hq hmessage hversion happlied hr hsame =>
              rw [hr] at htoken
              cases htoken
          | @accepted active snapshot hactive hsnapshot hmessage hversion hacc =>
              obtain ⟨q, hq, hqm, hqv, hqd, hqk⟩ := hacc.request
              obtain ⟨row, hrow, hrv, -, ⟨-, -, -, hrt, -⟩ | ⟨-, -, -, hnone, -⟩⟩ := hacc.row
              · exact ⟨command, messageId, version, s'.tables, row, hparse, hkey,
                  by rw [hafter]; rfl,
                  ⟨q, hq, hqm.trans hmessage, hqv.trans hversion, hqd, hqk⟩, hrow,
                  hrv.trans hversion, hrt.symm.trans htoken⟩
              · rw [htoken] at hnone
                cases hnone

/-- A commit that succeeds commits the version its token was issued for. -/
theorem commit_version {st : StoreStep} (h : Stepped cfg st) {token : PyStr}
    (hsucceeds : Succeeds token st) {first : ConfigStore} (hfirst : first.Sound cfg)
    (hmoves : first.Advances cfg st.before) {t : Tables} (ht : first.file = some t)
    {row : SnapshotRow} (hrow : row ∈ t.snapshots) (htoken : row.token = some token) :
    ∃ t', st.after.file = some t' ∧ ∃ r ∈ t'.snapshots, r.version = row.version ∧
      r.state = .committed := by
  obtain ⟨s, s', snapshot, hbefore, hafter, hcommitted⟩ := h.committed hsucceeds
  obtain ⟨t1, ht1, -, hkeeps⟩ := hmoves.file t ht
  have ht1s : t1 = s.tables := by
    rw [hbefore] at ht1
    exact (Option.some.inj ht1).symm
  subst ht1s
  -- the token was drawn before, so it still belongs to the version it was drawn for
  have hversion : ∀ r ∈ s.tables.snapshots, r.token = some token → r.version = row.version := by
    intro r hr hrt
    obtain ⟨n, hn, hn'⟩ := (hfirst t ht).issued row hrow token htoken
    obtain ⟨r0, hr0, hv0, ht0⟩ := hkeeps r hr n hn (hrt.trans (congrArg some hn'))
    have hsame : row = r0 := (hfirst t ht).distinct row hrow r0 hr0
      (htoken.trans (ht0.trans hrt).symm) (by rw [htoken]; rfl)
    rw [← hv0, hsame]
  refine ⟨s'.tables, hafter, ?_⟩
  cases hcommitted with
  | @promotes r hr hrt hstate hdecode hsame =>
      subst hsame
      refine ⟨_, Tables.mem_promote.mpr ⟨r, hr, rfl⟩, ?_⟩
      rw [if_pos rfl]
      exact ⟨hversion r hr hrt, rfl⟩
  | @repeats r hr hrt hstate hactive hdecode hsame =>
      subst hsame
      exact ⟨r, hr, hversion r hr hrt, hstate⟩

/-- The call was refused and changed nothing. -/
def Refused (st : StoreStep) : Prop :=
  ∃ r, st.result = .ok (.prepared r) ∧ r.status = .rejected ∧ st.after = st.before

variable (cfg) in
/-- Commands take effect once: after the commit of the candidate that a command
    created, the same bytes are answered with the version they committed, other
    bytes with its message id are refused, and neither changes the store.  In
    no run is the receipt of a command found inconsistent. -/
theorem exactly_once_patch :
    (∀ calls c, (perform (StoreCall.exec cfg) (runCalls (StoreCall.exec cfg) .fresh calls) c).result
      ≠ .error (.format "Applied command receipt is inconsistent.")) ∧
    ∀ (before : List StoreCall) (payload : Bytes) (healthy : Bool) (r : PrepareResult)
      (token : PyStr) (between : List StoreCall) (c : StoreCall) (later : List StoreCall)
      (s : Session),
      (perform (StoreCall.exec cfg) (runCalls (StoreCall.exec cfg) .fresh before)
        (.run (.preparePatch payload) healthy)).result = .ok (.prepared r) →
      r.token = some token →
      Succeeds token (perform (StoreCall.exec cfg) (runCalls (StoreCall.exec cfg) .fresh
        (before ++ .run (.preparePatch payload) healthy :: between)) c) →
      runCalls (StoreCall.exec cfg) .fresh
        (before ++ .run (.preparePatch payload) healthy :: between ++ c :: later) = .opened s →
      ∃ command messageId version, parseCommand payload cfg.gatewayId = .ok command ∧
        commandKey command = .ok (messageId, version) ∧
        perform (StoreCall.exec cfg) (.opened s) (.run (.preparePatch payload) true)
          = ⟨.opened s, .run (.preparePatch payload) true,
            .ok (.prepared (replayed s.tables version)), .opened s⟩ ∧
        (∀ other, (sha256 other = sha256 payload → other = payload) → other ≠ payload →
          (∀ c, parseCommand other cfg.gatewayId = .ok c → strItem c "messageId" = .ok messageId) →
          Refused (perform (StoreCall.exec cfg) (.opened s) (.run (.preparePatch other) true))) ∧
        ∀ other, (∀ snapshot, ConfigSnapshot.parse other cfg.gatewayId = .ok snapshot →
            snapshot.messageId = messageId) →
          Refused (perform (StoreCall.exec cfg) (.opened s) (.run (.prepare other) true)) := by
  refine ⟨fun calls c hresult => ?_, ?_⟩
  · have hsound : (runCalls (StoreCall.exec cfg) .fresh calls).Sound cfg := (run_history calls).sound
    have hstep := call_stepped hsound c
    cases hstep.ended with
    | raised hresult' hfile hopen hformat =>
        rw [hresult] at hresult'
        cases hresult'
        exact hformat _ rfl
    | answered hcall hresult' hbefore hafter hop =>
        rw [hresult] at hresult'
        cases hresult'
    | opened hcall hresult' hopened =>
        rw [hresult] at hresult'
        cases hresult'
    | gone hcall hopens hresult' hclosed =>
        rw [hresult] at hresult'
        cases hresult'
  intro before payload healthy r token between c later s hprepared htoken hcommit hend
  have hs0 : (runCalls (StoreCall.exec cfg) .fresh before).Sound cfg := (run_history before).sound
  have hstep0 := call_stepped hs0 (.run (.preparePatch payload) healthy)
  obtain ⟨command, messageId, version, t, row, hparse, hkey, hfile, hreceipt, hrow, hversion,
    hrowtoken⟩ := preparePatch_issues hstep0 rfl hprepared htoken
  generalize hfirst : (perform (StoreCall.exec cfg) (runCalls (StoreCall.exec cfg) .fresh before)
    (.run (.preparePatch payload) healthy)).after = first at *
  have hsound1 : first.Sound cfg := hfirst ▸ hstep0.sound
  -- the steps up to the commit
  have hmiddle : runCalls (StoreCall.exec cfg) .fresh
      (before ++ .run (.preparePatch payload) healthy :: between)
      = runCalls (StoreCall.exec cfg) first between := by
    rw [runCalls_append, runCalls, hfirst]
  rw [hmiddle] at hcommit
  have hmoves := runs_advance hsound1 between
  have hsound2 : (runCalls (StoreCall.exec cfg) first between).Sound cfg :=
    hmiddle ▸ (run_history _).sound
  have hstep2 := call_stepped hsound2 c
  obtain ⟨t2, ht2, hcommitted⟩ := commit_version hstep2 hcommit hsound1 hmoves hfile hrow hrowtoken
  obtain ⟨t2', ht2', hgrows2, -⟩ := (hmoves.trans hstep2.advances).file t hfile
  rw [ht2] at ht2'
  cases ht2'
  have happlied2 : AppliedReceipt messageId version (sha256 payload) t2 :=
    ⟨hreceipt.grow hgrows2, hversion ▸ hcommitted⟩
  -- the steps after it
  have hlast : runCalls (StoreCall.exec cfg) (perform (StoreCall.exec cfg)
      (runCalls (StoreCall.exec cfg) first between) c).after later = .opened s := by
    rw [← hend, runCalls_append, hmiddle, runCalls]
  have hmoves3 := runs_advance hstep2.sound later
  rw [hlast] at hmoves3
  obtain ⟨t3, ht3, hgrows3, -⟩ := hmoves3.file t2 ht2
  cases ht3
  have happlied : AppliedReceipt messageId version (sha256 payload) s.tables :=
    happlied2.grow hgrows3
  have hs : s.Sound cfg := (run_history _).sound.session hend
  refine ⟨command, messageId, version, hparse, hkey, ?_, ?_, ?_⟩
  · obtain ⟨a, s', ha, hs', rfl, rfl⟩ := perform_run (happlied.replays hs hparse hkey)
    exact (congrArg₂ (Step.mk _ _) ha hs' :)
  · intro other hcollision hne hcarries
    obtain ⟨a, s', ha, hs', r', rfl, hstatus, rfl⟩ := perform_run
      (happlied.receipt.refuses_patch hs (fun h => hne (hcollision h)) hcarries)
    exact ⟨r', ha, hstatus, hs'⟩
  · intro other hcarries
    obtain ⟨a, s', ha, hs', r', rfl, hstatus, rfl⟩ := perform_run
      (happlied.receipt.refuses_set hs hcarries)
    exact ⟨r', ha, hstatus, hs'⟩

end Commands

/-! ## A first command -/

/-- A gateway `g` with room for one snapshot and one request. -/
def smallStore : StoreConfig where
  gatewayId := py "g"
  gatewayId_valid := by decide
  maxSnapshots := 1
  maxSnapshots_pos := by decide
  maxRequests := 1
  maxRequests_pos := by decide
  maxPayloadBytes := 1000
  maxPayloadBytes_pos := by decide
  uuid n := List.replicate (n + 1) 0x61
  uuid_injective a b h := by simpa using congrArg List.length h
  uuid_ne_nil _ := List.cons_ne_nil _ _

/-- A command that configures the gateway for the first time. -/
def firstCommand : Json :=
  .obj [(py "schemaVersion", .int 1), (py "gatewayId", .str (py "g")), (py "timestamp", .int 0),
    (py "messageId", .str (py "m")), (py "configVersion", .int 1),
    (py "baseConfigVersion", .int 0), (py "baseMessageId", .null), (py "operations", .arr []),
    (py "gateway", .obj [(py "enabled", .bool false), (py "report",
      .obj [(py "batchIntervalMs", .int 1), (py "maxBatchPoints", .int 1)])])]

/-- The bytes of the first command. -/
def firstPayload : Bytes := (utf8Encode (dumps firstCommand)).getD []

/-- The token in the answer of a step. -/
def answeredToken (st : StoreStep) : Option PyStr :=
  match st.result with
  | .ok (.prepared r) => r.token
  | _ => none

/-- The step returned a committed snapshot. -/
def answeredCommit (st : StoreStep) : Bool :=
  match st.result with
  | .ok (.committed _) => true
  | _ => false

theorem answeredToken_eq_some {st : StoreStep} {token : PyStr} (h : answeredToken st = some token) :
    ∃ r, st.result = .ok (.prepared r) ∧ r.token = some token := by
  unfold answeredToken at h
  split at h
  · rename_i r hr
    exact ⟨r, hr, h⟩
  · cases h

theorem answeredCommit_eq_true {st : StoreStep} (h : answeredCommit st = true) :
    ∃ snapshot, st.result = .ok (.committed snapshot) := by
  unfold answeredCommit at h
  split at h
  · rename_i snapshot hr
    exact ⟨snapshot, hr⟩
  · cases h

/-- The store is open. -/
def ConfigStore.isOpen : ConfigStore → Bool
  | .opened _ => true
  | .closed _ _ => false

theorem ConfigStore.isOpen_eq_true {s : ConfigStore} (h : s.isOpen = true) :
    ∃ session, s = .opened session := by
  cases s with
  | opened session => exact ⟨session, rfl⟩
  | closed file drawn => cases h

section First

attribute [local instance] JsonSchema.atRoot

/-- The calls that prepare the first command, commit it and reopen the store. -/
def firstRun : List StoreCall :=
  [.opens true, .run (.preparePatch firstPayload) true, .run (.commit (py "a")) true, .closes,
    .opens true]

/-- The first command is prepared, committed, and still known after a restart. -/
theorem exactly_once_patch_first : ∃ s version,
    runCalls (StoreCall.exec smallStore) .fresh firstRun = .opened s ∧
    perform (StoreCall.exec smallStore) (.opened s) (.run (.preparePatch firstPayload) true)
      = ⟨.opened s, .run (.preparePatch firstPayload) true,
        .ok (.prepared (replayed s.tables version)), .opened s⟩ := by
  have hrun : answeredToken (perform (StoreCall.exec smallStore)
        (runCalls (StoreCall.exec smallStore) .fresh (firstRun.take 1))
        (.run (.preparePatch firstPayload) true)) = some (py "a") ∧
      answeredCommit (perform (StoreCall.exec smallStore)
        (runCalls (StoreCall.exec smallStore) .fresh (firstRun.take 2))
        (.run (.commit (py "a")) true)) = true ∧
      (runCalls (StoreCall.exec smallStore) .fresh firstRun).isOpen = true := by
    decide +kernel
  obtain ⟨hissued, hcommitted, hopen⟩ := hrun
  obtain ⟨r, hr, htoken⟩ := answeredToken_eq_some hissued
  obtain ⟨s, hs⟩ := ConfigStore.isOpen_eq_true hopen
  obtain ⟨_, _, version, -, -, hreplay, -⟩ := (exactly_once_patch smallStore).2
    [.opens true] firstPayload true r (py "a") [] (.run (.commit (py "a")) true)
    [.closes, .opens true] s hr htoken ⟨rfl, .inl (answeredCommit_eq_true hcommitted)⟩ hs
  exact ⟨s, version, hs, hreplay⟩

end First

end PlcnextIot.Config
