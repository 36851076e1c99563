/-
  PlcnextIot.Config.StoreHistory

  What a run of the configuration store remembers: which token is current, and
  which commit made a row the active one.

  `History` relates the steps so far to the store they led to.  With it a
  commit that succeeds is traced back to the preparation that issued its
  token, or to the commit that it repeats.
-/

import PlcnextIot.Config.StoreRun

namespace PlcnextIot.Config

open PlcnextIot.Python PlcnextIot.Contracts PlcnextIot.Effect PlcnextIot.Effect.Prog

/-! ## Tokens and commits of the past -/

/-- The current token after an operation that returned: a preparation issues
    one, `fail` takes it back. -/
def issuedAfter (op : Operation) (a : StoreAnswer) (previous : Option PyStr) : Option PyStr :=
  match op, a with
  | .fail _, _ => none
  | _, .prepared r => if r.token.isSome then r.token else previous
  | _, _ => previous

/-- The current token after a step. -/
def issuedBy (previous : Option PyStr) (st : StoreStep) : Option PyStr :=
  match st.call, st.result with
  | .run op _, .ok a => issuedAfter op a previous
  | .opens _, .ok _ => none
  | _, _ => previous

/-- The token issued last, since the last `fail` or reopening. -/
def lastIssued (steps : List StoreStep) : Option PyStr := steps.foldl issuedBy none

/-- The step committed the version for the token. -/
def Commits (token : PyStr) (version : ℤ) (st : StoreStep) : Prop :=
  st.call.operation = some (.commit token) ∧ ∃ t t', st.before.file = some t ∧
    st.after.file = some t' ∧
    (∃ r ∈ t.snapshots, r.version = version ∧ r.token = some token ∧ r.state = .prepared) ∧
    ∃ r ∈ t'.snapshots, r.version = version ∧ r.state = .committed

/-- A commit that succeeded: its caller saw the snapshot, or the process died
    after the transaction. -/
def Succeeds (token : PyStr) (st : StoreStep) : Prop :=
  st.call.operation = some (.commit token) ∧
    ((∃ snapshot, st.result = .ok (.committed snapshot)) ∨ st.after.file ≠ st.before.file)

/-- The call raised, or refused. -/
def Declined (st : StoreStep) : Prop :=
  (∃ e, st.result = .error e) ∨ ∃ r, st.result = .ok (.prepared r) ∧ r.status = .rejected

variable [JsonSchema] {cfg : StoreConfig}

/-! ## One operation -/

section Operations

variable {s s' : Session} {op : Operation} {a : StoreAnswer}

/-- No candidate is left once one is promoted or failed. -/
theorem not_prepared_promote (hs : s.Sound cfg) {r r' : SnapshotRow}
    (hr : r ∈ s.tables.snapshots) (hstate : r.state = .prepared)
    (hr' : r' ∈ (s.tables.promote r.version).snapshots) : r'.state ≠ .prepared := by
  intro hp
  obtain ⟨r0, hr0, rfl⟩ := Tables.mem_promote.mp hr'
  by_cases hv : r0.version = r.version
  · rw [if_pos hv] at hp
    cases hp
  · rw [if_neg hv] at hp
    exact hv (congrArg _ (hs.single r0 hr0 r hr hp hstate))

theorem not_prepared_failed (hs : s.Sound cfg) {token : PyStr} (h : Failed s token s')
    {r' : SnapshotRow} (hr' : r' ∈ s'.tables.snapshots) : r'.state ≠ .prepared := by
  obtain ⟨r, hr, -, hstate, rfl⟩ := h
  intro hp
  obtain ⟨r0, hr0, -, ⟨-, hs0, -⟩ | ⟨hv, rfl⟩⟩ := Tables.mem_mark.mp hr'
  · rw [hs0] at hp
    cases hp
  · exact hv (congrArg _ (hs.single r' hr0 r hr hp hstate))

/-- The candidate carries the current token. -/
theorem OpResult.current (h : OpResult cfg s op a s') (hs : s.Sound cfg) (hs' : s'.Sound cfg)
    {previous : Option PyStr}
    (hprevious : ∀ r ∈ s.tables.snapshots, r.state = .prepared → r.token = previous)
    {r : SnapshotRow} (hr : r ∈ s'.tables.snapshots) (hp : r.state = .prepared) :
    r.token = issuedAfter op a previous := by
  have accepted : ∀ {snapshot digest kind x} (_ : Accepted cfg snapshot digest kind s.tables x
      s'.tables), r.token = if x.token.isSome then x.token else previous := by
    intro snapshot digest kind x h
    obtain ⟨row, hrow, -, -, ⟨-, -, hstate, htoken, hsome, -⟩ | ⟨-, -, -, htoken, hsame, -⟩⟩ := h.row
    · rw [if_pos hsome, htoken, hs'.single r hr row hrow hp hstate]
    · rw [htoken]
      exact hprevious r (hsame ▸ hr) hp
  cases h with
  | @refused _ x hop hstatus htoken =>
      have hissued : issuedAfter op (.prepared x) previous = previous := by
        cases op with
        | prepare payload => simp [issuedAfter, htoken]
        | preparePatch payload => simp [issuedAfter, htoken]
        | commit token => cases hop
        | fail token => cases hop
      rw [hissued]
      exact hprevious r hr hp
  | prepare hparse h => exact accepted h
  | preparePatch hparse hkey h =>
      cases h with
      | refused hstatus htoken hsame =>
          subst hsame
          show r.token = if _ then _ else _
          rw [htoken]
          exact hprevious r hr hp
      | replays hq hmessage hversion happlied hx hsame =>
          subst hx hsame
          exact hprevious r hr hp
      | accepted hactive hsnapshot hmessage hversion h => exact accepted h
  | commit h =>
      cases h with
      | promotes hr0 htoken hstate hdecode hsame =>
          subst hsame
          exact absurd hp (not_prepared_promote hs hr0 hstate hr)
      | repeats hr0 htoken hstate hactive hdecode hsame =>
          subst hsame
          exact hprevious r hr hp
  | fail h => exact absurd hp (not_prepared_failed hs h hr)

/-- A committed row was committed before, or by this operation. -/
theorem OpResult.origin (h : OpResult cfg s op a s') (hs : s.Sound cfg) {r : SnapshotRow}
    (hr : r ∈ s'.tables.snapshots) (hc : r.state = .committed) :
    r ∈ s.tables.snapshots ∨ ∃ token, op = .commit token ∧ r.token = some token ∧
      ∃ r0 ∈ s.tables.snapshots, r0.version = r.version ∧ r0.token = some token ∧
        r0.state = .prepared := by
  cases h with
  | refused hop hstatus htoken => exact .inl hr
  | prepare hparse h => exact .inl (h.committed r hr hc)
  | preparePatch hparse hkey h =>
      cases h with
      | refused hstatus htoken hsame => exact .inl (hsame ▸ hr)
      | replays hq hmessage hversion happlied hx hsame => exact .inl (hsame ▸ hr)
      | accepted hactive hsnapshot hmessage hversion h => exact .inl (h.committed r hr hc)
  | @commit token snapshot _ h =>
      cases h with
      | @promotes r1 hr1 htoken hstate hdecode hsame =>
          subst hsame
          obtain ⟨r0, hr0, rfl⟩ := Tables.mem_promote.mp hr
          by_cases hv : r0.version = r1.version
          · refine .inr ⟨token, rfl, ?_⟩
            rw [if_pos hv]
            obtain rfl : r0 = r1 := hs.versions.eq_of_key hr0 hr1 hv
            exact ⟨htoken, r0, hr1, rfl, htoken, hstate⟩
          · rw [if_neg hv]
            exact .inl hr0
      | repeats hr0 htoken hstate hactive hdecode hsame => exact .inl (hsame ▸ hr)
  | fail h =>
      obtain ⟨r1, hr1, -, hstate, rfl⟩ := h
      obtain ⟨r0, hr0, -, ⟨-, hs0, -⟩ | ⟨-, rfl⟩⟩ := Tables.mem_mark.mp hr
      · rw [hs0] at hc
        cases hc
      · exact .inl hr0

end Operations

/-! ## Runs -/

/-- What the steps so far say about the store they led to. -/
structure History (cfg : StoreConfig) (past : List StoreStep) (s : ConfigStore) : Prop where
  sound : s.Sound cfg
  current : ∀ session, s = .opened session → ∀ r ∈ session.tables.snapshots,
    r.state = .prepared → r.token = lastIssued past
  origin : ∀ t, s.file = some t → ∀ r ∈ t.snapshots, r.state = .committed →
    ∀ token, r.token = some token → ∃ st ∈ past, Commits token r.version st

/-- A store whose file does not exist. -/
def ConfigStore.fresh : ConfigStore := .closed none 0

theorem History.fresh : History cfg [] .fresh := by
  refine ⟨?_, ?_, ?_⟩
  · intro t ht
    cases ht
  · intro session hs
    cases hs
  · intro t ht
    cases ht

omit [JsonSchema] in
theorem lastIssued_append (past : List StoreStep) (st : StoreStep) :
    lastIssued (past ++ [st]) = issuedBy (lastIssued past) st := by
  rw [lastIssued, List.foldl_append]
  rfl

omit [JsonSchema] in
theorem recovered_not_prepared {file : Option Tables} {r : SnapshotRow}
    (hr : r ∈ (recovered cfg file).snapshots) : r.state ≠ .prepared := by
  obtain ⟨r0, -, rfl⟩ := List.mem_map.mp hr
  split
  · nofun
  · assumption

/-- A committed row after a step was committed before, or by the step. -/
theorem Effected.origin {st : StoreStep} (h : Effected cfg st) (hs : st.before.Sound cfg) {t' : Tables}
    (ht' : st.after.file = some t') {r : SnapshotRow} (hr : r ∈ t'.snapshots)
    (hc : r.state = .committed) {token : PyStr} (htoken : r.token = some token) :
    (∃ t, st.before.file = some t ∧ r ∈ t.snapshots) ∨ Commits token r.version st := by
  cases h with
  | unchanged h =>
      rw [h] at ht'
      exact .inl ⟨t', ht', hr⟩
  | @operates op a s s' hop hbefore hafter h =>
      rw [hafter] at ht'
      cases ht'
      rcases h.origin (hs.session hbefore) hr hc with hold | ⟨k, rfl, hk, r0, hr0, hv, hk0, hp⟩
      · exact .inl ⟨s.tables, by rw [hbefore]; rfl, hold⟩
      · rw [htoken, Option.some_inj] at hk
        subst hk
        exact .inr ⟨hop, s.tables, s'.tables, by rw [hbefore]; rfl, hafter,
          ⟨r0, hr0, hv, hk0, hp⟩, r, hr, rfl, hc⟩
  | @recovers file drawn hop hbefore hafter =>
      rw [hafter] at ht'
      cases ht'
      obtain ⟨r0, hr0, rfl⟩ := List.mem_map.mp hr
      by_cases hp : r0.state = .prepared
      · rw [if_pos hp] at hc
        cases hc
      · rw [if_neg hp]
        cases file with
        | none => exact absurd hr0 List.not_mem_nil
        | some t => exact .inl ⟨t, by rw [hbefore]; rfl, hr0⟩

/-- A step extends the history. -/
theorem History.step {past : List StoreStep} {s : ConfigStore} (h : History cfg past s)
    (c : StoreCall) : History cfg (past ++ [perform (StoreCall.exec cfg) s c])
      (perform (StoreCall.exec cfg) s c).after := by
  have hstep := call_stepped h.sound c
  have hbefore : (perform (StoreCall.exec cfg) s c).before = s := rfl
  generalize perform (StoreCall.exec cfg) s c = st at *
  subst hbefore
  refine ⟨hstep.sound, ?_, ?_⟩
  · intro session hafter r hr hp
    rw [lastIssued_append]
    cases hstep.ended with
    | @raised e hresult hfile hopen hformat =>
        obtain ⟨session0, hbefore⟩ := hopen session hafter
        have htables : session.tables = session0.tables := by
          rw [hafter, hbefore] at hfile
          exact Option.some.inj hfile
        have hissued : issuedBy (lastIssued past) st = lastIssued past := by
          unfold issuedBy
          rw [hresult]
          cases st.call <;> rfl
        rw [hissued]
        exact h.current session0 hbefore r (htables ▸ hr) hp
    | @answered op hh a s0 s1 hcall hresult hbefore hafter' hop =>
        rw [hafter] at hafter'
        cases hafter'
        have hissued : issuedBy (lastIssued past) st = issuedAfter op a (lastIssued past) := by
          unfold issuedBy
          rw [hcall, hresult]
        rw [hissued]
        exact hop.current (h.sound.session hbefore) (hstep.sound.session hafter)
          (h.current s0 hbefore) hr hp
    | opened hcall hresult hopened =>
        obtain ⟨file, drawn, -, hafter'⟩ := hopened
        rw [hafter] at hafter'
        cases hafter'
        exact absurd hp (recovered_not_prepared hr)
    | gone hcall hopens hresult hclosed => exact absurd hafter (hclosed session)
  · intro t' ht' r hr hc token htoken
    rcases hstep.effect.origin h.sound ht' hr hc htoken with ⟨t, ht, hold⟩ | hcommits
    · obtain ⟨st', hst', hcommits⟩ := h.origin t ht r hold hc token htoken
      exact ⟨st', List.mem_append_left _ hst', hcommits⟩
    · exact ⟨st, List.mem_append_right _ List.mem_cons_self, hcommits⟩

/-- The history of every run that starts without a database file. -/
theorem run_history (calls : List StoreCall) :
    History cfg (trace (StoreCall.exec cfg) .fresh calls)
      (runCalls (StoreCall.exec cfg) .fresh calls) :=
  trace_history (I := fun past s => History cfg past s) .fresh (fun _ _ c h => h.step c) calls

/-! ## The invariants of the store -/

/-- What a reader of the tables relies on. -/
structure Coherent (cfg : StoreConfig) (t : Tables) : Prop where
  onePrepared : ∀ r ∈ t.snapshots, ∀ r' ∈ t.snapshots, r.state = .prepared →
    r'.state = .prepared → r = r'
  preparedNewer : ∀ r ∈ t.snapshots, r.state = .prepared → t.activeVersion < r.version
  active : t.active = none ∧ loadActive cfg t = .ok none ∨
    ∃ r s, r ∈ t.snapshots ∧ t.active = some r.version ∧ r.state = .committed ∧
      loadActive cfg t = .ok (some s) ∧ s.configVersion = r.version
  requests : ∀ q ∈ t.requests,
    (q.status = .applied ↔ ∃ r ∈ t.snapshots, r.version = q.version ∧ r.state = .committed)

theorem Tables.Sound.coherent {drawn : Nat} {t : Tables} (h : t.Sound cfg drawn) :
    Coherent cfg t := by
  refine ⟨h.single, h.newer, ?_, fun q hq => ?_⟩
  · rcases h.loadActive_returns with ⟨hzero, hload⟩ | ⟨r, s, hr, hv, hc, hdecode, hload⟩
    · refine .inl ⟨?_, hload⟩
      cases hactive : t.active with
      | none => rfl
      | some v =>
          obtain ⟨r, hr, hv, -⟩ := h.pointer v hactive
          have hpos := (h.decodes r hr).1
          have : t.activeVersion = v := by rw [activeVersion, hactive]; rfl
          omega
    · have hpos := (h.decodes r hr).1
      obtain ⟨-, -, -, -, hactive⟩ := h.active_row (by omega)
      exact .inr ⟨r, s, hr, by rw [hactive, hv], hc, hload, decode_version hdecode⟩
  · obtain ⟨r, hr, hv, hiff⟩ := h.applied q hq
    rw [hiff]
    constructor
    · exact fun hc => ⟨r, hr, hv, hc⟩
    · rintro ⟨r', hr', hv', hc⟩
      rw [h.versions.eq_of_key hr hr' (hv.trans hv'.symm)]
      exact hc

/-- A commit that succeeded found the row of its token. -/
theorem Stepped.committed {st : StoreStep} (h : Stepped cfg st) {token : PyStr}
    (hsucceeds : Succeeds token st) : ∃ s s' snapshot, st.before = .opened s ∧
      st.after.file = some s'.tables ∧ Committed cfg s token snapshot s' := by
  obtain ⟨hop, hcase⟩ := hsucceeds
  have heffect : st.after.file ≠ st.before.file → ∃ s s' snapshot, st.before = .opened s ∧
      st.after.file = some s'.tables ∧ Committed cfg s token snapshot s' := by
    intro hchanged
    cases h.effect with
    | unchanged hsame => exact absurd hsame hchanged
    | @operates op a s s' hop' hbefore hafter hresult =>
        rw [hop] at hop'
        cases hop'
        cases hresult with
        | refused hop hstatus htoken => cases hop
        | commit hc => exact ⟨s, s', _, hbefore, hafter, hc⟩
    | recovers hop' hbefore hafter =>
        rw [hop] at hop'
        cases hop'
  rcases hcase with ⟨snapshot, hresult⟩ | hchanged
  · cases h.ended with
    | raised hresult' hfile hopen hformat =>
        rw [hresult] at hresult'
        cases hresult'
    | @answered op hh a s s' hcall hresult' hbefore hafter hopResult =>
        rw [hresult] at hresult'
        cases hresult'
        have hcommit : op = .commit token := by
          rw [hcall] at hop
          exact Option.some.inj hop
        subst hcommit
        cases hopResult with
        | commit hc => exact ⟨s, s', snapshot, hbefore, by rw [hafter]; rfl, hc⟩
    | opened hcall hresult' hopened =>
        rw [hresult] at hresult'
        cases hresult'
    | gone hcall hopens hresult' hclosed =>
        rw [hresult] at hresult'
        cases hresult'
  · exact heffect hchanged

/-- A step that raises or refuses leaves the file alone. -/
theorem Stepped.declined {st : StoreStep} (h : Stepped cfg st) (hd : Declined st) :
    st.after.file = st.before.file := by
  rcases hd with ⟨e, he⟩ | ⟨r, hr, hstatus⟩
  · cases h.ended with
    | raised hresult hfile hopen hformat => exact hfile
    | answered hcall hresult hbefore hafter hop =>
        rw [he] at hresult
        cases hresult
    | opened hcall hresult hopened =>
        rw [he] at hresult
        cases hresult
    | gone hcall hopens hresult hclosed =>
        rw [he] at hresult
        cases hresult
  · cases h.ended with
    | raised hresult hfile hopen hformat => exact hfile
    | @answered op hh a s s' hcall hresult hbefore hafter hop =>
        rw [hr] at hresult
        cases hresult
        have accepted : ∀ {snapshot digest kind}, ¬ Accepted cfg snapshot digest kind s.tables r
            s'.tables := by
          intro snapshot digest kind hacc
          obtain ⟨row, -, -, -, ⟨hst, -⟩ | ⟨hst, -⟩⟩ := hacc.row
          · rw [hst] at hstatus
            cases hstatus
          · rw [hst] at hstatus
            cases hstatus
        have hsame : s' = s := by
          cases hop with
          | refused hop hstatus' htoken => rfl
          | prepare hparse hacc => exact absurd hacc accepted
          | preparePatch hparse hkey hres =>
              cases hres with
              | refused hst htoken hsame => exact hsame
              | replays hq hmessage hversion happlied hr' hsame => exact hsame
              | accepted hactive hsnapshot hmessage hversion hacc => exact absurd hacc accepted
        rw [hafter, hbefore, hsame]
    | opened hcall hresult hopened =>
        rw [hr] at hresult
        cases hresult
    | gone hcall hopens hresult hclosed =>
        rw [hr] at hresult
        cases hresult

variable (cfg) in
/-- The invariants of the configuration store, for every step of every run
    that starts without a database file. -/
theorem config_store_invariants (calls : List StoreCall) (c : StoreCall) :
    let past := trace (StoreCall.exec cfg) .fresh calls
    let st := perform (StoreCall.exec cfg) (runCalls (StoreCall.exec cfg) .fresh calls) c
    (∀ t, st.after.file = some t → Coherent cfg t) ∧
    (∀ t, st.before.file = some t → ∃ t', st.after.file = some t' ∧ t.Grows t') ∧
    (∀ token, Succeeds token st → ∃ s, st.before = .opened s ∧
      ((∃ r ∈ s.tables.snapshots, r.state = .prepared ∧ r.token = some token ∧
          lastIssued past = some token) ∨
        (st.after.file = st.before.file ∧ ∃ r ∈ s.tables.snapshots, r.state = .committed ∧
          r.token = some token ∧ r.version = s.tables.activeVersion ∧
          ∃ earlier ∈ past, Commits token r.version earlier))) ∧
    (Declined st → st.after.file = st.before.file) := by
  intro past st
  have hhistory : History cfg past st.before := run_history calls
  have hstep : Stepped cfg st := call_stepped hhistory.sound c
  refine ⟨fun t ht => (hstep.sound t ht).coherent, fun t ht => ?_, fun token hsucceeds => ?_,
    hstep.declined⟩
  · obtain ⟨t', ht', hgrows, -⟩ := hstep.advances.file t ht
    exact ⟨t', ht', hgrows⟩
  · obtain ⟨s, s', snapshot, hbefore, hafter, hcommitted⟩ := hstep.committed hsucceeds
    refine ⟨s, hbefore, ?_⟩
    cases hcommitted with
    | @promotes r hr htoken hstate hdecode hsame =>
        refine .inl ⟨r, hr, hstate, htoken, ?_⟩
        rw [← hhistory.current s hbefore r hr hstate, htoken]
    | @repeats r hr htoken hstate hactive hdecode hsame =>
        refine .inr ⟨?_, r, hr, hstate, htoken, hactive, ?_⟩
        · rw [hafter, hbefore, hsame]
          rfl
        · exact hhistory.origin s.tables (by rw [hbefore]; rfl) r hr hstate token htoken

end PlcnextIot.Config
