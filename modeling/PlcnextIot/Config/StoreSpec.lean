/-
  PlcnextIot.Config.StoreSpec

  What each operation of the configuration store does, from sound tables.

  A preparation is refused, which leaves the tables alone, or accepted, which
  is one of three things: the snapshot is the active one, it is stored already
  and prepared again, or it is inserted.  It raises in one case, when a new
  snapshot's content cannot be encoded for its hash.
-/

import PlcnextIot.Config.Invariants

namespace PlcnextIot.Config

open PlcnextIot.Python PlcnextIot.Contracts PlcnextIot.Contracts.Schema PlcnextIot.Effect
  PlcnextIot.Effect.Prog

variable [JsonSchema] {cfg : StoreConfig}

/-! ## Sessions -/

/-- The tables of an open store are sound. -/
def Session.Sound (cfg : StoreConfig) (s : Session) : Prop := s.tables.Sound cfg s.drawn

/-- The direction in which a session moves. -/
structure Session.Advances (cfg : StoreConfig) (s s' : Session) : Prop where
  drawn : s.drawn ≤ s'.drawn
  grows : s.tables.Grows s'.tables
  keeps : s.tables.Keeps cfg s.drawn s'.tables

omit [JsonSchema] in
theorem Session.Advances.refl (s : Session) : s.Advances cfg s :=
  ⟨le_refl _, .refl _, .refl cfg _⟩

omit [JsonSchema] in
theorem Session.Advances.trans {a b c : Session} (h : a.Advances cfg b) (h' : b.Advances cfg c) :
    a.Advances cfg c :=
  ⟨h.drawn.trans h'.drawn, h.grows.trans h'.grows, h.keeps.trans cfg h'.keeps h.drawn⟩

/-! ## Snapshots that were parsed -/

section Parsed

variable {payload : Bytes} {snapshot : ConfigSnapshot}

/-- The row of a parsed snapshot decodes to that snapshot. -/
theorem decode_inserted (hparse : ConfigSnapshot.parse payload cfg.gatewayId = .ok snapshot)
    {hash : PyStr} (hhash : snapshot.contentHash = .ok hash) (state : SnapshotState)
    (token : Option PyStr) :
    decode cfg ⟨snapshot.configVersion, snapshot.wireJson, hash, state, token⟩ = .ok snapshot := by
  obtain ⟨message, hparsed, -⟩ := parse_eq_ok hparse
  unfold decode
  rw [hparsed.encoded]
  simp [hparse, hhash]

/-- Decoding a row again gives the same snapshot, of the row's version. -/
theorem decode_version {row : SnapshotRow} (h : decode cfg row = .ok snapshot) :
    snapshot.configVersion = row.version := by
  unfold decode at h
  split at h
  · cases h
  split at h
  · cases h
  · split at h <;> cases h
  · split at h
    · cases h
    · rename_i hversion
      split at h
      · cases h
      · split at h
        · cases h
        · cases h
          exact not_not.mp hversion

end Parsed

/-! ## Refusals -/

section Refusal

variable {drawn : Nat} {t : Tables} {payload : Bytes} {snapshot : ConfigSnapshot}
  {digest kind : Option PyStr}

/-- What the checks of `_prepare` leave. -/
structure Admitted (cfg : StoreConfig) (t : Tables) (snapshot : ConfigSnapshot)
    (digest kind : Option PyStr) : Prop where
  receipt : ∀ q ∈ t.requests, q.messageId = snapshot.messageId →
    q.version = snapshot.configVersion ∧ q.commandDigest = digest ∧ q.commandKind = kind
  version : t.activeVersion ≤ snapshot.configVersion
  content : ∀ row saved, t.snapshot? snapshot.configVersion = some row →
    decode cfg row = .ok saved → saved.contentJson = snapshot.contentJson
  single : snapshot.configVersion ≠ t.activeVersion →
    ∀ r ∈ t.snapshots, r.state = .prepared → r.version = snapshot.configVersion

omit [JsonSchema] in
theorem receiptDiffers_eq_false {q : RequestRow} {version : ℤ} {digest kind : Option PyStr} :
    receiptDiffers q version digest kind = false ↔
      q.version = version ∧ q.commandDigest = digest ∧ q.commandKind = kind := by
  simp [receiptDiffers]
  tauto

theorem contentDiffers_returns (hs : t.Sound cfg drawn) (snapshot : ConfigSnapshot) :
    Returns (contentDiffers cfg t snapshot) fun differs => differs = false →
      ∀ row saved, t.snapshot? snapshot.configVersion = some row →
        decode cfg row = .ok saved → saved.contentJson = snapshot.contentJson := by
  unfold contentDiffers
  cases hrow : t.snapshot? snapshot.configVersion with
  | none => exact .ok fun _ row saved h => nomatch h
  | some row =>
      obtain ⟨saved, hsaved⟩ := (hs.decodes row (Tables.mem_of_snapshot? hrow).1).2
      refine Returns.bind (P := fun s => s = saved) ⟨saved, hsaved, rfl⟩ ?_
      rintro _ rfl
      refine .pure fun hsame row' saved' hrow' hsaved' => ?_
      cases hrow'
      rw [hsaved] at hsaved'
      cases hsaved'
      simpa using hsame

theorem overQuota_returns (t : Tables)
    (hparse : ConfigSnapshot.parse payload cfg.gatewayId = .ok snapshot) :
    Returns (overQuota cfg t snapshot) fun _ => True := by
  obtain ⟨message, hparsed, -⟩ := parse_eq_ok hparse
  unfold overQuota
  rw [hparsed.encoded]
  split
  · exact .ok trivial
  · split <;> exact .ok trivial

/-- On sound tables the checks come to an end, and what passes is admitted. -/
theorem refusal_returns (hs : t.Sound cfg drawn)
    (hparse : ConfigSnapshot.parse payload cfg.gatewayId = .ok snapshot)
    (digest kind : Option PyStr) :
    Returns (refusal cfg t snapshot digest kind) fun code =>
      code = none → Admitted cfg t snapshot digest kind := by
  unfold refusal
  by_cases hreceipt : (t.request? snapshot.messageId).any
      (fun r => receiptDiffers r snapshot.configVersion digest kind) = true
  · simp only [hreceipt, if_true]
    exact .pure nofun
  by_cases hstale : snapshot.configVersion < t.activeVersion
  · simp only [hreceipt, hstale, if_true, if_false, Bool.false_eq_true]
    exact .pure nofun
  simp only [hreceipt, hstale, if_false, Bool.false_eq_true]
  refine Returns.bind (contentDiffers_returns hs snapshot) fun differs hcontent => ?_
  by_cases hdiffers : differs = true
  · simp only [hdiffers, if_true]
    exact .pure nofun
  simp only [hdiffers, if_false, Bool.false_eq_true]
  split
  · exact .pure nofun
  rename_i hsingle
  split
  · exact .pure nofun
  refine Returns.bind (overQuota_returns t hparse) fun exceeds _ => ?_
  split
  · exact .pure nofun
  refine .pure fun _ => ⟨?_, not_lt.mp hstale, hcontent (by simpa using hdiffers), ?_⟩
  · intro q hq hmessage
    have hfound : t.request? snapshot.messageId = some q := by
      rw [← hmessage]
      exact hs.request?_eq_some hq
    rw [hfound, Option.any_some, Bool.not_eq_true, receiptDiffers_eq_false] at hreceipt
    exact hreceipt
  · intro hne r hr hprepared
    by_contra hversion
    exact hsingle ⟨hne, by simpa using ⟨r, hr, hprepared, hversion⟩⟩

end Refusal

/-! ## Preparation -/

section Prepare

variable {s : Session} {payload : Bytes} {snapshot : ConfigSnapshot} {digest kind : Option PyStr}

/-- The token of a preparation. -/
inductive TokenOf (cfg : StoreConfig) (s : Session) (version : ℤ) :
    Option PyStr → Session → Prop where
  | active (h : version = s.tables.activeVersion) : TokenOf cfg s version none s
  | kept {row : SnapshotRow} (h : version ≠ s.tables.activeVersion)
      (hrow : s.tables.snapshot? version = some row) (hstate : row.state = .prepared) :
      TokenOf cfg s version row.token s
  | drawn (h : version ≠ s.tables.activeVersion)
      (hrow : ∀ row, s.tables.snapshot? version = some row → row.state ≠ .prepared) :
      TokenOf cfg s version (some (cfg.uuid s.drawn)) { s with drawn := s.drawn + 1 }

omit [JsonSchema] in
theorem tokenFor_spec (version : ℤ) :
    wp (tokenFor cfg s.tables version) (fun token s' => TokenOf cfg s version token s')
      (fun _ _ => False) s := by
  unfold tokenFor
  by_cases h : version = s.tables.activeVersion
  · rw [if_pos h]
    exact .active h
  · rw [if_neg h]
    cases hrow : s.tables.snapshot? version with
    | none => exact .drawn h fun row hr => by rw [hrow] at hr; cases hr
    | some row =>
        dsimp only
        by_cases hstate : row.state = .prepared
        · rw [if_pos hstate]
          exact .kept h hrow hstate
        · rw [if_neg hstate]
          refine .drawn h fun row' hr => ?_
          rw [hrow] at hr
          cases hr
          exact hstate

omit [JsonSchema] in
theorem TokenOf.tables {version : ℤ} {token : Option PyStr} {s' : Session}
    (h : TokenOf cfg s version token s') : s'.tables = s.tables ∧ s.drawn ≤ s'.drawn := by
  cases h with
  | active h => exact ⟨rfl, le_refl _⟩
  | kept h hrow hstate => exact ⟨rfl, le_refl _⟩
  | drawn h hrow => exact ⟨rfl, Nat.le_succ _⟩

/-- An accepted preparation: the row of the version and the request that names
    it are there, and the answer says which of the two kinds it is. -/
structure Accepted (cfg : StoreConfig) (snapshot : ConfigSnapshot) (digest kind : Option PyStr)
    (t : Tables) (r : PrepareResult) (t' : Tables) : Prop where
  active : r.activeConfigVersion = t.activeVersion
  candidate : r.snapshot = if kind.isSome then some snapshot else none
  pointer : t'.active = t.active
  hashed : t.snapshot? snapshot.configVersion = none → ∃ hash, snapshot.contentHash = .ok hash
  request : ∃ q ∈ t'.requests, q.messageId = snapshot.messageId ∧
    q.version = snapshot.configVersion ∧ q.commandDigest = digest ∧ q.commandKind = kind
  committed : ∀ r' ∈ t'.snapshots, r'.state = .committed → r' ∈ t.snapshots
  row : ∃ row ∈ t'.snapshots, row.version = snapshot.configVersion ∧
    (∃ saved, decode cfg row = .ok saved ∧ saved.contentJson = snapshot.contentJson) ∧
    ((r.status = .prepared ∧ t.activeVersion < snapshot.configVersion ∧ row.state = .prepared ∧
        r.token = row.token ∧ r.token.isSome ∧ r.appliedConfigVersion = none) ∨
      (r.status = .applied ∧ snapshot.configVersion = t.activeVersion ∧ row.state = .committed ∧
        r.token = none ∧ t'.snapshots = t.snapshots ∧
        r.appliedConfigVersion = if kind.isSome then some snapshot.configVersion else none))

omit [JsonSchema] in
theorem tokenFree_eq {t : Tables} {version : ℤ} {token : Option PyStr}
    (h : ∀ r ∈ t.snapshots, r.token = token → token.isSome → r.version = version) :
    t.tokenFree version token = true := by
  cases token with
  | none => rfl
  | some k =>
      simp only [Tables.tokenFree, Option.isNone_some, Bool.false_or, List.all_eq_true,
        Bool.or_eq_true, decide_eq_true_eq]
      intro r hr
      by_cases hv : r.version = version
      · exact .inl hv
      · exact .inr (by simpa using fun htoken => hv (h r hr htoken rfl))

/-- The tables `t` after the snapshot row of an admitted preparation was
    written, and that row. -/
structure Written (cfg : StoreConfig) (snapshot : ConfigSnapshot) (token : Option PyStr)
    (s s' : Session) (t : Tables) (row : SnapshotRow) : Prop where
  sound : t.Sound cfg s'.drawn
  grows : s.tables.Grows t
  keeps : s.tables.Keeps cfg s.drawn t
  pointer : t.active = s.tables.active
  requests : t.requests = s.tables.requests
  mem : row ∈ t.snapshots
  version : row.version = snapshot.configVersion
  content : ∃ saved, decode cfg row = .ok saved ∧ saved.contentJson = snapshot.contentJson
  inserted : s.tables.snapshot? snapshot.configVersion = none →
    (∃ hash, snapshot.contentHash = .ok hash) ∧ decode cfg row = .ok snapshot
  same : ∀ old, s.tables.snapshot? snapshot.configVersion = some old → old.Same row
  committed : ∀ r ∈ t.snapshots, r.state = .committed → r ∈ s.tables.snapshots
  outcome : snapshot.configVersion = s.tables.activeVersion ∧ row.state = .committed ∧
      token = none ∧ t = s.tables ∨
    s.tables.activeVersion < snapshot.configVersion ∧ row.state = .prepared ∧
      row.token = token ∧ token.isSome

theorem writeSnapshot_spec {token : Option PyStr} {s' : Session} (hs : s.Sound cfg)
    (hparse : ConfigSnapshot.parse payload cfg.gatewayId = .ok snapshot)
    (hadmitted : Admitted cfg s.tables snapshot digest kind)
    (htoken : TokenOf cfg s snapshot.configVersion token s') :
    (s.tables.snapshot? snapshot.configVersion = none ∧
        snapshot.contentHash = .error .unicodeEncodeError ∧
        writeSnapshot s.tables snapshot token = .error (.python .unicodeEncodeError)) ∨
      ∃ t row, writeSnapshot s.tables snapshot token = .ok t ∧
        Written cfg snapshot token s s' t row := by
  obtain ⟨message, hparsed, -⟩ := parse_eq_ok hparse
  have hversion_pos := hparsed.version_pos
  unfold writeSnapshot
  cases hrow : s.tables.snapshot? snapshot.configVersion with
  | none =>
      -- a version that is not stored is not the active one, so a token was drawn
      have hnew := Tables.snapshot?_none.mp hrow
      have hne : snapshot.configVersion ≠ s.tables.activeVersion := by
        intro heq
        obtain ⟨r, hr, hv, -⟩ := hs.active_row (by omega)
        exact hnew r hr (hv.trans heq.symm)
      have hlt : s.tables.activeVersion < snapshot.configVersion :=
        lt_of_le_of_ne hadmitted.version (Ne.symm hne)
      cases htoken with
      | active h => exact absurd h hne
      | kept _ hrow' _ =>
          rw [hrow] at hrow'
          cases hrow'
      | drawn _ _ =>
          dsimp only
          cases hhash : snapshot.contentHash with
          | error e =>
              have he : e = .unicodeEncodeError := by
                unfold ConfigSnapshot.contentHash at hhash
                split at hhash <;> cases hhash
                rfl
              exact .inl ⟨rfl, by rw [he], by rw [he]⟩
          | ok hash =>
              have hdecode := decode_inserted hparse hhash .prepared (some (cfg.uuid s.drawn))
              have hfresh : ∀ r ∈ s.tables.snapshots, r.token ≠ some (cfg.uuid s.drawn) := by
                intro r hr heq
                obtain ⟨n, hn, hn'⟩ := hs.issued r hr _ heq
                exact absurd (cfg.uuid_injective hn') (by omega)
              have hsingle : ∀ r ∈ s.tables.snapshots, r.state ≠ .prepared :=
                fun r hr hp => hnew r hr (hadmitted.single hne r hr hp)
              refine .inr ⟨_, _, ?_, hs.addSnapshot hrow hversion_pos ⟨_, hdecode⟩ rfl hlt hsingle
                rfl, Tables.addSnapshot_grows _, Tables.addSnapshot_keeps rfl, rfl, rfl,
                List.mem_append_right _ List.mem_cons_self, rfl, ⟨_, hdecode, rfl⟩,
                fun _ => ⟨⟨hash, hhash⟩, hdecode⟩, fun old hold => ?_, fun r hr hc => ?_,
                .inr ⟨hlt, rfl, rfl, rfl⟩⟩
              rotate_left
              · rw [hrow] at hold
                cases hold
              · rcases List.mem_append.mp hr with hr | hr
                · exact hr
                · rw [List.mem_singleton.mp hr] at hc
                  cases hc
              show Tables.insertSnapshot _ _ = _
              rw [Tables.insertSnapshot, if_pos]
              · rfl
              · exact ⟨hversion_pos, hrow, tokenFree_eq fun r hr h _ => absurd h (hfresh r hr)⟩
  | some row =>
      obtain ⟨hmem, hv⟩ := Tables.mem_of_snapshot? hrow
      obtain ⟨saved, hsaved⟩ := (hs.decodes row hmem).2
      have hcontent := hadmitted.content row saved hrow hsaved
      have hstored : s.tables.snapshot? snapshot.configVersion ≠ none := by
        rw [hrow]
        nofun
      by_cases heq : snapshot.configVersion = s.tables.activeVersion
      · -- the active version is stored, and committed
        have hcommitted : row.state = .committed := by
          obtain ⟨r, hr, hv', hc, -⟩ := hs.active_row (by omega)
          rwa [hs.versions.eq_of_key hr hmem (hv'.trans (heq.symm.trans hv.symm))] at hc
        have hs' : s' = s ∧ token = none := by
          cases htoken with
          | active h => exact ⟨rfl, rfl⟩
          | kept h _ _ => exact absurd heq h
          | drawn h _ => exact absurd heq h
        obtain ⟨rfl, rfl⟩ := hs'
        refine .inr ⟨s'.tables, row, by rw [if_pos heq], hs, .refl _, .refl cfg _, rfl, rfl, hmem,
          hv, ⟨saved, hsaved, hcontent⟩, fun h => absurd h hstored, ?_,
          fun _ hr _ => hr, .inl ⟨heq, hcommitted, rfl, rfl⟩⟩
        intro old hold
        rw [hrow] at hold
        cases hold
        exact .refl row
      · have hlt : s.tables.activeVersion < snapshot.configVersion :=
          lt_of_le_of_ne hadmitted.version (Ne.symm heq)
        have hsingle := hadmitted.single heq
        have hmarked : ∀ token : Option PyStr,
            ({ row with state := .prepared, token } : SnapshotRow) ∈
              (s.tables.mark snapshot.configVersion .prepared token).snapshots :=
          fun token => Tables.mem_mark.mpr ⟨row, hmem, ⟨rfl, rfl, rfl⟩, .inl ⟨hv, rfl, rfl⟩⟩
        have hsame : ∀ token : Option PyStr,
            row.Same { row with state := .prepared, token } := fun _ => ⟨rfl, rfl, rfl⟩
        have hdecode : ∀ token : Option PyStr,
            decode cfg { row with state := .prepared, token } = .ok saved :=
          fun token => (decode_same cfg (hsame token)).trans hsaved
        have hold : ∀ token : Option PyStr, ∀ old,
            s.tables.snapshot? snapshot.configVersion = some old →
              old.Same { row with state := .prepared, token } := by
          intro token old h
          rw [hrow] at h
          cases h
          exact hsame token
        have hcommitted : ∀ token : Option PyStr, ∀ r ∈ (s.tables.mark snapshot.configVersion
            .prepared token).snapshots, r.state = .committed → r ∈ s.tables.snapshots := by
          intro token r hr hc
          obtain ⟨r0, hr0, -, ⟨-, hstate, -⟩ | ⟨-, rfl⟩⟩ := Tables.mem_mark.mp hr
          · rw [hstate] at hc
            cases hc
          · exact hr0
        dsimp only
        rw [if_neg heq, Tables.updateSnapshot]
        cases htoken with
        | active h => exact absurd h heq
        | kept h hrow' hstate =>
            rw [hrow] at hrow'
            cases hrow'
            have hsome := hs.tokens row hmem hstate
            have howner : ∀ r ∈ s.tables.snapshots, r.token = row.token → row.token.isSome →
                r.version = snapshot.configVersion := by
              intro r hr htoken _
              rw [hs.distinct r hr row hmem htoken (htoken ▸ hsome)]
              exact hv
            refine .inr ⟨s.tables.mark snapshot.configVersion .prepared row.token, _, ?_,
              hs.mark nofun hlt (fun _ => ⟨hsome, hsingle⟩) ?_, hs.mark_grows hlt _ _,
              Tables.mark_keeps (.inr ?_), rfl, rfl, hmarked row.token, hv,
              ⟨saved, hdecode _, hcontent⟩, fun h => absurd h hstored, hold _,
              hcommitted _, .inr ⟨hlt, rfl, rfl, hsome⟩⟩
            · rw [if_pos (tokenFree_eq howner)]
              rfl
            · intro k hk
              exact ⟨hs.issued row hmem k hk,
                fun r hr h' => howner r hr (h'.trans hk.symm) hsome⟩
            · intro r hr hrv _
              rw [hs.versions.eq_of_key hr hmem (hrv.trans hv.symm)]
        | drawn h hnot =>
            have hfresh : ∀ r ∈ s.tables.snapshots, r.token ≠ some (cfg.uuid s.drawn) := by
              intro r hr heq
              obtain ⟨n, hn, hn'⟩ := hs.issued r hr _ heq
              exact absurd (cfg.uuid_injective hn') (by omega)
            refine .inr ⟨s.tables.mark snapshot.configVersion .prepared
                (some (cfg.uuid s.drawn)), _, ?_,
              (hs.mono (Nat.le_succ _)).mark nofun hlt (fun _ => ⟨rfl, hsingle⟩) ?_,
              hs.mark_grows hlt _ _, Tables.mark_keeps (.inl rfl), rfl, rfl, hmarked _, hv,
              ⟨saved, hdecode _, hcontent⟩, fun h => absurd h hstored, hold _,
              hcommitted _, .inr ⟨hlt, rfl, rfl, rfl⟩⟩
            · rw [if_pos (tokenFree_eq fun r hr h _ => absurd h (hfresh r hr))]
              rfl
            · intro k hk
              cases hk
              exact ⟨⟨s.drawn, Nat.lt_succ_self _, rfl⟩, fun r hr h => absurd h (hfresh r hr)⟩

/-- An admitted preparation is accepted, unless the content of a new snapshot
    cannot be encoded. -/
theorem acceptSnapshot_spec (hs : s.Sound cfg)
    (hparse : ConfigSnapshot.parse payload cfg.gatewayId = .ok snapshot)
    (hadmitted : Admitted cfg s.tables snapshot digest kind)
    (hcommand : kind = some patchKind → ∀ row saved,
      s.tables.snapshot? snapshot.configVersion = some row → decode cfg row = .ok saved →
        saved.messageId = snapshot.messageId) :
    wp (acceptSnapshot cfg s.tables snapshot digest kind)
      (fun r s' => Accepted cfg snapshot digest kind s.tables r s'.tables ∧ s'.Sound cfg ∧
        s.Advances cfg s')
      (fun e s' => s.drawn ≤ s'.drawn ∧ e = .python .unicodeEncodeError ∧
        s.tables.snapshot? snapshot.configVersion = none ∧
        snapshot.contentHash = .error .unicodeEncodeError) s := by
  unfold acceptSnapshot
  rw [wp_bind]
  refine (tokenFor_spec snapshot.configVersion).mono (fun token s' htoken => ?_) nofun
  obtain ⟨htables, hdrawn⟩ := htoken.tables
  rw [wp_bind]
  rcases writeSnapshot_spec hs hparse hadmitted htoken with
    ⟨hnew, hhash, hwrite⟩ | ⟨t, row, hwrite, h⟩
  · rw [hwrite]
    exact ⟨hdrawn, rfl, hnew, hhash⟩
  rw [hwrite, wp_result_ok]
  have hstatus : (if snapshot.configVersion = s.tables.activeVersion then
      RequestStatus.applied else .prepared) = .applied ↔ row.state = .committed := by
    rcases h.outcome with ⟨heq, hstate, -, -⟩ | ⟨hlt, hstate, -⟩
    · rw [if_pos heq, hstate]
      exact ⟨fun _ => rfl, fun _ => rfl⟩
    · rw [if_neg (ne_of_gt hlt), hstate]
      exact ⟨nofun, nofun⟩
  have hmessage : kind = some patchKind → ∀ saved, decode cfg row = .ok saved →
      saved.messageId = snapshot.messageId := by
    intro hkind saved hsaved
    cases hrow : s.tables.snapshot? snapshot.configVersion with
    | none =>
        rw [(h.inserted hrow).2] at hsaved
        cases hsaved
        rfl
    | some old =>
        rw [decode_same cfg (h.same old hrow)] at hsaved
        exact hcommand hkind old saved hrow hsaved
  have hreceipt : ∀ q ∈ t.requests, q.messageId = snapshot.messageId →
      q.version = snapshot.configVersion ∧ q.commandDigest = digest ∧ q.commandKind = kind := by
    rw [h.requests]
    exact hadmitted.receipt
  let q : RequestRow := ⟨snapshot.messageId, snapshot.configVersion,
    if snapshot.configVersion = s.tables.activeVersion then .applied else .prepared, digest, kind⟩
  have hsound : (t.record q).Sound cfg s'.drawn :=
    h.sound.record h.mem h.version hstatus hmessage fun q' hq' hm => (hreceipt q' hq' hm).1
  have hupsert : t.upsertRequest q = .ok (t.record q) := Tables.upsertRequest_eq h.mem h.version
  -- the two assignments of the tables, around the second statement
  rw [wp_bind]
  show wp (result (t.upsertRequest q) >>= _) _ _ { s' with tables := t }
  rw [wp_bind, hupsert, wp_result_ok, wp_bind]
  refine ⟨⟨rfl, rfl, ?_, fun hnone => (h.inserted hnone).1, ?_, ?_, row, ?_, h.version,
    h.content, ?_⟩, hsound, hdrawn, h.grows.trans (Tables.record_grows q),
    h.keeps.trans cfg (Tables.record_keeps q) (le_refl _)⟩
  · show (t.record q).active = s.tables.active
    rw [Tables.record_active, h.pointer]
  · show ∃ q' ∈ (t.record q).requests, _
    rcases Tables.record_requests t q with ⟨-, heq⟩ | ⟨hold, heq⟩
    · rw [heq]
      exact ⟨q, List.mem_append_right _ List.mem_cons_self, rfl, rfl, rfl, rfl⟩
    · rw [heq]
      obtain ⟨q0, hq0⟩ := Option.ne_none_iff_exists'.mp hold
      obtain ⟨hmem, hm⟩ := Tables.mem_of_request? hq0
      obtain ⟨hv, hd, hk⟩ := hreceipt q0 hmem hm
      refine ⟨_, List.mem_map_of_mem hmem, ?_⟩
      rw [if_pos hm]
      exact ⟨hm, hv, hd, hk⟩
  · show ∀ r' ∈ (t.record q).snapshots, _
    rw [Tables.record_snapshots]
    exact h.committed
  · show row ∈ (t.record q).snapshots
    rw [Tables.record_snapshots]
    exact h.mem
  · rcases h.outcome with ⟨heq, hstate, htok, ht⟩ | ⟨hlt, hstate, htok, hsome⟩
    · refine .inr ⟨if_pos heq, heq, hstate, htok, ?_, ?_⟩
      · show (t.record q).snapshots = s.tables.snapshots
        rw [Tables.record_snapshots, ht]
      show (if kind.isSome = true ∧ snapshot.configVersion = s.tables.activeVersion then _
        else _) = _
      by_cases hk : kind.isSome
      · rw [if_pos ⟨hk, heq⟩, if_pos hk]
      · rw [if_neg (fun h => hk h.1), if_neg hk]
    · exact .inl ⟨if_neg (ne_of_gt hlt), hlt, hstate, htok.symm, hsome,
        if_neg (fun h => ne_of_gt hlt h.2)⟩

/-- `_prepare` refuses and leaves the tables alone, or goes on to write. -/
theorem prepareSnapshot_spec (hs : s.Sound cfg)
    (hparse : ConfigSnapshot.parse payload cfg.gatewayId = .ok snapshot)
    (hcommand : kind = some patchKind → ∀ row saved,
      s.tables.snapshot? snapshot.configVersion = some row → decode cfg row = .ok saved →
        saved.messageId = snapshot.messageId) :
    wp (prepareSnapshot cfg snapshot digest kind)
      (fun r s' => (∃ code, refusal cfg s.tables snapshot digest kind = .ok (some code) ∧
          r = rejected s.tables.activeVersion code ∧ s' = s) ∨
        Accepted cfg snapshot digest kind s.tables r s'.tables ∧ s'.Sound cfg ∧ s.Advances cfg s')
      (fun e s' => s.drawn ≤ s'.drawn ∧ e = .python .unicodeEncodeError ∧
        refusal cfg s.tables snapshot digest kind = .ok none ∧
        s.tables.snapshot? snapshot.configVersion = none ∧
        snapshot.contentHash = .error .unicodeEncodeError) s := by
  obtain ⟨code, hcode, hallowed⟩ := refusal_returns hs hparse digest kind
  rw [prepareSnapshot, wp_bind, wp_gets, wp_bind, hcode, wp_result_ok]
  cases code with
  | some code => exact .inl ⟨code, rfl, rfl, rfl⟩
  | none =>
      refine (acceptSnapshot_spec hs hparse (hallowed rfl) hcommand).mono (fun r s' h => .inr h) ?_
      rintro e s' ⟨hdrawn, he, hnew, hhash⟩
      exact ⟨hdrawn, he, rfl, hnew, hhash⟩

end Prepare

/-! ## Commands -/

section Patch

variable {s : Session} {drawn : Nat} {t : Tables} {command : Json} {messageId digest : PyStr}
  {version : ℤ}

omit [JsonSchema] in
/-- A command that conforms has a key. -/
theorem commandKey_returns (h : Protocol.configPatch command = true) :
    Returns (commandKey command) fun _ => True := by
  have hrecord := configPatch_record h
  have hmessage : Returns (item command "messageId") fun v => Protocol.id v = true :=
    record_item hrecord (by simp) (by simp [Protocol.header])
  have hversion : Returns (item command "configVersion") fun v => Protocol.positiveInt v = true :=
    record_item hrecord (by simp) (by simp [Protocol.header])
  refine (strItem_returns hmessage fun _ => matching_str).bind fun _ _ => ?_
  exact (holds_normalize hversion).intItem.bind fun _ _ => .pure trivial

omit [JsonSchema] in
theorem commandKey_eq_ok (h : commandKey command = .ok (messageId, version)) :
    strItem command "messageId" = .ok messageId ∧
      intItem (normalize command) "configVersion" = .ok version := by
  obtain ⟨m, hm, h⟩ := bind_eq_ok h
  obtain ⟨v, hv, h⟩ := bind_eq_ok h
  cases h
  exact ⟨hm, hv⟩

/-- The answer to a command that was applied. -/
def replayed (t : Tables) (version : ℤ) : PrepareResult :=
  { status := .applied, activeConfigVersion := t.activeVersion,
    appliedConfigVersion := some version }

/-- The receipt of an applied command is consistent. -/
theorem replay_eq (hs : t.Sound cfg drawn) {q : RequestRow} (hq : q ∈ t.requests)
    (hkind : q.commandKind = some patchKind) (happlied : q.status = .applied) :
    replay cfg t q q.messageId = .ok (replayed t q.version) := by
  obtain ⟨r, hr, hversion, hiff⟩ := hs.applied q hq
  have hcommitted := hiff.mp happlied
  have holder := hs.older r hr hcommitted
  obtain ⟨saved, hsaved⟩ := (hs.decodes r hr).2
  have hmessage := hs.commands q hq hkind r hr hversion saved hsaved
  unfold replay
  rw [← hversion, hs.snapshot?_eq_some hr]
  have hnot : ¬ (r.state ≠ .committed ∨ t.activeVersion < r.version) := by
    rintro (h | h)
    · exact h hcommitted
    · omega
  dsimp only
  rw [if_neg hnot, hsaved]
  simp [bind, Except.bind, hmessage, replayed, pure, Except.pure]

theorem versionTaken_returns (hs : t.Sound cfg drawn) (version : ℤ) (messageId : PyStr) :
    Returns (versionTaken cfg t version messageId) fun taken => taken = false →
      ∀ row saved, t.snapshot? version = some row → decode cfg row = .ok saved →
        saved.messageId = messageId := by
  unfold versionTaken
  cases hrow : t.snapshot? version with
  | none => exact .ok fun _ row saved h => nomatch h
  | some row =>
      obtain ⟨saved, hsaved⟩ := (hs.decodes row (Tables.mem_of_snapshot? hrow).1).2
      refine Returns.bind (P := fun s => s = saved) ⟨saved, hsaved, rfl⟩ ?_
      rintro _ rfl
      refine .pure fun hsame row' saved' hrow' hsaved' => ?_
      cases hrow'
      rw [hsaved] at hsaved'
      cases hsaved'
      simpa using hsame

/-- A receipt of other bytes, of another kind or for another version. -/
theorem patchStep_conflict {q : RequestRow} (hq : t.request? messageId = some q)
    (h : receiptDiffers q version (some digest) (some patchKind) = true) :
    patchStep cfg t command messageId version digest
      = .ok (.answer (rejected t.activeVersion (py "MESSAGE_ID_CONFLICT"))) := by
  unfold patchStep
  rw [hq]
  simp only [h, if_true]
  rfl

/-- The receipt of this command, applied. -/
theorem patchStep_replay (hs : t.Sound cfg drawn) {q : RequestRow} (hq : q ∈ t.requests)
    (hsame : q.messageId = messageId ∧ q.version = version ∧ q.commandDigest = some digest ∧
      q.commandKind = some patchKind) (happlied : q.status = .applied) :
    patchStep cfg t command messageId version digest = .ok (.answer (replayed t version)) := by
  obtain ⟨rfl, rfl, hdigest, hkind⟩ := hsame
  have hdiffers : receiptDiffers q q.version (some digest) (some patchKind) = false :=
    receiptDiffers_eq_false.mpr ⟨rfl, hdigest, hkind⟩
  unfold patchStep
  rw [hs.request?_eq_some hq]
  simp only [hdiffers, happlied, if_true, Bool.false_eq_true, if_false]
  rw [replay_eq hs hq hkind happlied]
  rfl

/-- What a command meets: a refusal, its own applied receipt, or nothing, and
    then it is materialised against the active snapshot. -/
inductive PatchOutcome (cfg : StoreConfig) (t : Tables) (command : Json) (messageId : PyStr)
    (version : ℤ) (digest : PyStr) : Except StoreExc PatchStep → Prop where
  | refused {r : PrepareResult} (hstatus : r.status = .rejected) (htoken : r.token = none) :
      PatchOutcome cfg t command messageId version digest (.ok (.answer r))
  | replays {q : RequestRow} (hq : q ∈ t.requests) (hmessage : q.messageId = messageId)
      (hversion : q.version = version) (happlied : q.status = .applied) :
      PatchOutcome cfg t command messageId version digest (.ok (.answer (replayed t version)))
  | candidate {active : Option ConfigSnapshot} {snapshot : ConfigSnapshot}
      (hactive : loadActive cfg t = .ok active)
      (hsnapshot : materialize command active cfg.gatewayId = .ok snapshot)
      (hfree : ∀ row saved, t.snapshot? version = some row → decode cfg row = .ok saved →
        saved.messageId = messageId) :
      PatchOutcome cfg t command messageId version digest (.ok (.candidate snapshot))
  | raises {active : Option ConfigSnapshot} {e : PyExc} (hactive : loadActive cfg t = .ok active)
      (hraise : materialize command active cfg.gatewayId = .error (.python e)) :
      PatchOutcome cfg t command messageId version digest (.error (.python e))

theorem materializeStep_outcome (hs : t.Sound cfg drawn)
    (hfree : ∀ row saved, t.snapshot? version = some row → decode cfg row = .ok saved →
      saved.messageId = messageId) :
    PatchOutcome cfg t command messageId version digest (materializeStep cfg t command) := by
  have hactive : ∃ active, loadActive cfg t = .ok active := by
    rcases hs.loadActive_returns with ⟨-, h⟩ | ⟨_, s, -, -, -, -, h⟩
    · exact ⟨_, h⟩
    · exact ⟨_, h⟩
  obtain ⟨active, hactive⟩ := hactive
  unfold materializeStep
  rw [hactive]
  dsimp only [bind, Except.bind]
  cases hm : materialize command active cfg.gatewayId with
  | ok snapshot => exact .candidate hactive hm hfree
  | error e =>
      cases e with
      | validation issues => exact .refused rfl rfl
      | python e => exact .raises hactive hm

theorem patchStep_outcome (hs : t.Sound cfg drawn) :
    PatchOutcome cfg t command messageId version digest
      (patchStep cfg t command messageId version digest) := by
  have hrest : PatchOutcome cfg t command messageId version digest (do
      if ← versionTaken cfg t version messageId then
        return .answer (rejected t.activeVersion (py "VERSION_CONFLICT"))
      materializeStep cfg t command) := by
    obtain ⟨taken, htaken, hfree⟩ := versionTaken_returns hs version messageId
    rw [htaken]
    cases taken with
    | true => exact .refused rfl rfl
    | false => exact materializeStep_outcome hs (hfree rfl)
  cases hq : t.request? messageId with
  | none =>
      unfold patchStep
      rw [hq]
      exact hrest
  | some q =>
      obtain ⟨hmem, hmessage⟩ := Tables.mem_of_request? hq
      cases hdiffers : receiptDiffers q version (some digest) (some patchKind) with
      | true =>
          rw [patchStep_conflict hq hdiffers]
          exact .refused rfl rfl
      | false =>
          obtain ⟨hv, hd, hk⟩ := receiptDiffers_eq_false.mp hdiffers
          by_cases happlied : q.status = .applied
          · rw [patchStep_replay hs hmem ⟨hmessage, hv, hd, hk⟩ happlied]
            exact .replays hmem hmessage hv happlied
          · unfold patchStep
            rw [hq]
            simp only [hdiffers, happlied, Bool.false_eq_true, if_false]
            exact hrest

/-- What `materialize` returns is a parsed snapshot of the command. -/
theorem materialize_parsed {active : Option ConfigSnapshot} {snapshot : ConfigSnapshot}
    (hc : command.Loaded) (hkey : commandKey command = .ok (messageId, version))
    (h : materialize command active cfg.gatewayId = .ok snapshot) :
    (∃ payload, ConfigSnapshot.parse payload cfg.gatewayId = .ok snapshot) ∧
      snapshot.messageId = messageId ∧ snapshot.configVersion = version := by
  obtain ⟨config, full, payload, -, -, -, hparse, -⟩ := materialize_eq_ok hc h
  obtain ⟨hmessage, hversion⟩ := commandKey_eq_ok hkey
  obtain ⟨hmessage', hversion'⟩ := materialize_identity hc h
  rw [hmessage] at hmessage'
  rw [hversion] at hversion'
  cases hmessage'
  cases hversion'
  exact ⟨⟨payload, hparse⟩, rfl, rfl⟩

/-- How `prepare_patch` ends once it holds the write lock. -/
inductive PatchResult (cfg : StoreConfig) (s : Session) (command : Json) (messageId : PyStr)
    (version : ℤ) (digest : PyStr) (r : PrepareResult) (s' : Session) : Prop where
  | refused (hstatus : r.status = .rejected) (htoken : r.token = none) (hsame : s' = s)
  | replays {q : RequestRow} (hq : q ∈ s.tables.requests) (hmessage : q.messageId = messageId)
      (hversion : q.version = version) (happlied : q.status = .applied)
      (hr : r = replayed s.tables version) (hsame : s' = s)
  | accepted {active : Option ConfigSnapshot} {snapshot : ConfigSnapshot}
      (hactive : loadActive cfg s.tables = .ok active)
      (hsnapshot : materialize command active cfg.gatewayId = .ok snapshot)
      (hmessage : snapshot.messageId = messageId) (hversion : snapshot.configVersion = version)
      (h : Accepted cfg snapshot (some digest) (some patchKind) s.tables r s'.tables)

theorem patchBody_spec (hs : s.Sound cfg) (hc : command.Loaded)
    (hkey : commandKey command = .ok (messageId, version)) (digest : PyStr) :
    wp (patchBody cfg command digest)
      (fun r s' => PatchResult cfg s command messageId version digest r s' ∧ s'.Sound cfg ∧
        s.Advances cfg s')
      (fun e s' => s.drawn ≤ s'.drawn ∧ ∃ pe, e = .python pe) s := by
  rw [patchBody, wp_bind, wp_gets, wp_bind, hkey]
  show wp (result (patchStep cfg s.tables command messageId version digest) >>= _) _ _ s
  rw [wp_bind]
  generalize hstep : patchStep cfg s.tables command messageId version digest = step
  have houtcome : PatchOutcome cfg s.tables command messageId version digest step :=
    hstep ▸ patchStep_outcome hs
  cases houtcome with
  | refused hstatus htoken => exact ⟨.refused hstatus htoken rfl, hs, .refl s⟩
  | replays hq hmessage hversion happlied =>
      exact ⟨.replays hq hmessage hversion happlied rfl rfl, hs, .refl s⟩
  | raises hactive hraise => exact ⟨le_refl _, _, rfl⟩
  | @candidate active snapshot hactive hsnapshot hfree =>
      obtain ⟨⟨payload, hparse⟩, rfl, rfl⟩ := materialize_parsed hc hkey hsnapshot
      rw [wp_result_ok]
      refine (prepareSnapshot_spec hs hparse fun _ => hfree).mono ?_ ?_
      · rintro r s' (⟨code, -, rfl, rfl⟩ | ⟨haccepted, hsound, hadvances⟩)
        · exact ⟨.refused rfl rfl rfl, hs, .refl _⟩
        · exact ⟨.accepted hactive hsnapshot rfl rfl haccepted, hsound, hadvances⟩
      · rintro e s' ⟨hdrawn, rfl, -⟩
        exact ⟨hdrawn, _, rfl⟩

end Patch

/-! ## Commit and fail -/

section Commit

variable {s : Session} {token : PyStr}

/-- What a successful commit found: the prepared candidate of the token, or the
    active row that the token committed before. -/
inductive Committed (cfg : StoreConfig) (s : Session) (token : PyStr) (snapshot : ConfigSnapshot)
    (s' : Session) : Prop where
  | promotes {r : SnapshotRow} (hr : r ∈ s.tables.snapshots) (htoken : r.token = some token)
      (hstate : r.state = .prepared) (hdecode : decode cfg r = .ok snapshot)
      (hsame : s' = { s with tables := s.tables.promote r.version })
  | repeats {r : SnapshotRow} (hr : r ∈ s.tables.snapshots) (htoken : r.token = some token)
      (hstate : r.state = .committed) (hactive : r.version = s.tables.activeVersion)
      (hdecode : decode cfg r = .ok snapshot) (hsame : s' = s)

omit [JsonSchema] in
theorem findCandidate_cases (t : Tables) (token : PyStr) :
    (∃ r ∈ t.snapshots, r.token = some token ∧ findCandidate t token = .ok r) ∨
      ∃ message, findCandidate t token = .error (.invalidCandidate message) := by
  unfold findCandidate
  split
  · exact .inr ⟨_, rfl⟩
  · cases hr : t.candidate? token with
    | none => exact .inr ⟨_, rfl⟩
    | some r =>
        obtain ⟨hmem, htoken⟩ := Tables.mem_of_candidate? hr
        exact .inl ⟨r, hmem, htoken, rfl⟩

theorem commitBody_spec (hs : s.Sound cfg) (token : PyStr) :
    wp (commitBody cfg token)
      (fun snapshot s' => Committed cfg s token snapshot s' ∧ s'.Sound cfg ∧ s.Advances cfg s')
      (fun e s' => s.drawn ≤ s'.drawn ∧ ∃ message, e = .invalidCandidate message) s := by
  rw [commitBody, wp_bind, wp_gets, wp_bind]
  rcases findCandidate_cases s.tables token with ⟨r, hr, htoken, hfind⟩ | ⟨message, hfind⟩
  · obtain ⟨snapshot, hdecode⟩ := (hs.decodes r hr).2
    rw [hfind, wp_result_ok, wp_ite]
    constructor
    · rintro ⟨hstate, hactive⟩
      rw [hdecode]
      exact ⟨.repeats hr htoken hstate hactive hdecode rfl, hs, .refl s⟩
    · intro hnot
      rw [wp_bind, wp_check]
      refine ⟨?_, fun _ => ⟨le_refl _, _, rfl⟩⟩
      rintro ⟨hstate, hnewer⟩
      rw [wp_bind, hdecode, wp_result_ok, wp_bind]
      exact ⟨.promotes hr htoken hstate hdecode rfl, hs.promote hr hstate, le_refl _,
        hs.promote_grows hr hstate, Tables.promote_keeps _⟩
  · rw [hfind]
    exact ⟨le_refl _, _, rfl⟩

/-- A candidate that failed: its row, and the tables afterwards. -/
def Failed (s : Session) (token : PyStr) (s' : Session) : Prop :=
  ∃ r ∈ s.tables.snapshots, r.token = some token ∧ r.state = .prepared ∧
    s' = { s with tables := (s.tables.mark r.version .failed none).setStatus r.version .failed }

theorem failBody_spec (hs : s.Sound cfg) (token : PyStr) :
    wp (failBody token)
      (fun _ s' => Failed s token s' ∧ s'.Sound cfg ∧ s.Advances cfg s')
      (fun e s' => s.drawn ≤ s'.drawn ∧ ∃ message, e = .invalidCandidate message) s := by
  rw [failBody, wp_bind, wp_gets, wp_bind]
  rcases findCandidate_cases s.tables token with ⟨r, hr, htoken, hfind⟩ | ⟨message, hfind⟩
  · rw [hfind, wp_result_ok, wp_bind, wp_check]
    refine ⟨fun hstate => ?_, fun _ => ⟨le_refl _, _, rfl⟩⟩
    have hlt := hs.newer r hr hstate
    have hupdate : s.tables.updateSnapshot r.version .failed none
        = .ok (s.tables.mark r.version .failed none) := by
      rw [Tables.updateSnapshot, if_pos (tokenFree_eq (by simp))]
      rfl
    have hmarked : (s.tables.mark r.version .failed none).Sound cfg s.drawn :=
      hs.mark nofun hlt nofun nofun
    have hkeeps : s.tables.Keeps cfg s.drawn (s.tables.mark r.version .failed none) :=
      Tables.mark_keeps (.inr fun _ _ _ h => absurd h (by simp))
    rw [wp_bind, hupdate, wp_result_ok]
    refine ⟨⟨r, hr, htoken, hstate, rfl⟩, hmarked.setStatus nofun ?_, le_refl _,
      (hs.mark_grows hlt _ _).trans (Tables.setStatus_grows _ _),
      Tables.Keeps.trans cfg hkeeps (Tables.setStatus_keeps _ _) (le_refl _)⟩
    intro r' hr' hversion hc
    have := hmarked.older r' hr' hc
    rw [hversion] at this
    exact absurd this (not_le.mpr hlt)
  · rw [hfind]
    exact ⟨le_refl _, _, rfl⟩

end Commit

/-! ## Transactions -/

section Transaction

variable {α : Type} {s : Session} {body : Prog Session StoreExc α} {Q : α → Session → Prop}
  {E : StoreExc → Prop} {fate : Fate}

omit [JsonSchema] in
theorem Session.Advances.rollback {s' : Session} (h : s.drawn ≤ s'.drawn) :
    s.Advances cfg (s.rollback s') :=
  ⟨h, .refl _, .refl cfg _⟩

/-- A transaction around a body with a specification.  It returns only when it
    commits; a raise leaves the tables alone unless the commit was durable. -/
theorem transaction_spec (hs : s.Sound cfg)
    (h : wp body (fun a s' => Q a s' ∧ s'.Sound cfg ∧ s.Advances cfg s')
      (fun e s' => s.drawn ≤ s'.drawn ∧ E e) s) :
    wp (transaction fate body)
      (fun a s' => fate = .commits ∧ Q a s' ∧ s'.Sound cfg ∧ s.Advances cfg s')
      (fun e s' => (e = .storeError ∧ fate ≠ .commits ∨ E e ∧ fate ≠ .fails) ∧ s'.Sound cfg ∧
        s.Advances cfg s' ∧ (s'.tables = s.tables ∨ fate = .loses ∧ ∃ a, Q a s')) s := by
  have hback : ∀ {s'}, s.drawn ≤ s'.drawn → (s.rollback s').Sound cfg ∧
      s.Advances cfg (s.rollback s') ∧ (s.rollback s').tables = s.tables :=
    fun hle => ⟨hs.mono hle, .rollback hle, rfl⟩
  cases fate with
  | commits =>
      refine wp_transaction_commits.mpr (h.mono (fun a s' h => ⟨rfl, h⟩) ?_)
      rintro e s' ⟨hle, he⟩
      obtain ⟨hsound, hadvances, htables⟩ := hback hle
      exact ⟨.inr ⟨he, nofun⟩, hsound, hadvances, .inl htables⟩
  | fails =>
      refine wp_transaction_fails.mpr (h.mono ?_ ?_)
      · rintro a s' ⟨-, -, hadv⟩
        obtain ⟨hsound, hadvances, htables⟩ := hback hadv.drawn
        exact ⟨.inl ⟨rfl, nofun⟩, hsound, hadvances, .inl htables⟩
      · rintro e s' ⟨hle, -⟩
        obtain ⟨hsound, hadvances, htables⟩ := hback hle
        exact ⟨.inl ⟨rfl, nofun⟩, hsound, hadvances, .inl htables⟩
  | loses =>
      refine wp_transaction_loses.mpr (h.mono ?_ ?_)
      · rintro a s' ⟨hq, hsound, hadv⟩
        exact ⟨.inl ⟨rfl, nofun⟩, hsound, hadv, .inr ⟨rfl, a, hq⟩⟩
      · rintro e s' ⟨hle, he⟩
        obtain ⟨hsound, hadvances, htables⟩ := hback hle
        exact ⟨.inr ⟨he, nofun⟩, hsound, hadvances, .inl htables⟩

end Transaction

end PlcnextIot.Config
