/-
  PlcnextIot.Config.Invariants

  The tables of the configuration store: what holds of them between two
  transactions, and in which direction they move.

  `Tables.Sound` is the invariant.  Its state fields say that there is at most
  one prepared candidate, newer than the active version; that the committed
  rows are not newer; and that the requests of the committed versions are the
  applied ones.  Its content fields say that every row decodes, and that the
  row a command prepared belongs to that command.  `Tables.Grows` is the order:
  rows stay, with their content, and a committed row stays committed.

  Every statement of the store keeps the invariant and moves upwards: `insert`
  adds a row, every other statement re-marks rows.
-/

import PlcnextIot.Config.Merge
import PlcnextIot.Config.Store
import PlcnextIot.Effect.Rows

namespace PlcnextIot.Config

open PlcnextIot.Python PlcnextIot.Contracts PlcnextIot.Effect PlcnextIot.Effect.Prog

/-! ## Rows -/

/-- Two states of one snapshot row. -/
structure SnapshotRow.Same (r r' : SnapshotRow) : Prop where
  version : r'.version = r.version
  payload : r'.payload = r.payload
  contentHash : r'.contentHash = r.contentHash

theorem SnapshotRow.Same.refl (r : SnapshotRow) : r.Same r := ⟨rfl, rfl, rfl⟩

theorem SnapshotRow.Same.trans {a b c : SnapshotRow} (h : a.Same b) (h' : b.Same c) : a.Same c :=
  ⟨h'.version.trans h.version, h'.payload.trans h.payload, h'.contentHash.trans h.contentHash⟩

/-- Two states of one request row. -/
structure RequestRow.Same (q q' : RequestRow) : Prop where
  messageId : q'.messageId = q.messageId
  version : q'.version = q.version
  commandDigest : q'.commandDigest = q.commandDigest
  commandKind : q'.commandKind = q.commandKind

theorem RequestRow.Same.refl (q : RequestRow) : q.Same q := ⟨rfl, rfl, rfl, rfl⟩

theorem RequestRow.Same.trans {a b c : RequestRow} (h : a.Same b) (h' : b.Same c) : a.Same c :=
  ⟨h'.messageId.trans h.messageId, h'.version.trans h.version,
    h'.commandDigest.trans h.commandDigest, h'.commandKind.trans h.commandKind⟩

/-! ## Statements that succeed -/

namespace Tables

variable {t : Tables}

/-- `insertSnapshot`, when no constraint is violated. -/
def addSnapshot (t : Tables) (row : SnapshotRow) : Tables :=
  { t with snapshots := t.snapshots ++ [row] }

/-- `updateSnapshot`, when no constraint is violated. -/
def mark (t : Tables) (version : ℤ) (state : SnapshotState) (token : Option PyStr) : Tables :=
  { t with snapshots := t.snapshots.map fun r =>
      if r.version = version then { r with state, token } else r }

/-- `upsertRequest`, when the version exists. -/
def record (t : Tables) (row : RequestRow) : Tables :=
  if t.request? row.messageId = none then { t with requests := t.requests ++ [row] }
  else { t with requests := t.requests.map fun r =>
    if r.messageId = row.messageId then { r with status := row.status } else r }

/-- The statements of `commit`. -/
def promote (t : Tables) (version : ℤ) : Tables :=
  ((t.setState version .committed).activate version).setStatus version .applied

theorem snapshot?_none {version : ℤ} :
    t.snapshot? version = none ↔ ∀ r ∈ t.snapshots, r.version ≠ version := find?_key_none

theorem mem_of_snapshot? {version : ℤ} {row : SnapshotRow} (h : t.snapshot? version = some row) :
    row ∈ t.snapshots ∧ row.version = version := mem_of_find?_key h

theorem request?_none {messageId : PyStr} :
    t.request? messageId = none ↔ ∀ q ∈ t.requests, q.messageId ≠ messageId := find?_key_none

theorem mem_of_request? {messageId : PyStr} {row : RequestRow}
    (h : t.request? messageId = some row) :
    row ∈ t.requests ∧ row.messageId = messageId := mem_of_find?_key h

theorem mem_of_candidate? {token : PyStr} {row : SnapshotRow} (h : t.candidate? token = some row) :
    row ∈ t.snapshots ∧ row.token = some token := mem_of_find?_key h

theorem upsertRequest_eq {row : RequestRow} {r : SnapshotRow} (hr : r ∈ t.snapshots)
    (hv : r.version = row.version) : t.upsertRequest row = .ok (t.record row) := by
  have hsome : t.snapshot? row.version ≠ none := fun h => snapshot?_none.mp h r hr hv
  rw [upsertRequest, if_neg hsome, record]
  split <;> rfl

/-- What `record` does to the rows that were there. -/
theorem record_requests (t : Tables) (row : RequestRow) :
    (t.request? row.messageId = none ∧ (t.record row).requests = t.requests ++ [row]) ∨
      (t.request? row.messageId ≠ none ∧
        (t.record row).requests = t.requests.map fun r =>
          if r.messageId = row.messageId then { r with status := row.status } else r) := by
  unfold record
  by_cases h : t.request? row.messageId = none
  · exact .inl ⟨h, by rw [if_pos h]⟩
  · exact .inr ⟨h, by rw [if_neg h]⟩

@[simp] theorem record_snapshots (t : Tables) (row : RequestRow) :
    (t.record row).snapshots = t.snapshots := by
  unfold record
  split <;> rfl

@[simp] theorem record_active (t : Tables) (row : RequestRow) :
    (t.record row).active = t.active := by
  unfold record
  split <;> rfl

@[simp] theorem record_gatewayId (t : Tables) (row : RequestRow) :
    (t.record row).gatewayId = t.gatewayId := by
  unfold record
  split <;> rfl

/-- The rows after `mark`: the one of the version is marked, the others are as
    they were. -/
theorem mem_mark {v : ℤ} {state : SnapshotState} {token : Option PyStr} {r' : SnapshotRow} :
    r' ∈ (t.mark v state token).snapshots ↔ ∃ r ∈ t.snapshots,
      r.Same r' ∧ (r.version = v ∧ r'.state = state ∧ r'.token = token ∨ r.version ≠ v ∧ r' = r) := by
  unfold mark
  rw [List.mem_map]
  constructor
  · rintro ⟨r, hr, rfl⟩
    refine ⟨r, hr, ?_⟩
    by_cases hv : r.version = v
    · rw [if_pos hv]
      exact ⟨⟨rfl, rfl, rfl⟩, .inl ⟨hv, rfl, rfl⟩⟩
    · rw [if_neg hv]
      exact ⟨.refl r, .inr ⟨hv, rfl⟩⟩
  · rintro ⟨r, hr, hsame, ⟨hv, hstate, htoken⟩ | ⟨hv, rfl⟩⟩
    · refine ⟨r, hr, ?_⟩
      rw [if_pos hv]
      obtain ⟨h1, h2, h3⟩ := hsame
      cases r'
      simp_all
    · exact ⟨r', hr, if_neg hv⟩

/-- The rows after `promote`: the one of the version is committed. -/
theorem mem_promote {v : ℤ} {r' : SnapshotRow} :
    r' ∈ (t.promote v).snapshots ↔ ∃ r ∈ t.snapshots,
      r' = if r.version = v then { r with state := .committed } else r := by
  unfold promote setStatus activate setState
  rw [List.mem_map]
  simp only [eq_comm]

end Tables

/-! ## The order -/

/-- Rows stay, with their content; a committed row stays committed, and the
    active version does not decrease. -/
structure Tables.Grows (t t' : Tables) : Prop where
  snapshots : ∀ r ∈ t.snapshots, ∃ r' ∈ t'.snapshots, r.Same r' ∧
    (r.state = .committed → r'.state = .committed)
  requests : ∀ q ∈ t.requests, ∃ q' ∈ t'.requests, q.Same q'
  active : t.activeVersion ≤ t'.activeVersion

theorem Tables.Grows.refl (t : Tables) : t.Grows t where
  snapshots r hr := ⟨r, hr, .refl r, id⟩
  requests q hq := ⟨q, hq, .refl q⟩
  active := le_refl _

theorem Tables.Grows.trans {a b c : Tables} (h : a.Grows b) (h' : b.Grows c) : a.Grows c where
  snapshots r hr := by
    obtain ⟨r1, hr1, hsame, hcommitted⟩ := h.snapshots r hr
    obtain ⟨r2, hr2, hsame', hcommitted'⟩ := h'.snapshots r1 hr1
    exact ⟨r2, hr2, hsame.trans hsame', fun hc => hcommitted' (hcommitted hc)⟩
  requests q hq := by
    obtain ⟨q1, hq1, hsame⟩ := h.requests q hq
    obtain ⟨q2, hq2, hsame'⟩ := h'.requests q1 hq1
    exact ⟨q2, hq2, hsame.trans hsame'⟩
  active := h.active.trans h'.active

section Keeps

variable (cfg : StoreConfig)

/-- The tokens drawn before stay with their versions. -/
def Tables.Keeps (drawn : Nat) (t t' : Tables) : Prop :=
  ∀ r' ∈ t'.snapshots, ∀ n < drawn, r'.token = some (cfg.uuid n) →
    ∃ r ∈ t.snapshots, r.version = r'.version ∧ r.token = r'.token

theorem Tables.Keeps.refl {drawn : Nat} (t : Tables) : t.Keeps cfg drawn t :=
  fun r' hr' _ _ _ => ⟨r', hr', rfl, rfl⟩

theorem Tables.Keeps.trans {a b c : Tables} {m n : Nat} (h : a.Keeps cfg m b)
    (h' : b.Keeps cfg n c) (hmn : m ≤ n) : a.Keeps cfg m c := by
  intro r hr k hk htoken
  obtain ⟨r1, hr1, hversion, htoken1⟩ := h' r hr k (lt_of_lt_of_le hk hmn) htoken
  obtain ⟨r2, hr2, hversion', htoken2⟩ := h r1 hr1 k hk (htoken1.trans htoken)
  exact ⟨r2, hr2, hversion'.trans hversion, htoken2.trans htoken1⟩

variable {cfg} {drawn : Nat} {t : Tables}

namespace Tables

theorem addSnapshot_grows (row : SnapshotRow) : t.Grows (t.addSnapshot row) where
  snapshots r hr := ⟨r, List.mem_append_left _ hr, .refl r, id⟩
  requests q hq := ⟨q, hq, .refl q⟩
  active := le_refl _

theorem record_grows (q : RequestRow) : t.Grows (t.record q) where
  snapshots r hr := ⟨r, by simpa using hr, .refl r, id⟩
  requests q' hq' := by
    rcases record_requests t q with ⟨-, heq⟩ | ⟨-, heq⟩
    · rw [heq]
      exact ⟨q', List.mem_append_left _ hq', .refl q'⟩
    · rw [heq]
      refine ⟨_, List.mem_map_of_mem hq', ?_⟩
      split <;> exact ⟨rfl, rfl, rfl, rfl⟩
  active := by simp [activeVersion]

theorem setStatus_grows (v : ℤ) (status : RequestStatus) : t.Grows (t.setStatus v status) where
  snapshots r hr := ⟨r, hr, .refl r, id⟩
  requests q hq := by
    refine ⟨_, List.mem_map_of_mem hq, ?_⟩
    split <;> exact ⟨rfl, rfl, rfl, rfl⟩
  active := le_refl _

theorem interrupt_grows (t : Tables) : t.Grows t.interrupt where
  snapshots r hr := by
    refine ⟨_, List.mem_map_of_mem hr, ?_⟩
    split
    · rename_i hp
      refine ⟨⟨rfl, rfl, rfl⟩, fun hc => ?_⟩
      rw [hp] at hc
      cases hc
    · exact ⟨.refl r, id⟩
  requests q hq := by
    refine ⟨_, List.mem_map_of_mem hq, ?_⟩
    split <;> exact ⟨rfl, rfl, rfl, rfl⟩
  active := le_refl _

/-- A statement that draws no token keeps the ones there are. -/
theorem keeps_of_back {t' : Tables} (hback : ∀ r' ∈ t'.snapshots, r'.token.isSome →
    ∃ r ∈ t.snapshots, r.version = r'.version ∧ r.token = r'.token) : t.Keeps cfg drawn t' := by
  intro r' hr' n _ htoken
  exact hback r' hr' (by rw [htoken]; rfl)

theorem addSnapshot_keeps {row : SnapshotRow} (htoken : row.token = some (cfg.uuid drawn)) :
    t.Keeps cfg drawn (t.addSnapshot row) := by
  intro r' hr' n hn ht
  rcases List.mem_append.mp hr' with hr' | hr'
  · exact ⟨r', hr', rfl, rfl⟩
  · rw [List.mem_singleton.mp hr', htoken, Option.some_inj] at ht
    exact absurd (cfg.uuid_injective ht) (by omega)

theorem record_keeps (q : RequestRow) : t.Keeps cfg drawn (t.record q) :=
  keeps_of_back fun r' hr' _ => ⟨r', by simpa using hr', rfl, rfl⟩

theorem setStatus_keeps (v : ℤ) (status : RequestStatus) :
    t.Keeps cfg drawn (t.setStatus v status) :=
  keeps_of_back fun r' hr' _ => ⟨r', hr', rfl, rfl⟩

theorem promote_keeps (v : ℤ) : t.Keeps cfg drawn (t.promote v) := by
  refine keeps_of_back fun r' hr' _ => ?_
  obtain ⟨r, hr, rfl⟩ := mem_promote.mp hr'
  refine ⟨r, hr, ?_⟩
  split <;> exact ⟨rfl, rfl⟩

theorem interrupt_keeps (t : Tables) : t.Keeps cfg drawn t.interrupt := by
  refine keeps_of_back fun r' hr' hsome => ?_
  obtain ⟨r, hr, rfl⟩ := List.mem_map.mp hr'
  by_cases hp : r.state = .prepared
  · rw [if_pos hp] at hsome
    cases hsome
  · rw [if_neg hp]
    exact ⟨r, hr, rfl, rfl⟩

/-- A marked row gets no token, the one it has, or a new one. -/
theorem mark_keeps {v : ℤ} {state : SnapshotState} {token : Option PyStr}
    (htoken : token = some (cfg.uuid drawn) ∨
      ∀ r ∈ t.snapshots, r.version = v → token.isSome → r.token = token) :
    t.Keeps cfg drawn (t.mark v state token) := by
  intro r' hr' n hn ht
  obtain ⟨r, hr, hsame, ⟨hv, -, ht'⟩ | ⟨-, rfl⟩⟩ := mem_mark.mp hr'
  · rcases htoken with hnew | hold
    · rw [ht', hnew, Option.some_inj] at ht
      exact absurd (cfg.uuid_injective ht) (by omega)
    · have hsome : token.isSome := by
        rw [← ht', ht]
        rfl
      exact ⟨r, hr, hsame.version.symm, (hold r hr hv hsome).trans ht'.symm⟩
  · exact ⟨r', hr, rfl, rfl⟩

end Tables

end Keeps

/-! ## The invariant -/

section Sound

variable [JsonSchema] (cfg : StoreConfig)

/-- A row decodes by its content. -/
theorem decode_same {r r' : SnapshotRow} (h : r.Same r') : decode cfg r' = decode cfg r := by
  unfold decode
  rw [h.payload, h.version, h.contentHash]

/-- What holds of the tables between two transactions; `drawn` uuids were
    drawn so far. -/
structure Tables.Sound (drawn : Nat) (t : Tables) : Prop where
  gateway : t.gatewayId = cfg.gatewayId
  versions : Keyed (·.version) t.snapshots
  messages : Keyed (·.messageId) t.requests
  decodes : ∀ r ∈ t.snapshots, 0 < r.version ∧ ∃ s, decode cfg r = .ok s
  newer : ∀ r ∈ t.snapshots, r.state = .prepared → t.activeVersion < r.version
  single : ∀ r ∈ t.snapshots, ∀ r' ∈ t.snapshots, r.state = .prepared → r'.state = .prepared →
    r = r'
  older : ∀ r ∈ t.snapshots, r.state = .committed → r.version ≤ t.activeVersion
  pointer : ∀ v, t.active = some v → ∃ r ∈ t.snapshots, r.version = v ∧ r.state = .committed
  applied : ∀ q ∈ t.requests, ∃ r ∈ t.snapshots, r.version = q.version ∧
    (q.status = .applied ↔ r.state = .committed)
  commands : ∀ q ∈ t.requests, q.commandKind = some patchKind → ∀ r ∈ t.snapshots,
    r.version = q.version → ∀ s, decode cfg r = .ok s → s.messageId = q.messageId
  issued : ∀ r ∈ t.snapshots, ∀ token, r.token = some token → ∃ n < drawn, token = cfg.uuid n
  distinct : ∀ r ∈ t.snapshots, ∀ r' ∈ t.snapshots, r.token = r'.token → r.token.isSome → r = r'
  tokens : ∀ r ∈ t.snapshots, r.state = .prepared → r.token.isSome

variable {cfg} {drawn : Nat} {t : Tables}

namespace Tables.Sound

theorem empty : (Tables.empty cfg.gatewayId).Sound cfg drawn where
  gateway := rfl
  versions := Keyed.nil
  messages := Keyed.nil
  decodes _ hr := absurd hr List.not_mem_nil
  newer _ hr := absurd hr List.not_mem_nil
  single _ hr := absurd hr List.not_mem_nil
  older _ hr := absurd hr List.not_mem_nil
  pointer _ hv := nomatch hv
  applied _ hq := absurd hq List.not_mem_nil
  commands _ hq := absurd hq List.not_mem_nil
  issued _ hr := absurd hr List.not_mem_nil
  distinct _ hr := absurd hr List.not_mem_nil
  tokens _ hr := absurd hr List.not_mem_nil

theorem mono (h : t.Sound cfg drawn) {drawn' : Nat} (hle : drawn ≤ drawn') :
    t.Sound cfg drawn' :=
  { h with
    issued := fun r hr token htoken => by
      obtain ⟨n, hn, heq⟩ := h.issued r hr token htoken
      exact ⟨n, lt_of_lt_of_le hn hle, heq⟩ }

theorem snapshot?_eq_some (h : t.Sound cfg drawn) {r : SnapshotRow} (hr : r ∈ t.snapshots) :
    t.snapshot? r.version = some r := h.versions.find?_eq_some.mpr ⟨hr, rfl⟩

theorem request?_eq_some (h : t.Sound cfg drawn) {q : RequestRow} (hq : q ∈ t.requests) :
    t.request? q.messageId = some q := h.messages.find?_eq_some.mpr ⟨hq, rfl⟩

/-- The active row is the one the pointer names. -/
theorem active_row (h : t.Sound cfg drawn) (hne : t.activeVersion ≠ 0) :
    ∃ r ∈ t.snapshots, r.version = t.activeVersion ∧ r.state = .committed ∧
      t.active = some t.activeVersion := by
  cases hactive : t.active with
  | none => exact absurd (by simp [activeVersion, hactive]) hne
  | some v =>
      obtain ⟨r, hr, hversion, hstate⟩ := h.pointer v hactive
      have hv : t.activeVersion = v := by simp [activeVersion, hactive]
      exact ⟨r, hr, hversion.trans hv.symm, hstate, by rw [hv]⟩

/-- `load_active` returns the snapshot of the active version. -/
theorem loadActive_returns (h : t.Sound cfg drawn) :
    (t.activeVersion = 0 ∧ loadActive cfg t = .ok none) ∨
      ∃ r s, r ∈ t.snapshots ∧ r.version = t.activeVersion ∧ r.state = .committed ∧
        decode cfg r = .ok s ∧ loadActive cfg t = .ok (some s) := by
  unfold loadActive
  by_cases hne : t.activeVersion = 0
  · exact .inl ⟨hne, by rw [if_pos hne]⟩
  · obtain ⟨r, hr, hversion, hstate, -⟩ := h.active_row hne
    obtain ⟨s, hs⟩ := (h.decodes r hr).2
    refine .inr ⟨r, s, hr, hversion, hstate, hs, ?_⟩
    rw [if_neg hne, ← hversion, h.snapshot?_eq_some hr]
    simp [hstate, hs, Except.map]

/-! ### Statements -/

/-- An inserted candidate. -/
theorem addSnapshot (h : t.Sound cfg drawn) {row : SnapshotRow}
    (hnew : t.snapshot? row.version = none) (hpos : 0 < row.version)
    (hdecode : ∃ s, decode cfg row = .ok s) (hstate : row.state = .prepared)
    (hactive : t.activeVersion < row.version) (hsingle : ∀ r ∈ t.snapshots, r.state ≠ .prepared)
    (htoken : row.token = some (cfg.uuid drawn)) :
    (t.addSnapshot row).Sound cfg (drawn + 1) := by
  have hfresh : ∀ r ∈ t.snapshots, r.token ≠ row.token := by
    intro r hr heq
    obtain ⟨n, hn, hn'⟩ := h.issued r hr _ (heq.trans htoken)
    exact absurd (cfg.uuid_injective hn') (by omega)
  have hmem : ∀ {r}, r ∈ (t.addSnapshot row).snapshots ↔ r ∈ t.snapshots ∨ r = row := by
    intro r
    simp [Tables.addSnapshot]
  refine ⟨h.gateway, h.versions.append (snapshot?_none.mp hnew), h.messages, ?_, ?_, ?_, ?_, ?_,
    ?_, ?_, ?_, ?_, ?_⟩
  · intro r hr
    rcases hmem.mp hr with hr | rfl
    · exact h.decodes r hr
    · exact ⟨hpos, hdecode⟩
  · intro r hr hp
    rcases hmem.mp hr with hr | rfl
    · exact h.newer r hr hp
    · exact hactive
  · intro r hr r' hr' hp hp'
    rcases hmem.mp hr with hr | rfl
    · exact absurd hp (hsingle r hr)
    · rcases hmem.mp hr' with hr' | rfl
      · exact absurd hp' (hsingle r' hr')
      · rfl
  · intro r hr hc
    rcases hmem.mp hr with hr | rfl
    · exact h.older r hr hc
    · rw [hstate] at hc
      cases hc
  · intro v hv
    obtain ⟨r, hr, hversion, hc⟩ := h.pointer v hv
    exact ⟨r, hmem.mpr (.inl hr), hversion, hc⟩
  · intro q hq
    obtain ⟨r, hr, hversion, hiff⟩ := h.applied q hq
    exact ⟨r, hmem.mpr (.inl hr), hversion, hiff⟩
  · intro q hq hkind r hr hversion
    rcases hmem.mp hr with hr | rfl
    · exact h.commands q hq hkind r hr hversion
    · -- the version of a request is one that was stored before
      obtain ⟨r0, hr0, hv0, -⟩ := h.applied q hq
      exact absurd (hv0.trans hversion.symm) (snapshot?_none.mp hnew r0 hr0)
  · intro r hr token ht
    rcases hmem.mp hr with hr | rfl
    · obtain ⟨n, hn, heq⟩ := h.issued r hr token ht
      exact ⟨n, by omega, heq⟩
    · rw [htoken] at ht
      cases ht
      exact ⟨drawn, by omega, rfl⟩
  · intro r hr r' hr' heq hsome
    rcases hmem.mp hr with hold | rfl
    · rcases hmem.mp hr' with hold' | rfl
      · exact h.distinct r hold r' hold' heq hsome
      · exact absurd heq (hfresh r hold)
    · rcases hmem.mp hr' with hold' | rfl
      · exact absurd heq.symm (hfresh r' hold')
      · rfl
  · intro r hr hp
    rcases hmem.mp hr with hr | rfl
    · exact h.tokens r hr hp
    · rw [htoken]
      rfl

/-- A candidate that is prepared again, or fails. -/
theorem mark (h : t.Sound cfg drawn) {v : ℤ} {state : SnapshotState} {token : Option PyStr}
    (hstate : state ≠ .committed) (hactive : t.activeVersion < v)
    (hprepared : state = .prepared →
      token.isSome ∧ ∀ r ∈ t.snapshots, r.state = .prepared → r.version = v)
    (htoken : ∀ k, token = some k →
      (∃ n < drawn, k = cfg.uuid n) ∧ ∀ r ∈ t.snapshots, r.token = some k → r.version = v) :
    (t.mark v state token).Sound cfg drawn := by
  have hkeys : ∀ r : SnapshotRow,
      (if r.version = v then { r with state, token } else r).version = r.version := by
    intro r
    split <;> rfl
  have hversions : Keyed (·.version) (t.mark v state token).snapshots := h.versions.map hkeys
  have hnot : ∀ r ∈ t.snapshots, r.state = .committed → r.version ≠ v := by
    intro r hr hc heq
    have := h.older r hr hc
    omega
  have hback : ∀ {r'}, r' ∈ (t.mark v state token).snapshots → ∃ r ∈ t.snapshots, r.Same r' ∧
      (r.version = v ∧ r'.state = state ∧ r'.token = token ∨ r.version ≠ v ∧ r' = r) :=
    fun hr => mem_mark.mp hr
  have hkeep : ∀ r ∈ t.snapshots, r.version ≠ v → r ∈ (t.mark v state token).snapshots :=
    fun r hr hv => mem_mark.mpr ⟨r, hr, .refl r, .inr ⟨hv, rfl⟩⟩
  refine ⟨h.gateway, hversions, h.messages, ?_, ?_, ?_, ?_, ?_, ?_, ?_, ?_, ?_, ?_⟩
  · intro r' hr'
    obtain ⟨r, hr, hsame, -⟩ := hback hr'
    rw [decode_same cfg hsame, hsame.version]
    exact h.decodes r hr
  · intro r' hr' hp
    obtain ⟨r, hr, hsame, ⟨hv, -, -⟩ | ⟨-, rfl⟩⟩ := hback hr'
    · show t.activeVersion < r'.version
      rw [hsame.version, hv]
      exact hactive
    · exact h.newer _ hr hp
  · intro r' hr' r'' hr'' hp hp'
    -- both rows are the one of version v, or both were prepared before
    have hversion : ∀ x ∈ (t.mark v state token).snapshots, x.state = .prepared →
        state = .prepared → x.version = v := by
      intro x hx hxp hsp
      obtain ⟨r, hr, hsame, ⟨hv, -, -⟩ | ⟨-, rfl⟩⟩ := hback hx
      · rw [hsame.version, hv]
      · exact (hprepared hsp).2 _ hr hxp
    by_cases hsp : state = .prepared
    · exact hversions.eq_of_key hr' hr''
        ((hversion r' hr' hp hsp).trans (hversion r'' hr'' hp' hsp).symm)
    · have hold : ∀ x ∈ (t.mark v state token).snapshots, x.state = .prepared →
          x ∈ t.snapshots := by
        intro x hx hxp
        obtain ⟨r, hr, -, ⟨-, hs, -⟩ | ⟨-, rfl⟩⟩ := hback hx
        · exact absurd (hs.symm.trans hxp) hsp
        · exact hr
      exact h.single r' (hold r' hr' hp) r'' (hold r'' hr'' hp') hp hp'
  · intro r' hr' hc
    obtain ⟨r, hr, -, ⟨-, hs, -⟩ | ⟨-, rfl⟩⟩ := hback hr'
    · exact absurd (hs.symm.trans hc) hstate
    · exact h.older _ hr hc
  · intro w hw
    obtain ⟨r, hr, hversion, hc⟩ := h.pointer w hw
    exact ⟨r, hkeep r hr (hnot r hr hc), hversion, hc⟩
  · intro q hq
    obtain ⟨r, hr, hversion, hiff⟩ := h.applied q hq
    by_cases hv : r.version = v
    · refine ⟨{ r with state, token }, ?_, hversion, ?_⟩
      · exact mem_mark.mpr ⟨r, hr, ⟨rfl, rfl, rfl⟩, .inl ⟨hv, rfl, rfl⟩⟩
      · rw [hiff]
        exact ⟨fun hc => absurd hv (hnot r hr hc), fun hc => absurd hc hstate⟩
    · exact ⟨r, hkeep r hr hv, hversion, hiff⟩
  · intro q hq hkind r' hr' hversion s hs
    obtain ⟨r, hr, hsame, -⟩ := hback hr'
    rw [decode_same cfg hsame] at hs
    exact h.commands q hq hkind r hr (hsame.version.symm.trans hversion) s hs
  · intro r' hr' k hk
    obtain ⟨r, hr, -, ⟨-, -, ht⟩ | ⟨-, rfl⟩⟩ := hback hr'
    · exact (htoken k (ht.symm.trans hk)).1
    · exact h.issued _ hr k hk
  · intro r' hr' r'' hr'' heq hsome
    obtain ⟨k, hk⟩ := Option.isSome_iff_exists.mp hsome
    -- a row that carries the new token is the one of version v
    have hversion : ∀ x ∈ (t.mark v state token).snapshots, x.token = some k →
        token = some k → x.version = v := by
      intro x hx hxk htk
      obtain ⟨r, hr, hsame, ⟨hv, -, -⟩ | ⟨-, rfl⟩⟩ := hback hx
      · rw [hsame.version, hv]
      · exact (htoken k htk).2 _ hr hxk
    have hk' : r''.token = some k := heq.symm.trans hk
    by_cases htk : token = some k
    · exact hversions.eq_of_key hr' hr''
        ((hversion r' hr' hk htk).trans (hversion r'' hr'' hk' htk).symm)
    · have hold : ∀ x ∈ (t.mark v state token).snapshots, x.token = some k →
          x ∈ t.snapshots := by
        intro x hx hxk
        obtain ⟨r, hr, -, ⟨-, -, ht⟩ | ⟨-, rfl⟩⟩ := hback hx
        · exact absurd (ht.symm.trans hxk) htk
        · exact hr
      exact h.distinct r' (hold r' hr' hk) r'' (hold r'' hr'' hk') heq hsome
  · intro r' hr' hp
    obtain ⟨r, hr, -, ⟨-, hs, ht⟩ | ⟨-, rfl⟩⟩ := hback hr'
    · rw [ht]
      exact (hprepared (hs.symm.trans hp)).1
    · exact h.tokens _ hr hp

/-- A request that is recorded for a stored version. -/
theorem record (h : t.Sound cfg drawn) {q : RequestRow} {r : SnapshotRow} (hr : r ∈ t.snapshots)
    (hversion : r.version = q.version) (hstatus : q.status = .applied ↔ r.state = .committed)
    (hmessage : q.commandKind = some patchKind → ∀ s, decode cfg r = .ok s →
      s.messageId = q.messageId)
    (hsame : ∀ q' ∈ t.requests, q'.messageId = q.messageId → q'.version = q.version) :
    (t.record q).Sound cfg drawn := by
  have hrequests := record_requests t q
  refine ⟨by simpa using h.gateway, by simpa using h.versions, ?_, by simpa using h.decodes,
    by simpa [activeVersion] using h.newer, by simpa using h.single,
    by simpa [activeVersion] using h.older, by simpa using h.pointer, ?_, ?_,
    by simpa using h.issued, by simpa using h.distinct, by simpa using h.tokens⟩
  · rcases hrequests with ⟨hnew, heq⟩ | ⟨-, heq⟩
    · rw [heq]
      exact h.messages.append (request?_none.mp hnew)
    · rw [heq]
      refine h.messages.map fun q' => ?_
      split <;> rfl
  · rw [record_snapshots]
    intro q' hq'
    rcases hrequests with ⟨-, heq⟩ | ⟨-, heq⟩
    · rw [heq] at hq'
      rcases List.mem_append.mp hq' with hq' | hq'
      · exact h.applied q' hq'
      · rw [List.mem_singleton.mp hq']
        exact ⟨r, hr, hversion, hstatus⟩
    · rw [heq] at hq'
      obtain ⟨q0, hq0, rfl⟩ := List.mem_map.mp hq'
      by_cases hm : q0.messageId = q.messageId
      · rw [if_pos hm]
        exact ⟨r, hr, hversion.trans (hsame q0 hq0 hm).symm, hstatus⟩
      · rw [if_neg hm]
        exact h.applied q0 hq0
  · rw [record_snapshots]
    intro q' hq' hkind r' hr' hv s hs
    rcases hrequests with ⟨-, heq⟩ | ⟨-, heq⟩
    · rw [heq] at hq'
      rcases List.mem_append.mp hq' with hq' | hq'
      · exact h.commands q' hq' hkind r' hr' hv s hs
      · rw [List.mem_singleton.mp hq'] at hkind hv ⊢
        -- There is one row for each version.
        have hrr : r' = r := h.versions.eq_of_key hr' hr (hv.trans hversion.symm)
        exact hmessage hkind s (hrr ▸ hs)
    · rw [heq] at hq'
      obtain ⟨q0, hq0, rfl⟩ := List.mem_map.mp hq'
      by_cases hm : q0.messageId = q.messageId
      · rw [if_pos hm] at hkind hv ⊢
        exact h.commands q0 hq0 hkind r' hr' hv s hs
      · rw [if_neg hm] at hkind hv ⊢
        exact h.commands q0 hq0 hkind r' hr' hv s hs

/-- The statuses of the requests of a version that is not committed. -/
theorem setStatus (h : t.Sound cfg drawn) {v : ℤ} {status : RequestStatus}
    (hstatus : status ≠ .applied) (hv : ∀ r ∈ t.snapshots, r.version = v → r.state ≠ .committed) :
    (t.setStatus v status).Sound cfg drawn := by
  refine { h with messages := ?_, applied := ?_, commands := ?_ }
  · refine h.messages.map fun q => ?_
    split <;> rfl
  · intro q' hq'
    obtain ⟨q, hq, rfl⟩ := List.mem_map.mp hq'
    obtain ⟨r, hr, hversion, hiff⟩ := h.applied q hq
    by_cases hqv : q.version = v
    · rw [if_pos hqv]
      refine ⟨r, hr, hversion, ?_⟩
      exact ⟨fun ha => absurd ha hstatus, fun hc => absurd hc (hv r hr (hversion.trans hqv))⟩
    · rw [if_neg hqv]
      exact ⟨r, hr, hversion, hiff⟩
  · intro q' hq' hkind r hr hversion s hs
    obtain ⟨q, hq, rfl⟩ := List.mem_map.mp hq'
    by_cases hqv : q.version = v
    · rw [if_pos hqv] at hkind hversion ⊢
      exact h.commands q hq hkind r hr hversion s hs
    · rw [if_neg hqv] at hkind hversion ⊢
      exact h.commands q hq hkind r hr hversion s hs

end Tables.Sound

/-- The commit of a candidate. -/
theorem Tables.Sound.promote (h : t.Sound cfg drawn) {r : SnapshotRow} (hr : r ∈ t.snapshots)
    (hprepared : r.state = .prepared) : (t.promote r.version).Sound cfg drawn := by
  have hactive : (t.promote r.version).activeVersion = r.version := rfl
  have hnewer := h.newer r hr hprepared
  -- Each row comes from one with its content, and only that of `r` changes its state.
  have hback : ∀ {r'}, r' ∈ (t.promote r.version).snapshots → ∃ r0 ∈ t.snapshots, r0.Same r' ∧
      r'.token = r0.token ∧
      (r0 = r ∧ r'.state = .committed ∨ r0.version ≠ r.version ∧ r' = r0) := by
    intro r' hr'
    obtain ⟨r0, hr0, rfl⟩ := Tables.mem_promote.mp hr'
    by_cases hv : r0.version = r.version
    · rw [if_pos hv]
      exact ⟨r0, hr0, ⟨rfl, rfl, rfl⟩, rfl, .inl ⟨h.versions.eq_of_key hr0 hr hv, rfl⟩⟩
    · rw [if_neg hv]
      exact ⟨r0, hr0, .refl r0, rfl, .inr ⟨hv, rfl⟩⟩
  have hfore : ∀ r0 ∈ t.snapshots, (if r0.version = r.version then
      { r0 with state := SnapshotState.committed } else r0) ∈ (t.promote r.version).snapshots :=
    fun r0 hr0 => Tables.mem_promote.mpr ⟨r0, hr0, rfl⟩
  -- `r` was the only prepared row.
  have hnone : ∀ r' ∈ (t.promote r.version).snapshots, r'.state ≠ .prepared := by
    intro r' hr' hp
    obtain ⟨r0, hr0, -, -, ⟨-, hc⟩ | ⟨hv, rfl⟩⟩ := hback hr'
    · rw [hp] at hc
      cases hc
    · exact hv (congrArg _ (h.single r' hr0 r hr hp hprepared))
  refine ⟨h.gateway, ?_, ?_, ?_, fun r' hr' hp => absurd hp (hnone r' hr'),
    fun r' hr' _ _ hp _ => absurd hp (hnone r' hr'), ?_, ?_, ?_, ?_, ?_, ?_,
    fun r' hr' hp => absurd hp (hnone r' hr')⟩
  · refine h.versions.map fun r0 => ?_
    split <;> rfl
  · refine h.messages.map fun q => ?_
    split <;> rfl
  · intro r' hr'
    obtain ⟨r0, hr0, hsame, -, -⟩ := hback hr'
    rw [decode_same cfg hsame, hsame.version]
    exact h.decodes r0 hr0
  · intro r' hr' hc
    rw [hactive]
    obtain ⟨r0, hr0, hsame, -, ⟨rfl, -⟩ | ⟨-, rfl⟩⟩ := hback hr'
    · exact hsame.version.le
    · exact (h.older r' hr0 hc).trans hnewer.le
  · intro v hv
    cases hv
    refine ⟨_, hfore r hr, ?_⟩
    rw [if_pos rfl]
    exact ⟨rfl, rfl⟩
  · intro q' hq'
    obtain ⟨q, hq, rfl⟩ := List.mem_map.mp hq'
    obtain ⟨r0, hr0, hversion, hiff⟩ := h.applied q hq
    refine ⟨_, hfore r0 hr0, ?_⟩
    by_cases hv : q.version = r.version
    · rw [if_pos hv, if_pos (hversion.trans hv)]
      exact ⟨hversion, ⟨fun _ => rfl, fun _ => rfl⟩⟩
    · rw [if_neg hv, if_neg (fun heq => hv (hversion.symm.trans heq))]
      exact ⟨hversion, hiff⟩
  · intro q' hq' hkind r' hr' hversion s hs
    obtain ⟨r0, hr0, hsame, -, -⟩ := hback hr'
    rw [decode_same cfg hsame] at hs
    obtain ⟨q, hq, rfl⟩ := List.mem_map.mp hq'
    have hv0 : r0.version = q.version := by
      rw [← hsame.version, hversion]
      split <;> rfl
    have hmessage : s.messageId = q.messageId := by
      refine h.commands q hq ?_ r0 hr0 hv0 s hs
      rw [← hkind]
      split <;> rfl
    rw [hmessage]
    split <;> rfl
  · intro r' hr' token ht
    obtain ⟨r0, hr0, -, htoken, -⟩ := hback hr'
    exact h.issued r0 hr0 token (htoken.symm.trans ht)
  · intro r1 hr1 r2 hr2 heq hsome
    obtain ⟨r1', hr1', rfl⟩ := Tables.mem_promote.mp hr1
    obtain ⟨r2', hr2', rfl⟩ := Tables.mem_promote.mp hr2
    have htoken : ∀ x : SnapshotRow, (if x.version = r.version then
        { x with state := SnapshotState.committed } else x).token = x.token := by
      intro x
      split <;> rfl
    rw [htoken, htoken] at heq
    rw [htoken] at hsome
    rw [h.distinct r1' hr1' r2' hr2' heq hsome]

/-- The recovery of interrupted preparations. -/
theorem Tables.Sound.interrupt (h : t.Sound cfg drawn) : t.interrupt.Sound cfg drawn := by
  -- Each row comes from one with its content, and none is prepared any more.
  have hback : ∀ {r'}, r' ∈ t.interrupt.snapshots → r'.state ≠ .prepared ∧ ∃ r ∈ t.snapshots,
      r.Same r' ∧ (r'.state = .committed ↔ r.state = .committed) ∧ (r' = r ∨ r'.token = none) := by
    intro r' hr'
    obtain ⟨r, hr, rfl⟩ := List.mem_map.mp hr'
    by_cases hp : r.state = .prepared
    · rw [if_pos hp]
      refine ⟨nofun, r, hr, ⟨rfl, rfl, rfl⟩, ?_, .inr rfl⟩
      rw [hp]
      exact ⟨nofun, nofun⟩
    · rw [if_neg hp]
      exact ⟨hp, r, hr, .refl r, Iff.rfl, .inl rfl⟩
  have hkeep : ∀ r ∈ t.snapshots, r.state = .committed → r ∈ t.interrupt.snapshots := by
    intro r hr hc
    refine List.mem_map.mpr ⟨r, hr, if_neg ?_⟩
    rw [hc]
    nofun
  refine ⟨h.gateway, ?_, ?_, ?_, fun r' hr' hp => absurd hp (hback hr').1,
    fun r' hr' _ _ hp _ => absurd hp (hback hr').1, ?_, ?_, ?_, ?_, ?_, ?_,
    fun r' hr' hp => absurd hp (hback hr').1⟩
  · refine h.versions.map fun r => ?_
    split <;> rfl
  · refine h.messages.map fun q => ?_
    split <;> rfl
  · intro r' hr'
    obtain ⟨-, r, hr, hsame, -⟩ := hback hr'
    rw [decode_same cfg hsame, hsame.version]
    exact h.decodes r hr
  · intro r' hr' hc
    obtain ⟨-, r, hr, hsame, hiff, -⟩ := hback hr'
    rw [hsame.version]
    exact h.older r hr (hiff.mp hc)
  · intro v hv
    obtain ⟨r, hr, hversion, hc⟩ := h.pointer v hv
    exact ⟨r, hkeep r hr hc, hversion, hc⟩
  · intro q' hq'
    obtain ⟨q, hq, rfl⟩ := List.mem_map.mp hq'
    obtain ⟨r, hr, hversion, hiff⟩ := h.applied q hq
    refine ⟨_, List.mem_map_of_mem hr, ?_, ?_⟩
    · split <;> split <;> exact hversion
    · by_cases hc : r.state = .committed
      · have hq' : q.status = .applied := hiff.mpr hc
        simp [hc, hq']
      · have hq' : q.status ≠ .applied := fun ha => hc (hiff.mp ha)
        split <;> split <;> simp_all
  · intro q' hq' hkind r' hr' hversion s hs
    obtain ⟨-, r, hr, hsame, -⟩ := hback hr'
    rw [decode_same cfg hsame] at hs
    obtain ⟨q, hq, rfl⟩ := List.mem_map.mp hq'
    have hv : r.version = q.version := by
      rw [← hsame.version, hversion]
      split <;> rfl
    have hmessage : s.messageId = q.messageId := by
      refine h.commands q hq ?_ r hr hv s hs
      rw [← hkind]
      split <;> rfl
    rw [hmessage]
    split <;> rfl
  · intro r' hr' token ht
    obtain ⟨-, r, hr, -, -, rfl | hnone⟩ := hback hr'
    · exact h.issued _ hr token ht
    · rw [hnone] at ht
      cases ht
  · intro r1 hr1 r2 hr2 heq hsome
    have hold : ∀ x ∈ t.interrupt.snapshots, x.token.isSome → x ∈ t.snapshots := by
      intro x hx hsome
      obtain ⟨-, r, hr, -, -, rfl | hnone⟩ := hback hx
      · exact hr
      · rw [hnone] at hsome
        cases hsome
    exact h.distinct r1 (hold r1 hr1 hsome) r2 (hold r2 hr2 (heq ▸ hsome)) heq hsome

theorem Tables.Sound.mark_grows (h : t.Sound cfg drawn) {v : ℤ} (hv : t.activeVersion < v)
    (state : SnapshotState) (token : Option PyStr) : t.Grows (t.mark v state token) where
  snapshots r hr := by
    by_cases hrv : r.version = v
    · refine ⟨{ r with state, token }, ?_, ⟨rfl, rfl, rfl⟩, fun hc => ?_⟩
      · exact Tables.mem_mark.mpr ⟨r, hr, ⟨rfl, rfl, rfl⟩, .inl ⟨hrv, rfl, rfl⟩⟩
      · have := h.older r hr hc
        omega
    · exact ⟨r, Tables.mem_mark.mpr ⟨r, hr, .refl r, .inr ⟨hrv, rfl⟩⟩, .refl r, id⟩
  requests q hq := ⟨q, hq, .refl q⟩
  active := le_refl _

theorem Tables.Sound.promote_grows (h : t.Sound cfg drawn) {r : SnapshotRow} (hr : r ∈ t.snapshots)
    (hprepared : r.state = .prepared) : t.Grows (t.promote r.version) where
  snapshots r0 hr0 := by
    refine ⟨_, Tables.mem_promote.mpr ⟨r0, hr0, rfl⟩, ?_⟩
    split
    · exact ⟨⟨rfl, rfl, rfl⟩, fun _ => rfl⟩
    · exact ⟨.refl r0, id⟩
  requests q hq := by
    refine ⟨_, List.mem_map_of_mem hq, ?_⟩
    split <;> exact ⟨rfl, rfl, rfl, rfl⟩
  active := (h.newer r hr hprepared).le

end Sound

end PlcnextIot.Config
