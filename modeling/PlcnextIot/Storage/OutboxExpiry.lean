/-
  PlcnextIot.Storage.OutboxExpiry

  The age scan: what has to be true before it makes a batch `DEAD`.

  A trusted row carries the reading that its commit guard accepted; the scan
  compares it with a reading of its own.  Both are right up to their error
  bounds, so the least age that they allow is a bound on true time.
-/

import PlcnextIot.Core.TimeAccuracy
import PlcnextIot.Core.TimeHandshake
import PlcnextIot.Storage.Migration
import PlcnextIot.Storage.OutboxSending

namespace PlcnextIot.Storage

open PlcnextIot.Python PlcnextIot.Contracts PlcnextIot.Config PlcnextIot.Reporting
open PlcnextIot.Core PlcnextIot.Effect PlcnextIot.Effect.Prog Relation

/-! ## Readings -/

/-- The `n`-th call of the provider has returned this snapshot. -/
def TimeProvider.Reports (p : TimeProvider) (n : ℕ) (t : TimeSnapshot) : Prop :=
  p.snapshot n = .ok t ∨ ∃ token purpose, p.require n token purpose = .ok t

/-- `require` reports a snapshot of its own, taken after that of its check. -/
theorem TimeProvider.Reports.taken {p : TimeProvider} {n : ℕ} {t : TimeSnapshot} (h : p.Reports n t) :
    letI := p.rounding
    ∃ s ∈ [p.state n, ((PlatformTime.snapshot p.inp).run (p.state n)).2],
      ((PlatformTime.snapshot p.inp).run s).1 = .ok t := by
  let := p.rounding
  rcases h with h | ⟨token, purpose, h⟩
  · exact ⟨_, .head _, h⟩
  · refine ⟨_, .tail _ (.head _), ?_⟩
    have hsnapshot : wp (PlatformTime.require p.inp token purpose) (fun t _ =>
        ((PlatformTime.snapshot p.inp).run ((PlatformTime.snapshot p.inp).run (p.state n)).2).1 = .ok t)
        (fun _ _ => True) (p.state n) := by
      simp only [PlatformTime.require, PlatformTime.valid, wp_bind, wp_get, wp_check, wp_pure]
      refine ⟨fun _ => ?_, fun _ => trivial⟩
      refine (wp_iff_run _).mpr ⟨fun t₁ s₁ h₁ => ⟨fun _ => ?_, fun _ => trivial⟩, fun _ _ _ => trivial⟩
      rw [h₁]
      exact (wp_iff_run _).mpr ⟨fun t₂ s₂ h₂ => congrArg Prod.fst h₂, fun _ _ _ => trivial⟩
    exact hsnapshot.of_ok (Prod.ext h rfl)

theorem TimeProvider.Reports.coherent {p : TimeProvider} {n : ℕ} {t : TimeSnapshot}
    (h : p.Reports n t) : t.Coherent := by
  let := p.rounding
  rcases h with h | ⟨token, purpose, h⟩
  · exact (wp_snapshot_coherent (s := p.state n)).of_ok (Prod.ext h rfl)
  · exact (wp_require_coherent (s := p.state n)).of_ok (Prod.ext h rfl)

/-- Every valid snapshot is right up to its error bound; `U n m` is true UTC in the
    `n`-th call of the provider when its clock shows `m`. -/
def OutboxEnv.Accurate (env : OutboxEnv) (U : ℕ → ℤ → ℚ) : Prop :=
  ∀ p, env.provider = some p → ∀ n t, p.Reports n t → Core.Accurate (U n) t

/-! ## Stamps -/

/-- An entry has the time columns of a batch. -/
structure BatchState.From (e : BatchState) (b : Batch) : Prop extends e.Of b where
  timeTrust : e.row.timeTrust = b.timeTrust
  timeBasisRef : e.row.timeBasisRef = b.timeBasisRef
  enqueuedUtcMs : e.row.enqueuedUtcMs = b.enqueuedUtcMs
  uncertaintyMs : e.row.uncertaintyMs = b.uncertaintyMs

theorem Agrees.from {e : BatchState} {b b₀ : Batch} (h : Agrees e b) (hfixed : b₀.fixed = b.fixed) :
    e.From b₀ where
  toOf := h.of.fixed hfixed.symm
  timeTrust := h.timeTrust.trans (congrArg (fun c : Batch => c.timeTrust) hfixed.symm :)
  timeBasisRef := h.timeBasisRef.trans (congrArg (fun c : Batch => c.timeBasisRef) hfixed.symm :)
  enqueuedUtcMs := h.enqueuedUtcMs.trans (congrArg (fun c : Batch => c.enqueuedUtcMs) hfixed.symm :)
  uncertaintyMs := h.uncertaintyMs.trans (congrArg (fun c : Batch => c.uncertaintyMs) hfixed.symm :)

/-- The commit guard of this batch has accepted the snapshot that it carries, in the
    `n`-th call of the provider. -/
def AcceptedAt (env : OutboxEnv) (b : Batch) (n : ℕ) (c : TimeSnapshot) : Prop :=
  ∃ p token, env.provider = some p ∧ p.require n token .enqueue = .ok c ∧
    b.enqueuedUtcMs = c.utcMs ∧ b.uncertaintyMs = c.uncertaintyMs

def Accepted (env : OutboxEnv) (b : Batch) (accepted : Option ℕ) : Prop :=
  ∃ n c, accepted = some n ∧ AcceptedAt env b n c

/-- What the journal says about time. -/
structure Timed (env : OutboxEnv) (journal : List Change) : Prop where
  accepted : ∀ b n, .inserted b n ∈ journal → b.timeTrust = .hubTrusted → Accepted env b n
  ended : ∀ e source cause old, .terminated e source cause old ∈ journal →
    ∃ b ∈ insertions journal, e.From b

section Stamps

variable [JsonSchema] {env : OutboxEnv} {op : OutboxOp}

theorem accepted_of_admitted {s : Outbox} {i : Insertion} (h : i.Admitted env op s)
    (htrust : i.batch.timeTrust = .hubTrusted) : Accepted env i.batch i.accepted := by
  obtain ⟨db, -, hguarded⟩ := h.guarded
  have hfirst : i.firstRow.timeTrust = .hubTrusted := by
    obtain ⟨utc, error, hrow⟩ := h.inserts.row
    rw [Insertion.batch, hrow] at htrust
    exact htrust
  unfold Insertion.Guarded at hguarded
  split at hguarded
  · rename_i hnone
    have hgated := h.gated
    unfold Gated at hgated
    rw [hnone] at hgated
    rw [Insertion.firstRow, hgated] at hfirst
    cases hfirst
  · rename_i p hp
    obtain ⟨n, c, haccepted, hrequire, hrow⟩ := hguarded
    rw [if_pos hfirst] at hrow
    refine ⟨n, c, haccepted, p, i.token, hp, hrequire, ?_, ?_⟩
    · rw [Insertion.batch, hrow.1]
      rfl
    · rw [Insertion.batch, hrow.1]
      rfl

omit [JsonSchema] in
theorem Timed.note {journal : List Change} (h : Timed env journal) {c : Change}
    (hinserted : ∀ b n, c = .inserted b n → b.timeTrust = .hubTrusted → Accepted env b n)
    (hended : ∀ e source cause old, c = .terminated e source cause old →
      ∃ b ∈ insertions journal, e.From b) : Timed env (journal ++ [c]) := by
  have hgrow : ∀ b ∈ insertions journal, b ∈ insertions (journal ++ [c]) := fun b hb => by
    obtain ⟨n, hn⟩ := mem_insertions.mp hb
    exact mem_insertions.mpr ⟨n, List.mem_append_left _ hn⟩
  refine ⟨fun b n hin => ?_, fun e source cause old hin => ?_⟩
  · rcases List.mem_append.mp hin with hin | hin
    · exact h.accepted b n hin
    · exact hinserted b n (List.mem_singleton.mp hin).symm
  · rcases List.mem_append.mp hin with hin | hin
    · obtain ⟨b, hb, hfrom⟩ := h.ended e source cause old hin
      exact ⟨b, hgrow b hb, hfrom⟩
    · obtain ⟨b, hb, hfrom⟩ := hended e source cause old (List.mem_singleton.mp hin).symm
      exact ⟨b, hgrow b hb, hfrom⟩

theorem timed_step [Footprint] {s s' : Outbox} (hstep : Commit env op s s') (hs : Sound env s)
    (hledger : Ledger env (fun _ => True) s.journal s.db) (h : Timed env s.journal) :
    Timed env s'.journal := by
  cases hstep with
  | waited hl =>
      rw [hl.frame]
      exact h
  | inserted i hi =>
      refine h.note (fun b n hc htrust => ?_) fun e source cause old hc => by cases hc
      cases hc
      exact accepted_of_admitted hi htrust
  | terminated cause key reason source e hopen hkey hwhy hread =>
      refine h.note (fun b n hc => by cases hc) fun e' source' cause' old' hc => ?_
      cases hc
      -- The row of the entry is one that was inserted.
      obtain ⟨b, hb, -, hagrees⟩ := hs.memory.entries key e hkey
      obtain ⟨b₀, hb₀, hfixed⟩ := hledger.origin b hb
      exact ⟨b₀, hb₀, hagrees.from hfixed⟩
  | pruned key e hopen hkey hdead =>
      exact h.note (fun b n hc => by cases hc) fun e source cause old hc => by cases hc
  | stored ack key e hopen hkey hsent hwaits hack =>
      exact h.note (fun b n hc => by cases hc) fun e source cause old hc => by cases hc
  | attempted r hr payload hpayload hbytes =>
      exact h.note (fun b n hc => by cases hc) fun e source cause old hc => by cases hc
  | accounted | staged | restaged | dropped | purged | deactivated | retried | sdkRejected | gated
  | closed | reopened | restarted | refreshed | attached | opened => exact h

theorem timed_run [Footprint] {s : Outbox} (hs : Sound env s)
    (hledger : Ledger env (fun _ => True) s.journal s.db) (h : Timed env s.journal)
    (ops : List OutboxOp) : Timed env (runCalls (OutboxOp.exec env) s ops).journal := by
  refine (runCalls_keeps (I := fun s => Sound env s ∧ Ledger env (fun _ => True) s.journal s.db ∧
    Timed env s.journal) exec_goes
    (fun op _ a b hstep hab => ⟨sound_step hstep hab.1, ?_, ?_⟩) ⟨hs, hledger, h⟩).2.2
  · exact ledger_step hstep hab.1 (fun _ _ => trivial) hab.2.1
  · exact timed_step hstep hab.1 hab.2.1 hab.2.2

/-- The rows of a file of version 1 have no trusted time. -/
theorem Begins.timed {s : Outbox} (h : Begins env s) : Timed env s.journal := by
  obtain ⟨-, hold⟩ := h.rows
  refine ⟨fun b n hin htrust => ?_, fun e source cause old hin => ?_⟩
  · obtain ⟨b', hb', hlegacy, -⟩ := hold _ hin
    cases hb'
    rw [hlegacy] at htrust
    cases htrust
  · obtain ⟨b', hb', -⟩ := hold _ hin
    cases hb'

end Stamps

/-! ## Age -/

/-- Why an entry of a journal has expired: it was trusted, of the basis of the
    scan, at rest, and a week of true time old; and the gate was open. -/
structure AgedOut (env : OutboxEnv) (U : ℕ → ℤ → ℚ) (journal : List Change) (e : BatchState)
    (scan : Scan) (guard : ℕ) : Prop where
  pending : e.row.state = .pending
  trusted : e.row.timeTrust = .hubTrusted
  basis : e.row.timeBasisRef = scan.current.timeBasisRef
  idle : e.active = true → e.due ≤ scan.mono
  aged : ∃ b n c, .inserted b (some n) ∈ journal ∧ e.From b ∧ AcceptedAt env b n c ∧
    7 * 86400 * 1000 ≤ U scan.reading scan.current.monoMs - U n c.monoMs
  gate : ∃ p, scan.Of env p ∧ ∃ token c, p.require guard (some token) .enqueue = .ok c

section Age

variable {env : OutboxEnv} {U : ℕ → ℤ → ℚ} {scan : Scan} {guard : ℕ} {e : BatchState} {reason : PyStr}

/-- What the scan has checked of an entry. -/
theorem Expiry.checked (h : Expiry env scan guard e reason) :
    e.row.state = .pending ∧ (e.row.timeTrust = .hubTrusted ∧
      e.row.timeBasisRef = scan.current.timeBasisRef) ∧
      (∃ lower, ageLower scan.current e.row = .ok lower ∧ maxAgeMs ≤ lower) ∧
      (e.active = true → e.due ≤ scan.mono) := by
  obtain ⟨lower, hlower, hexp⟩ := h.expirable
  simp only [Storage.expirable, comparable, Bool.and_eq_true, decide_eq_true_eq, Bool.not_eq_true',
    Bool.and_eq_false_iff, decide_eq_false_iff_not, not_lt] at hexp
  obtain ⟨⟨⟨hpending, hsame⟩, hold⟩, hidle⟩ := hexp
  refine ⟨hpending, hsame, ⟨lower, ?_, hold⟩, fun hactive => hidle.resolve_left (by simp [hactive])⟩
  rw [lowerAge, comparable] at hlower
  simpa [hsame] using hlower

/-- Two accurate readings bound the true time between them. -/
theorem age_sound (haccurate : env.Accurate U) {p : TimeProvider} (hp : env.provider = some p)
    {n m : ℕ} {now then_ : TimeSnapshot} (hnow : p.Reports m now) (hthen : p.Reports n then_)
    {r : Row} (hutc : r.enqueuedUtcMs = then_.utcMs) (herror : r.uncertaintyMs = then_.uncertaintyMs)
    {lower : ℤ} (hlower : ageLower now r = .ok lower) (hpos : 0 < lower) :
    (lower : ℚ) ≤ U m now.monoMs - U n then_.monoMs := by
  unfold ageLower at hlower
  split at hlower
  · rename_i utc error enqueued uncertainty hu he hq hc
    cases hlower
    rw [hq] at hutc
    rw [hc] at herror
    have hvalid := hnow.coherent.dated (by rw [hu]; exact Option.some_ne_none _)
    have hvalid' := hthen.coherent.dated (by rw [← hutc]; exact Option.some_ne_none _)
    obtain ⟨utc', error', hu', he', hnear⟩ := haccurate p hp m now hnow hvalid
    obtain ⟨enqueued', uncertainty', hq', hc', hnear'⟩ := haccurate p hp n then_ hthen hvalid'
    rw [hu] at hu'
    rw [he] at he'
    rw [hq'] at hutc
    rw [hc'] at herror
    cases hu'
    cases he'
    cases hutc
    cases herror
    have hmax : max 0 (utc - error - enqueued - uncertainty) = utc - error - enqueued - uncertainty :=
      max_eq_right (by omega)
    rw [hmax]
    push_cast
    have h₁ := (abs_le.mp hnear).1
    have h₂ := (abs_le.mp hnear').2
    linarith
  · cases hlower

end Age

section Runs

variable [JsonSchema] {env : OutboxEnv} {U : ℕ → ℤ → ℚ} {journal : List Change} {db : Db}

/-- Every expiry in the journal is justified. -/
theorem agedOut_of (haccurate : env.Accurate U) (hledger : Ledger env (fun _ => True) journal db)
    (htimed : Timed env journal) {e : BatchState} {cause : Cause} {old : List BatchState}
    (hin : .terminated e .ageExpired cause old ∈ journal) :
    ∃ scan guard, cause = .aged scan guard ∧ AgedOut env U journal e scan guard := by
  obtain ⟨-, hcaused, -⟩ := hledger.justified _ hin
  cases hcaused with
  | aged hexpiry =>
      rename_i scan guard reason
      obtain ⟨hpending, ⟨htrust, hbasis⟩, ⟨lower, hlower, hold⟩, hidle⟩ := hexpiry.checked
      obtain ⟨p, hscan, token, c, hrequire⟩ := hexpiry.scanned
      obtain ⟨b, hb, hfrom⟩ := htimed.ended e _ _ old hin
      obtain ⟨accepted, hinserted⟩ := mem_insertions.mp hb
      obtain ⟨n, c', rfl, p', token', hp', hrequire', hutc, herror⟩ :=
        htimed.accepted b accepted hinserted (hfrom.timeTrust.symm.trans htrust)
      have hp : p' = p := Option.some.inj (hp'.symm.trans hscan.provider)
      subst hp
      have hage := age_sound haccurate hp' (.inl hscan.snapshot) (.inr ⟨token', _, hrequire'⟩)
        (hfrom.enqueuedUtcMs.trans hutc) (hfrom.uncertaintyMs.trans herror) hlower
        (lt_of_lt_of_le (by decide) hold)
      refine ⟨scan, guard, rfl, hpending, htrust, hbasis, hidle,
        ⟨b, n, c', hinserted, hfrom, ⟨p', token', hp', hrequire', hutc, herror⟩, ?_⟩,
        ⟨p', hscan, token, c, hrequire⟩⟩
      have hmax : (7 * 86400 * 1000 : ℚ) = (maxAgeMs : ℤ) := by norm_num [maxAgeMs]
      rw [hmax]
      exact le_trans (by exact_mod_cast hold) hage

/-- A batch without trusted time never expires. -/
theorem untrusted_never (hledger : Ledger env (fun _ => True) journal db) (htimed : Timed env journal)
    {b : Batch} (hb : b ∈ insertions journal) (htrust : b.timeTrust ≠ .hubTrusted) {e : BatchState}
    {cause : Cause} {old : List BatchState} (hin : .terminated e .ageExpired cause old ∈ journal) :
    ¬ e.Of b := by
  intro hof
  obtain ⟨-, hcaused, -⟩ := hledger.justified _ hin
  cases hcaused with
  | aged hexpiry =>
      obtain ⟨b', hb', hfrom⟩ := htimed.ended e _ _ old hin
      -- Local orders are given out once.
      have hinj := List.inj_on_of_nodup_map (hledger.increasing.imp fun h => h.ne)
      have hsame : b = b' := hinj hb hb' (hof.localOrder.symm.trans hfrom.localOrder)
      rw [hsame, ← hfrom.timeTrust] at htrust
      exact htrust hexpiry.checked.2.1.1

end Runs

/-! ## A closed gate -/

section Closed

variable [Footprint] {env : OutboxEnv} {p : TimeProvider}

/-- When the gate is closed to the token of a scan at the commit of an expiry,
    nothing has changed. -/
theorem wp_expireEntry_closed {scan : Scan} {key : PyStr} {s : Outbox}
    (hclosed : ∀ token c, p.token s.timeReads = .ok token →
      p.require (s.timeReads + 1) (some token) .enqueue ≠ .ok c) :
    wp (expireEntry env p scan key) (fun _ s' => Later s s') (fun _ s' => Later s s') s := by
  unfold expireEntry
  rw [wp_bind, wp_get]
  cases hkey : s.session.entries.get? key with
  | none => exact Later.refl s
  | some e =>
      dsimp only
      rw [wp_bind, wp_result]
      refine ⟨fun lower _ => ?_, fun _ _ => Later.refl s⟩
      rw [wp_ite]
      refine ⟨fun _ => ?_, fun _ => Later.refl s⟩
      rw [wp_bind]
      refine wp_reading (fun token htoken => ?_) fun _ => later_time s
      have hkey' : ({ s with timeReads := s.timeReads + 1 } : Outbox).session.entries.get? key
        = some e := hkey
      simp only [terminal, wp_bind, wp_get, hkey', wp_gets]
      refine wp_repository (E := Later s) ((later_time s).trans (later_transaction _)) ?_
      simp only [wp_bind, wp_modify, expiryGuard, wp_gets]
      refine wp_reading (fun c hc => absurd hc (hclosed token c htoken)) fun _ => ?_
      -- The rollback takes the file back; the memory was not touched yet.
      exact ⟨rfl, Nat.le_add_right s.timeReads 2, le_rfl⟩

end Closed

/-! ## The acknowledgement window -/

/-- While it is in the table, the batch is due later, and an attempt of it is open,
    or it is `DEAD`, or the time `due` has come. -/
def Awaits (env : OutboxEnv) (s : Outbox) (key : PyStr) (order : ℤ) (due : ℚ) : Prop :=
  order < s.db.info.nextOrder ∧ ∀ b ∈ s.db.batches, b.messageId = key → b.localOrder = order →
    ∃ e, s.session.entries.get? key = some e ∧ due ≤ e.due ∧
      (e.active = true ∨ e.row.state = .dead ∨ ∃ n < s.clockReads, due ≤ env.clock n)

section Window

variable [JsonSchema] [Footprint] {env : OutboxEnv} {op : OutboxOp} {s s' : Outbox}

omit [JsonSchema] [Footprint] in
theorem Quiet.awaits (hq : Quiet env op s s') {key : PyStr} (hanswer : ¬ op.Answers key)
    {order : ℤ} {due : ℚ} (h : Awaits env s key order due) : Awaits env s' key order due := by
  obtain ⟨hnext, hrows⟩ := h
  refine ⟨hnext.trans_le hq.next, fun b' hb' hkey horder => ?_⟩
  rcases hq.rows b' hb' with ⟨b, hb, hfix, -⟩ | ⟨hnew, -⟩
  · obtain ⟨e, he, hdue, hopen⟩ := hrows b hb ((messageId_of_fixed hfix).trans hkey)
      ((localOrder_of_fixed hfix).trans horder)
    have hturn := hq.turns key
    rw [he] at hturn
    generalize hget : s'.session.entries.get? key = o at hturn
    cases hturn with
    | gone hgone => exact absurd hkey (hgone b' hb')
    | delayed hsent hlast hnew hidle hanswered hdead => exact absurd hanswered hanswer
    | kept hkept =>
        refine ⟨_, rfl, hdue.trans hkept.due.ge, ?_⟩
        rcases hopen with hactive | hdead | ⟨n, hn, hle⟩
        · rcases hkept.still hactive with hactive' | ⟨n, hn, hle⟩ | hdead | hanswered
          · exact .inl hactive'
          · exact .inr (.inr ⟨n, hn, hdue.trans hle⟩)
          · exact .inr (.inl hdead)
          · exact absurd hanswered hanswer
        · exact .inr (.inl (hkept.dead hdead))
        · exact .inr (.inr ⟨n, hn.trans_le hq.clock, hle⟩)
  · omega

omit [JsonSchema] in
/-- A reservation leaves its batch active, and no other attempt closed. -/
theorem awaits_reserve {r : Reservation} {size : ℕ} (hfound : r.Found env s)
    (hmono : Monotone env.clock) (hfirst : r.first ≤ s.clockReads) {key : PyStr} {order : ℤ} {due : ℚ}
    (h : Awaits env s key order due) : Awaits env (s.reserve env size r) key order due := by
  have hheld : Held s key order due := ⟨h.1, fun b hb hkey horder => by
    obtain ⟨e, he, hdue, -⟩ := h.2 b hb hkey horder
    exact ⟨e, he, hdue⟩⟩
  obtain ⟨hnext, hrows⟩ := held_reserve hfound hmono hfirst hheld
  refine ⟨hnext, fun b' hb' hkey horder => ?_⟩
  obtain ⟨e', he', hdue⟩ := hrows b' hb' hkey horder
  refine ⟨e', he', hdue, ?_⟩
  rw [get?_reserve] at he'
  split at he'
  · obtain ⟨e, -, rfl⟩ := Option.map_eq_some_iff.mp he'
    exact .inl rfl
  · obtain ⟨b, hb, rfl⟩ := List.mem_map.mp hb'
    have hsame : b.messageId = key ∧ b.localOrder = order := by
      split at hkey <;> split at horder <;> exact ⟨hkey, horder⟩
    obtain ⟨e, he, -, hopen⟩ := h.2 b hb hsame.1 hsame.2
    rw [he] at he'
    cases he'
    rcases hopen with hactive | hdead | ⟨n, hn, hle⟩
    · exact .inl hactive
    · exact .inr (.inl hdead)
    · exact .inr (.inr ⟨n, hn.trans (Nat.lt_succ_self _), hle⟩)

theorem awaits_step (hmono : Monotone env.clock) (hstays : op.Stays)
    (hstep : Commit env op s s') (h : Scheduling env s) {key : PyStr} (hanswer : ¬ op.Answers key)
    {order : ℤ} {due : ℚ} (hawaits : Awaits env s key order due) : Awaits env s' key order due := by
  rcases commit_kinds hstep h.sound h.staged with
    ⟨r, payload, hr, -, rfl⟩ | ⟨maxBytes, maxRecords, accounting, hop, -⟩ | hquiet
  · exact awaits_reserve (hr.found h.sound) hmono hr.first.le hawaits
  · exact absurd hop (hstays _ _ _)
  · exact hquiet.awaits hanswer hawaits

omit [Footprint] in
/-- The batch of a new reservation. -/
theorem awaits_reserved [Footprint] {r : Reservation} {size : ℕ} (hs : Sound env s)
    (hr : r.Chosen env op s) : Awaits env (s.reserve env size r) r.entry.row.messageId
      r.entry.row.localOrder (r.time env + r.wait) := by
  have hfound := hr.found hs
  obtain ⟨b, hb, hkey, hagrees⟩ := hs.memory.entries _ _ hfound.entry
  refine ⟨?_, fun b' _ _ _ => ?_⟩
  · rw [hagrees.localOrder]
    exact (hs.table.orders b hb).2
  · rw [get?_reserve, if_pos rfl, hfound.entry]
    refine ⟨_, rfl, ?_, .inl rfl⟩
    rw [due_sent, Reservation.time, hr.last]

/-- After a call of `reserve` that has made one reservation, its batch awaits an
    answer. -/
theorem awaits_perform (hmono : Monotone env.clock) (h : Scheduling env s)
    {token : Option TimeToken} {r : Reservation}
    (hr : reserved (perform (OutboxOp.exec env) s (.reserve token)).after.journal
      = reserved s.journal ++ [r]) :
    Awaits env (perform (OutboxOp.exec env) s (.reserve token)).after r.entry.row.messageId
      r.entry.row.localOrder (r.time env + r.wait) := by
  have hanswer : ¬ (OutboxOp.reserve token).Answers r.entry.row.messageId := by
    rintro (h | ⟨ack, codes, h, -⟩) <;> cases h
  refine (path_keeps (I := fun s' : Outbox => Scheduling env s' ∧
    (reserved s'.journal = reserved s.journal ++ [r] → Awaits env s' r.entry.row.messageId
      r.entry.row.localOrder (r.time env + r.wait)))
    (fun a b hstep hab => ⟨scheduling_step hmono hstep hab.1, fun hb => ?_⟩)
    (exec_goes (.reserve token) s).path ⟨h, fun hnew => ?_⟩).2 hr
  · rcases commit_kinds hstep hab.1.sound hab.1.staged with
      ⟨r', payload, hr', -, rfl⟩ | ⟨maxBytes, maxRecords, accounting, hop, -⟩ | hquiet
    · have hlast : reserved a.journal ++ [r'] = reserved s.journal ++ [r] := by
        rw [← hb]
        show _ = reserved (a.journal ++ [Change.attempted r'])
        rw [reserved_append]
        rfl
      obtain ⟨-, hsame⟩ := List.append_inj' hlast rfl
      cases hsame
      exact awaits_reserved hab.1.sound hr'
    · cases hop
    · obtain ⟨more, hmore, hnone⟩ := hquiet.journal
      rw [hmore, reserved_append, hnone, List.append_nil] at hb
      exact hquiet.awaits hanswer (hab.2 hb)
  · have hlen := congrArg List.length hnew
    simp at hlen

/-- The expiries among some changes of this batch come after its deadline. -/
def Overdue (key : PyStr) (order : ℤ) (due : ℚ) (more : List Change) : Prop :=
  ∀ e scan guard old, .terminated e .ageExpired (.aged scan guard) old ∈ more →
    e.row.messageId = key → e.row.localOrder = order → due ≤ scan.mono

theorem overdue_step (hmono : Monotone env.clock) (hstep : Commit env op s s')
    (h : Scheduling env s) {key : PyStr} {order : ℤ} {due : ℚ} (hawaits : Awaits env s key order due)
    {journal more : List Change} (hmore : s.journal = journal ++ more)
    (hoverdue : Overdue key order due more) :
    ∃ more', s'.journal = journal ++ more' ∧ Overdue key order due more' := by
  have hnote : ∀ c : Change, (∀ e scan guard old, c ≠ .terminated e .ageExpired (.aged scan guard) old) →
      ∃ more', s.journal ++ [c] = journal ++ more' ∧ Overdue key order due more' := fun c hc => by
    refine ⟨more ++ [c], by rw [hmore, List.append_assoc], fun e scan guard old hin => ?_⟩
    rcases List.mem_append.mp hin with hin | hin
    · exact hoverdue e scan guard old hin
    · exact absurd (List.mem_singleton.mp hin).symm (hc e scan guard old)
  cases hstep with
  | waited hl =>
      rw [hl.frame]
      exact ⟨more, hmore, hoverdue⟩
  | terminated cause k reason source e hopen hkey hwhy hread =>
      cases hwhy with
      | rejected hreject => exact hnote _ fun _ _ _ _ hc => by cases hc
      | expired hexpiry =>
          rename_i scan guard
          refine ⟨_, (by rw [← List.append_assoc, ← hmore]; rfl),
            fun e' scan' guard' old' hin hid horder => ?_⟩
          rcases List.mem_append.mp hin with hin | hin
          · exact hoverdue e' scan' guard' old' hin hid horder
          -- The batch still awaits its deadline, unless that has come.
          cases List.mem_singleton.mp hin
          obtain ⟨b, hb, hbk, hagrees⟩ := h.sound.memory.entries k e hkey
          have hk : k = key := (messageId_of_entry h.sound hkey).symm.trans hid
          obtain ⟨e₁, he₁, hdue, hopen'⟩ := hawaits.2 b hb (hbk.trans hk)
            (hagrees.localOrder.symm.trans horder)
          rw [← hk, hkey] at he₁
          cases he₁
          obtain ⟨hpending, -, -, hidle⟩ := hexpiry.checked
          obtain ⟨n, hn, hscan⟩ := hread
          rcases hopen' with hactive | hdead | ⟨m, hm, hle⟩
          · exact hdue.trans (hidle hactive)
          · rw [hpending] at hdead
            cases hdead
          · rw [hn] at hm
            rw [hscan]
            exact hle.trans (hmono (Nat.lt_succ_iff.mp hm))
  | inserted => exact hnote _ fun _ _ _ _ hc => by cases hc
  | pruned => exact hnote _ fun _ _ _ _ hc => by cases hc
  | stored => exact hnote _ fun _ _ _ _ hc => by cases hc
  | attempted => exact hnote _ fun _ _ _ _ hc => by cases hc
  | _ => exact ⟨more, hmore, hoverdue⟩

/-- Within its window, an attempt that is not answered keeps its batch from expiring. -/
theorem overdue_run (hmono : Monotone env.clock) (h : Scheduling env s) {key : PyStr}
    {order : ℤ} {due : ℚ} (hawaits : Awaits env s key order due) {ops : List OutboxOp}
    (hops : ∀ op ∈ ops, op.Stays ∧ ¬ op.Answers key) :
    Overdue key order due ((runCalls (OutboxOp.exec env) s ops).journal.drop s.journal.length) := by
  obtain ⟨-, -, more, hmore, hoverdue⟩ := runCalls_keeps (I := fun s' => Scheduling env s' ∧
      Awaits env s' key order due ∧
      ∃ more, s'.journal = s.journal ++ more ∧ Overdue key order due more)
    exec_goes (fun op hop a b hstep hab => by
      obtain ⟨hsched, haw, more, hmore, hov⟩ := hab
      exact ⟨scheduling_step hmono hstep hsched,
        awaits_step hmono (hops op hop).1 hstep hsched (hops op hop).2 haw,
        overdue_step hmono hstep hsched haw hmore hov⟩)
    ⟨h, hawaits, [], (List.append_nil _).symm, fun _ _ _ _ hin => absurd hin List.not_mem_nil⟩
  rw [hmore, List.drop_left]
  exact hoverdue

end Window

/-! ## Expiry over whole runs -/

/-- A row that has a terminal source got it from a change of the journal. -/
def Recorded (journal : List Change) (db : Db) : Prop :=
  ∀ b ∈ db.batches, ∀ source, b.terminalSource = some source →
    ∃ e cause old, .terminated e source cause old ∈ journal ∧ e.Of b

section Records

variable {journal : List Change} {db db' : Db} {c : Change}

theorem Recorded.kept (h : Recorded journal db) (hrows : ∀ b' ∈ db'.batches, ∃ b ∈ db.batches,
    b.fixed = b'.fixed ∧ (b'.terminalSource = b.terminalSource ∨ b'.terminalSource = none ∨
      ∃ e source cause old, c = .terminated e source cause old ∧ e.Of b' ∧
        b'.terminalSource = some source)) : Recorded (journal ++ [c]) db' := by
  intro b' hb' source hsource
  obtain ⟨b, hb, hfix, hcases⟩ := hrows b' hb'
  rcases hcases with hsame | hnone | ⟨e, source', cause, old, rfl, hof, hnew⟩
  · obtain ⟨e, cause, old, hin, hof⟩ := h b hb source (hsame.symm.trans hsource)
    exact ⟨e, cause, old, List.mem_append_left _ hin, hof.fixed hfix⟩
  · rw [hnone] at hsource
    cases hsource
  · rw [hnew] at hsource
    cases hsource
    exact ⟨e, cause, old, List.mem_append_right _ (.head _), hof⟩

variable [JsonSchema] [Footprint] {env : OutboxEnv} {op : OutboxOp}

theorem recorded_step {s s' : Outbox} (hstep : Commit env op s s') (hs : Sound env s)
    (h : Recorded s.journal s.db) : Recorded s'.journal s'.db := by
  cases hstep with
  | waited hl =>
      rw [hl.frame]
      exact h
  | inserted i hi =>
      intro b' hb' source hsource
      have hb' : b' ∈ i.db.batches := hb'
      rw [hi.inserts.batches] at hb'
      rcases List.mem_append.mp hb' with hb' | hb'
      · obtain ⟨e, cause, old, hin, hof⟩ := h b' hb' source hsource
        exact ⟨e, cause, old, List.mem_append_left _ hin, hof⟩
      -- A new row has no source.
      · obtain ⟨utc, error, hrow⟩ := hi.inserts.row
        rw [List.mem_singleton.mp hb', Insertion.batch, hrow] at hsource
        cases hsource
  | terminated cause key reason source e hopen hkey hwhy hread =>
      refine h.kept fun b' hb' => ?_
      have hb' : b' ∈ (s.db.terminal key reason _ source).batches := hb'
      rw [batches_terminal] at hb'
      obtain ⟨b, hb, rfl⟩ := List.mem_map.mp (List.mem_filter.mp hb').1
      have hfix := Batch.terminate_fixed key reason source b
      refine ⟨b, hb, hfix.symm, ?_⟩
      -- Only the row of this id gets its source here, and the change says why.
      by_cases hk : b.messageId = key
      · refine .inr (.inr ⟨e, source, cause, _, rfl, ?_, ?_⟩)
        · exact (of_unique hs.table hs.memory hkey hb hk).of.fixed hfix.symm
        · rw [Batch.terminate, if_pos hk]
      · rw [Batch.terminate, if_neg hk]
        exact .inl rfl
  | pruned key e hopen hkey hdead =>
      exact h.kept fun b hb => ⟨b, (List.mem_filter.mp hb).1, rfl, .inl rfl⟩
  | stored ack key e hopen hkey hsent hwaits hack =>
      exact h.kept fun b hb => ⟨b, (List.mem_filter.mp hb).1, rfl, .inl rfl⟩
  | attempted r hr payload hpayload hbytes =>
      refine h.kept fun b' hb' => ?_
      obtain ⟨b, hb, rfl⟩ := List.mem_map.mp hb'
      refine ⟨b, hb, ?_, .inl ?_⟩ <;> split <;> rfl
  | accounted | staged | restaged | dropped | purged | deactivated | retried | sdkRejected | gated
  | closed | reopened | restarted | refreshed | attached | opened => exact h

theorem recorded_run {s : Outbox} (hs : Sound env s) (h : Recorded s.journal s.db)
    (ops : List OutboxOp) : Recorded (runCalls (OutboxOp.exec env) s ops).journal
      (runCalls (OutboxOp.exec env) s ops).db :=
  (runCalls_keeps (I := fun s => Sound env s ∧ Recorded s.journal s.db)
    exec_goes (fun _ _ _ _ hstep hab => ⟨sound_step hstep hab.1, recorded_step hstep hab.1 hab.2⟩)
    ⟨hs, h⟩).2

end Records

/-- The expiries of a run are sound. -/
structure ExpiresSoundly [Footprint] (env : OutboxEnv) (U : ℕ → ℤ → ℚ) (s : Outbox) : Prop where
  /-- A row is `AGE_EXPIRED` by a change of the journal. -/
  recorded : ∀ b ∈ s.db.batches, b.terminalSource = some .ageExpired →
    ∃ e cause old, .terminated e .ageExpired cause old ∈ s.journal ∧ e.Of b
  aged : ∀ e cause old, .terminated e .ageExpired cause old ∈ s.journal →
    ∃ scan guard, cause = .aged scan guard ∧ AgedOut env U s.journal e scan guard
  untrusted : ∀ b ∈ insertions s.journal, b.timeTrust ≠ .hubTrusted →
    ∀ e cause old, .terminated e .ageExpired cause old ∈ s.journal → ¬ e.Of b
  /-- The gate closes to the token of a scan before the commit of an expiry: the scan
      of the entry leaves the file and the memory as they are. -/
  closed : ∀ p scan key, ∀ t : Outbox,
    (∀ token c, p.token t.timeReads = .ok token →
      p.require (t.timeReads + 1) (some token) .enqueue ≠ .ok c) →
      wp (expireEntry env p scan key) (fun _ t' => Later t t') (fun _ t' => Later t t') t

/-- The age scan, over the life of the file; and within a process, an attempt that
    is not answered keeps its batch for the length of its window. -/
theorem age_expiry [JsonSchema] [Footprint] (env : OutboxEnv) (U : ℕ → ℤ → ℚ)
    (haccurate : env.Accurate U) {s₀ : Outbox} (hs₀ : Begins env s₀) (ops : List OutboxOp) :
    ExpiresSoundly env U (runCalls (OutboxOp.exec env) s₀ ops) ∧
    ∀ (earlier : ℕ → ℚ) (before mid rest : List OutboxOp) (maxBytes : ℤ) (maxRecords : ℕ)
      (accounting : Option (Accounting × ℤ)) (token : Option TimeToken) (r : Reservation),
      Monotone env.clock →
      let s₁ := runCalls (OutboxOp.exec { env with clock := earlier }) s₀ before
      let s := runCalls (OutboxOp.exec env) s₁ (.restart maxBytes maxRecords accounting :: mid)
      let s' := (perform (OutboxOp.exec env) s (.reserve token)).after
      reserved s'.journal = reserved s.journal ++ [r] →
      (∀ op ∈ rest, op.Stays ∧ ¬ op.Answers r.entry.row.messageId) →
      Overdue r.entry.row.messageId r.entry.row.localOrder (r.time env + r.wait)
        ((runCalls (OutboxOp.exec env) s' rest).journal.drop s'.journal.length) := by
  have hsound : Sound env s₀ := hs₀.sound
  obtain ⟨-, hold⟩ := hs₀.rows
  constructor
  · have hledger : Ledger env (fun _ => True) (runCalls (OutboxOp.exec env) s₀ ops).journal
        (runCalls (OutboxOp.exec env) s₀ ops).db :=
      ledger_run hsound hs₀.ledger fun _ _ => trivial
    have htimed : Timed env (runCalls (OutboxOp.exec env) s₀ ops).journal :=
      timed_run hsound hs₀.ledger hs₀.timed ops
    -- At the start no row has a source, also in a file that was migrated.
    have hrecorded := recorded_run hsound (fun b hb source hsource => ?_) ops
    · exact ⟨fun b hb => hrecorded b hb _, fun _ _ _ => agedOut_of haccurate hledger htimed,
        fun b hb htrust _ _ _ => untrusted_never hledger htimed hb htrust,
        fun _ _ _ _ => wp_expireEntry_closed⟩
    · rw [← hs₀.rows.1] at hb
      obtain ⟨n, hin⟩ := mem_insertions.mp hb
      obtain ⟨b', hb', -, hnone⟩ := hold _ hin
      cases hb'
      rw [hnone] at hsource
      cases hsource
  · intro earlier before mid rest maxBytes maxRecords accounting token r hmono s₁ s s' hr hrest
    have hs₁ : Sound { env with clock := earlier } s₁ := by
      have hearlier : Sound { env with clock := earlier } s₀ :=
        @Sound.of_clock _ { env with clock := earlier } s₀ env.clock hsound
      exact sound_run hearlier before
    have hs : Scheduling env s :=
      scheduling_run hmono (scheduling_restart hmono hs₁.of_clock maxBytes maxRecords accounting) mid
    have hs' : Scheduling env s' := scheduling_run hmono hs [.reserve token]
    exact overdue_run hmono hs' (awaits_perform hmono hs hr) hrest

/-! ## At concrete inputs -/

section Scripted

attribute [local instance] JsonSchema.atRoot Rounding.double Footprint.ample

/-- The answer of a server to a process of this boot. -/
def datedAnswer (boot : PyStr) (clientMonoMs serverReceivedAt serverSentAt : ℤ) : Bytes :=
  (utf8Encode (dumps (.obj [
    (py "schemaVersion", .int 1), (py "gatewayId", .str (py "g")),
    (py "requestId", .str (py "time-0")), (py "bootId", .str boot),
    (py "sessionId", .str (py "s")), (py "clientMonoMs", .int clientMonoMs),
    (py "serverReceivedAt", .int serverReceivedAt),
    (py "serverSentAt", .int serverSentAt)]))).getD []

/-- A provider of this boot whose round and handshake happened at this time. -/
def datedProvider (boot : PyStr) (shift : ℤ) : PlatformTime :=
  timeRun steady (.started steady { TimeConfig.scripted with bootId := boot })
    [.connect (py "s"),
      .request, .response (datedAnswer boot 20 (1000 + shift) (1002 + shift)) 30 (some (py "s")) false,
      .request, .response (datedAnswer boot 40 (1020 + shift) (1022 + shift)) 50 (some (py "s")) false,
      .request, .response (datedAnswer boot 60 (1040 + shift) (1042 + shift)) 70 (some (py "s")) false,
      .token, .controlSubmitted .heartbeat (some ⟨boot, 1, 1, 90⟩),
      .controlSubmitted .configGet (some ⟨boot, 1, 1, 90⟩)]

/-- The processes of a run and their times: a batch is taken in, is almost a week old,
    and is a week old in a new process. -/
def datedStage : ℕ → PyStr × ℤ
  | 0 => (py "b", 0)
  | 1 => (py "b", maxAgeMs - 1000)
  | _ => (py "c", maxAgeMs + 2000)

def stagedProvider (k : ℕ) : PlatformTime := datedProvider (datedStage k).1 (datedStage k).2

/-- A store whose provider is at these stages. -/
def datedScan (stage : ℕ → ℕ) (clock : ℕ → ℚ) : OutboxEnv :=
  .scripted 2 Nat.two_pos (some ⟨.double, steady, fun n => stagedProvider (stage n)⟩) clock

/-- True UTC at the calls of its provider. -/
def datedTime (stage : ℕ → ℕ) (n : ℕ) (_ : ℤ) : ℚ := 1120 + (datedStage (stage n)).2

/-- A reading is right at this time. -/
def rightAt (u : ℚ) (read : Except TimeError TimeSnapshot) : Bool :=
  match read with
  | .error _ => true
  | .ok t => !t.timeValid || match t.utcMs, t.uncertaintyMs with
    | some utc, some uncertainty => decide (|u - utc| ≤ uncertainty)
    | _, _ => false

theorem accurate_of_rightAt {u : ℚ} {t : TimeSnapshot} (h : rightAt u (.ok t) = true) :
    Core.Accurate (fun _ => u) t := by
  intro hvalid
  simp only [rightAt, hvalid, Bool.not_true, Bool.false_or] at h
  split at h
  · rename_i utc uncertainty hutc herror
    exact ⟨utc, uncertainty, hutc, herror, of_decide_eq_true h⟩
  · cases h

theorem rightAt_staged (k : ℕ) :
    ∀ m ∈ [stagedProvider k, ((PlatformTime.snapshot steady).run (stagedProvider k)).2],
      rightAt (1120 + (datedStage k).2) ((PlatformTime.snapshot steady).run m).1 = true := by
  rcases k with _ | _ | k
  · decide +kernel
  · decide +kernel
  · have hstage : datedStage (k + 2) = datedStage 2 := rfl
    rw [stagedProvider, hstage]
    decide +kernel

theorem datedScan_accurate (stage : ℕ → ℕ) (clock : ℕ → ℚ) :
    (datedScan stage clock).Accurate (datedTime stage) := by
  intro p hp n t ht
  have hprovider : (datedScan stage clock).provider
      = some ⟨.double, steady, fun n => stagedProvider (stage n)⟩ := rfl
  rw [hprovider] at hp
  cases hp
  obtain ⟨s, hs, hread⟩ := ht.taken
  dsimp only at hs hread
  have hright := rightAt_staged (stage n) s hs
  rw [hread] at hright
  exact accurate_of_rightAt hright

/-- The expiries of a journal, with the session time of their scan. -/
def expiries (journal : List Change) : List (PyStr × ℚ) :=
  journal.filterMap fun
    | .terminated e .ageExpired (.aged scan _) _ => some (e.row.messageId, scan.mono)
    | _ => none

/-- The first process takes in a batch, the second one opens the file a week later. -/
def agedStage (n : ℕ) : ℕ := if n < 3 then 0 else 2

def agedScan : OutboxEnv := datedScan agedStage fun _ => 0

/-- A batch of a file of version 1. -/
def legacyBatch : FirstBatch :=
  { rowid := 1, messageId := py "l", payload := scriptedBatch (py "l")
    hash := digest (scriptedBatch (py "l")), created := .int (-1000000000000), attempts := 0
    nextDue := .int 0, state := .pending, reason := none }

def legacyFile : FirstFile :=
  ⟨0, 0, [legacyBatch], List.nodup_singleton _, List.pairwise_singleton _ _⟩

def legacyDb : Db := legacyFile.upgraded [legacyBatch.upgraded]

theorem begins_legacy : Begins agedScan (.migrated legacyDb 4194304 10000 none) := by
  have hmigrated : migrateExisting agedScan.gateway legacyFile = .ok legacyDb := by decide +kernel
  refine .migrated hmigrated ⟨?_, ?_, ?_⟩ _ _ _
  all_goals decide +kernel

def agedRun : List OutboxOp := [
  .restart 4194304 10000 none,
  .enqueue (scriptedBatch (py "m")) none {} (some ⟨py "b", 1, 1, 90⟩),
  .restart 4194304 10000 none,
  .reserve (some ⟨py "c", 1, 1, 90⟩)]

theorem agedRun_end :
    (fun s : Outbox => (expiries s.journal = [(py "m", 0)] ∧
        phases s = [(py "l", .pending), (py "m", .dead)]) ∧
        ∃ b ∈ s.db.batches, b.messageId = py "m" ∧ b.timeTrust = .hubTrusted)
      (runCalls (OutboxOp.exec agedScan) (.migrated legacyDb 4194304 10000 none) agedRun) := by
  decide +kernel

/-- A batch expires, and the one of version 1 does not. -/
theorem age_expiry_legacy :
    let s := runCalls (OutboxOp.exec agedScan) (.migrated legacyDb 4194304 10000 none) agedRun
    ExpiresSoundly agedScan (datedTime agedStage) s ∧ expiries s.journal = [(py "m", 0)] ∧
      phases s = [(py "l", .pending), (py "m", .dead)] := by
  intro s
  refine ⟨(age_expiry agedScan (datedTime agedStage) (datedScan_accurate agedStage _)
    begins_legacy agedRun).1, ?_⟩
  exact agedRun_end.1

/-- A batch is sent when it is almost a week old, and the process restarts. -/
def lateStage (n : ℕ) : ℕ := if n < 3 then 0 else if n < 7 then 1 else 2

def lateScan : OutboxEnv :=
  datedScan lateStage fun n => if n < 1 then 0 else if n < 4 then maxAgeMs - 1000 else maxAgeMs + 2000

def lateRun : List OutboxOp := [
  .restart 4194304 10000 none,
  .enqueue (scriptedBatch (py "m")) none {} (some ⟨py "b", 1, 1, 90⟩),
  .reserve (some ⟨py "b", 1, 1, 90⟩),
  .restart 4194304 10000 none,
  .reserve (some ⟨py "c", 1, 1, 90⟩)]

/-- The batch expires three seconds after an attempt that may be answered for
    thirty: the attempt was of the process before. -/
theorem age_expiry_restarted :
    lateScan.Accurate (datedTime lateStage) ∧
    let s := runCalls (OutboxOp.exec lateScan) (.fresh 4194304 10000 none) lateRun
    (reserved s.journal).map (fun r => (r.entry.row.messageId, r.time lateScan, r.wait))
      = [(py "m", (maxAgeMs : ℚ) - 1000, 30000)] ∧
    expiries s.journal = [(py "m", (maxAgeMs : ℚ) + 2000)] := by
  refine ⟨datedScan_accurate lateStage _, ?_⟩
  decide +kernel

end Scripted

end PlcnextIot.Storage
