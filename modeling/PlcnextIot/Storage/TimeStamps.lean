/-
  PlcnextIot.Storage.TimeStamps

  What the callers of a time gate do with the snapshot that it returns.

  A batch is stamped once and keeps its stamp, so the one that `_flush` takes is good
  exactly when its gate is.  A control message meets a second gate before it is sent, and
  a trusted row takes the time of the snapshot that its commit guard accepted: neither of
  them carries anything but the time of a valid clock.
-/

import PlcnextIot.Core.TimeToken
import PlcnextIot.Messaging.Messages
import PlcnextIot.Messaging.TimedControl
import PlcnextIot.Storage.OutboxExpiry
import PlcnextIot.Storage.OutboxOrder

namespace PlcnextIot.Storage

open PlcnextIot.Python PlcnextIot.Contracts PlcnextIot.Reporting PlcnextIot.Core
open PlcnextIot.Messaging PlcnextIot.Effect PlcnextIot.Effect.Prog

/-! ## The reading of `_flush` -/

section Flush

variable [Rounding] {inp : Inputs} {s : PlatformTime}

/-- If the gate is open at the first reading of `require`, the clock is good for the
    second one. -/
def StaysGood (inp : Inputs) (s : PlatformTime) (token : Option TimeToken) (purpose : Purpose) :
    Prop :=
  s.gateOpen (inp.mono s.reads.mono) token purpose = true → s.fresh →
    s.inTime (inp.mono s.reads.mono) (inp.mono (s.reads.mono + 1)) = true

instance (inp : Inputs) (s : PlatformTime) (token : Option TimeToken) (purpose : Purpose) :
    Decidable (StaysGood inp s token purpose) := by
  unfold StaysGood
  infer_instance

/-- The reading by which `_flush` stamps the batches it prepares; none, if its gate is
    closed.  Other threads may use the provider once the token has been made. -/
def flushReading [JsonSchema] (inp : Inputs) (c : TimeConfig) (others : List TimeOp) :
    TimeProg (Option TimeSnapshot) := do
  let token ← PlatformTime.token inp
  modify fun s => opRun inp c s others
  attempt (do return some (← PlatformTime.require inp (some token) .enqueue)) fun e =>
    if e = .timeUnavailable then pure none else raise e

variable [JsonSchema] {c : TimeConfig} {others : List TimeOp}

theorem wp_flushReading {Q : TimeSnapshot → Prop} :
    wp (flushReading inp c others) (fun reading _ => ∀ t, reading = some t → Q t) (fun _ _ => True) s ↔
      wp (PlatformTime.token inp) (fun token s₁ =>
        wp (PlatformTime.require inp (some token) .enqueue) (fun t _ => Q t) (fun _ _ => True)
          (opRun inp c s₁ others)) (fun _ _ => True) s := by
  simp only [flushReading, wp_bind, wp_modify, wp_attempt, wp_pure, wp_ite, wp_raise,
    Option.some.injEq, forall_eq', reduceCtorEq, false_implies, implies_true, and_self]

omit [JsonSchema] in
/-- A passed gate returns a usable snapshot exactly when the clock stays good. -/
theorem require_staysGood {token : Option TimeToken} {purpose : Purpose} (hmono : Monotone inp.mono)
    (hs : s.Steady inp) (hg : purpose.guarded = true) :
    wp (PlatformTime.require inp token purpose) (fun t _ => t.Usable) (fun _ _ => True) s ↔
      StaysGood inp s token purpose :=
  wp_require_valid hmono hs.timed hg fun _ _ => report_usable_iff

/-- The reading of `_flush` is usable exactly when the clock stays good behind its
    token. -/
theorem flushReading_staysGood (hmono : Monotone inp.mono) (hs : s.Steady inp) :
    (∀ t s', (flushReading inp c others).run s = (.ok (some t), s') → t.Usable) ↔
      ∀ token s₁, (PlatformTime.token inp).run s = (.ok token, s₁) →
        StaysGood inp (opRun inp c s₁ others) (some token) .enqueue := by
  have htoken := (wp_iff_run _).mp (wp_token_onward (c := c) hmono hs)
  have hflush := @wp_flushReading _ inp s _ c others TimeSnapshot.Usable
  rw [wp_iff_run, wp_iff_run] at hflush
  simp only [implies_true, and_true] at hflush
  refine Iff.trans ⟨fun h reading s' hrun t ht => ?_, fun h t s' hrun => h _ s' hrun t rfl⟩
    (hflush.trans (forall₂_congr fun token s₁ => forall_congr' fun hrun => ?_))
  · rw [ht] at hrun
    exact h t s' hrun
  · have h₁ := (htoken.1 token s₁ hrun).steady
    exact require_staysGood hmono (steady_run hmono h₁ others) rfl

end Flush

/-! ## The rows of the database -/

/-- A row carries the time of a usable snapshot that its commit guard accepted. -/
def Batch.Stamped (env : OutboxEnv) (b : Batch) : Prop := ∃ n t, AcceptedAt env b n t ∧ t.Usable

section Rows

variable {env : OutboxEnv} {b b₀ : Batch}

theorem Batch.Stamped.fixed (h : b₀.Stamped env) (hfixed : b₀.fixed = b.fixed) : b.Stamped env := by
  obtain ⟨n, t, ⟨p, token, hp, hrequire, hutc, herror⟩, husable⟩ := h
  refine ⟨n, t, ⟨p, token, hp, hrequire, ?_, ?_⟩, husable⟩
  · exact (congrArg (fun c : Batch => c.enqueuedUtcMs) hfixed.symm).trans hutc
  · exact (congrArg (fun c : Batch => c.uncertaintyMs) hfixed.symm).trans herror

/-- A row without a time is not trusted: `_remember_time` would have raised. -/
theorem stamped_of_accepted {accepted : Option ℕ} (h : Accepted env b accepted)
    (hdated : b.enqueuedUtcMs ≠ none) : b.Stamped env := by
  obtain ⟨n, t, -, hat⟩ := h
  obtain ⟨p, token, hp, hrequire, hutc, herror⟩ := hat
  have hcoherent : t.Coherent := TimeProvider.Reports.coherent (.inr ⟨token, _, hrequire⟩)
  refine ⟨n, t, ⟨p, token, hp, hrequire, hutc, herror⟩, hcoherent.usable (hcoherent.dated ?_)⟩
  rwa [← hutc]

variable [JsonSchema] [Footprint] {s₀ : Outbox}

/-- Every trusted batch that was ever taken in is stamped. -/
theorem insertions_stamped (hs₀ : Begins env s₀) (ops : List OutboxOp) :
    ∀ b ∈ insertions (runCalls (OutboxOp.exec env) s₀ ops).journal, b.timeTrust = .hubTrusted →
      b.Stamped env := by
  intro b hb htrust
  have htimed := timed_run hs₀.sound hs₀.ledger hs₀.timed ops
  have hfloored := @floored_run _ env _ s₀ (fun b hb htrust => ?_) ops
  · obtain ⟨accepted, hin⟩ := mem_insertions.mp hb
    obtain ⟨⟨utc, error, floor, hutc, -⟩, -⟩ := hfloored b hb htrust
    refine stamped_of_accepted (htimed.accepted b accepted hin htrust) ?_
    rw [hutc]
    exact Option.some_ne_none _
  · obtain ⟨accepted, hin⟩ := mem_insertions.mp hb
    obtain ⟨b', hb', hlegacy, -⟩ := hs₀.rows.2 _ hin
    cases hb'
    rw [hlegacy] at htrust
    cases htrust

/-- And so is every trusted row. -/
theorem rows_stamped (hs₀ : Begins env s₀) (ops : List OutboxOp) :
    ∀ b ∈ (runCalls (OutboxOp.exec env) s₀ ops).db.batches, b.timeTrust = .hubTrusted →
      b.Stamped env := by
  intro b hb htrust
  have hledger : Ledger env (fun _ => True) (runCalls (OutboxOp.exec env) s₀ ops).journal
      (runCalls (OutboxOp.exec env) s₀ ops).db :=
    ledger_run hs₀.sound hs₀.ledger fun _ _ => trivial
  obtain ⟨b₀, hb₀, hfixed⟩ := hledger.origin b hb
  refine (insertions_stamped hs₀ ops b₀ hb₀ ?_).fixed hfixed
  exact (congrArg (fun c : Batch => c.timeTrust) hfixed).trans htrust

end Rows

/-! ## What passed gates are good for -/

/-- What the time gates promise of a clock. -/
structure GatesHold [Rounding] [JsonSchema] (inp : Inputs) (c : TimeConfig) (s : PlatformTime) :
    Prop where
  /-- A gate returns usable time exactly when the clock is good for its second reading. -/
  returned : ∀ token purpose, purpose.guarded = true →
    ((∀ t s', (PlatformTime.require inp token purpose).run s = (.ok t, s') → t.Usable) ↔
      StaysGood inp s token purpose)
  /-- So does that of `_flush`, whatever happens after its token has been made. -/
  flushed : ∀ others,
    ((∀ t s', (flushReading inp c others).run s = (.ok (some t), s') → t.Usable) ↔
      ∀ token s₁, (PlatformTime.token inp).run s = (.ok token, s₁) →
        StaysGood inp (opRun inp c s₁ others) (some token) .enqueue)
  /-- A control message never carries anything else than usable time. -/
  submitted : ∀ calls, ∀ payload ∈ (runCalls (publishControl inp c) ⟨s, []⟩ calls).submitted,
    ∃ call ∈ calls, call.Stamps inp payload

section Scripted

/-- A run whose result passes a test. -/
theorem exists_run {σ ε α : Type} {x : Prog σ ε α} {s : σ} {test : α → Bool}
    (h : (x.run s).1.toOption.any test = true) : ∃ a s', x.run s = (.ok a, s') ∧ test a = true := by
  cases hr : x.run s with
  | mk r s' =>
      rw [hr] at h
      cases r with
      | ok a => exact ⟨a, s', rfl, h⟩
      | error e => cases h

attribute [local instance] JsonSchema.atRoot Rounding.double Footprint.ample

/-- A heartbeat that carries nothing but its stamp. -/
def bareHeartbeat : ControlCall where
  factory stamp := encode (.obj [(py "timestamp", stamp.elim .null .int)])
  kind := some .heartbeat
  handoff := .submitPublish true

/-- The provider of the steady run, once its clock has been set. -/
def setState : PlatformTime := scriptedState steady setClock

/-- The clock is set at 70 ms and read again as its hour runs out. -/
def lastHour : Inputs :=
  { Inputs.scripted fun i =>
      if i ≤ 8 then 10 * i else if i = 9 then 3600000 else if i = 10 then 3600069 else 3600070
    with system := fun _ => some 1700000000000 }

theorem lastHour_monotone : Monotone lastHour.mono := by
  intro i j hij
  show (if i ≤ 8 then 10 * (i : ℤ) else if i = 9 then 3600000 else if i = 10 then 3600069
    else 3600070) ≤ (if j ≤ 8 then 10 * (j : ℤ) else if j = 9 then 3600000
    else if j = 10 then 3600069 else 3600070)
  split_ifs <;> omega

/-- A token made at the last reading before the hour has run out. -/
def lastToken : TimeToken := ⟨py "b", 1, 1, 3600000⟩

end Scripted

end PlcnextIot.Storage
