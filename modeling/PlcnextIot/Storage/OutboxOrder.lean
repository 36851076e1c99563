/-
  PlcnextIot.Storage.OutboxOrder

  The row of `meta` over the life of the file: the next order, the basis of the
  trusted time and its floor.  An insertion that this row does not allow leaves
  the table to the age scan.
-/

import PlcnextIot.Core.TimeRun
import PlcnextIot.Storage.OutboxLedger

namespace PlcnextIot.Storage

open PlcnextIot.Python PlcnextIot.Contracts PlcnextIot.Config PlcnextIot.Reporting
open PlcnextIot.Core PlcnextIot.Effect PlcnextIot.Effect.Prog Relation

/-! ## Growth -/

/-- What only goes one way. -/
structure MetaRow.Grows (m m' : MetaRow) : Prop where
  next : m.nextOrder ≤ m'.nextOrder
  basis : ∀ r, m.trustedBasisRef = some r → m'.trustedBasisRef = some r
  floor : ∀ f, m.trustedUtcHighWaterMs = some f →
    ∃ f', m'.trustedUtcHighWaterMs = some f' ∧ f ≤ f'

/-- The counters do not matter. -/
theorem MetaRow.Grows.same {m m' : MetaRow} (hnext : m'.nextOrder = m.nextOrder)
    (hbasis : m'.trustedBasisRef = m.trustedBasisRef)
    (hfloor : m'.trustedUtcHighWaterMs = m.trustedUtcHighWaterMs) : m.Grows m' :=
  ⟨hnext.ge, fun _ h => hbasis.trans h, fun f h => ⟨f, hfloor.trans h, le_rfl⟩⟩

theorem MetaRow.Grows.refl (m : MetaRow) : m.Grows m := .same rfl rfl rfl

theorem MetaRow.Grows.trans {a b c : MetaRow} (h : a.Grows b) (h' : b.Grows c) : a.Grows c := by
  refine ⟨h.next.trans h'.next, fun r hr => h'.basis r (h.basis r hr), fun f hf => ?_⟩
  obtain ⟨f₁, hf₁, hle⟩ := h.floor f hf
  obtain ⟨f₂, hf₂, hle'⟩ := h'.floor f₁ hf₁
  exact ⟨f₂, hf₂, hle.trans hle'⟩

/-- The floor is above every trusted batch that was ever inserted, and the basis is
    that of all of them. -/
def Floored (journal : List Change) (m : MetaRow) : Prop :=
  ∀ b ∈ insertions journal, b.timeTrust = .hubTrusted →
    (∃ utc error floor, b.enqueuedUtcMs = some utc ∧ b.uncertaintyMs = some error ∧
      m.trustedUtcHighWaterMs = some floor ∧ utc - error ≤ floor) ∧
    ∀ r, b.timeBasisRef = some r → m.trustedBasisRef = some r

theorem Floored.grows {journal : List Change} {m m' : MetaRow} (h : Floored journal m)
    (hgrows : m.Grows m') : Floored journal m' := by
  intro b hb htrust
  obtain ⟨⟨utc, error, floor, hutc, herror, hfloor, hle⟩, hbasis⟩ := h b hb htrust
  obtain ⟨floor', hfloor', hle'⟩ := hgrows.floor floor hfloor
  exact ⟨⟨utc, error, floor', hutc, herror, hfloor', hle.trans hle'⟩,
    fun r hr => hgrows.basis r (hbasis r hr)⟩

theorem floored_note {journal : List Change} {m : MetaRow} {c : Change} (h : Floored journal m)
    (hc : c.batch? = none) : Floored (journal ++ [c]) m := by
  rw [Floored, insertions_note hc]
  exact h

theorem info_terminal (db : Db) (key reason : PyStr) (pruned : List PyStr) (source : TerminalSource) :
    (db.terminal key reason pruned source).info = { db.info with
      deadPruned := (db.terminal key reason pruned source).info.deadPruned } := by
  unfold Db.terminal
  dsimp only
  split <;>
  · simp only [Db.countPruned, info_deleteBatches]
    rfl

section Growth

variable [JsonSchema] {env : OutboxEnv} {op : OutboxOp}

omit [JsonSchema] in
theorem Inserts.grows {i : Insertion} {db : Db} (h : Inserts i db)
    (horder : i.order = db.info.nextOrder) : db.info.Grows i.db.info := by
  have hnext : db.info.nextOrder ≤ i.db.info.nextOrder := by
    rw [h.next, horder]
    omega
  rcases h.boundary with ⟨-, hbasis, hfloor⟩ | ⟨-, db₁, hbasis, hfloor, hr⟩
  · refine ⟨hnext, fun r hr => hbasis.trans hr, fun f hf => ⟨f, hfloor.trans hf, le_rfl⟩⟩
  · refine ⟨hnext, fun r hr' => ?_, fun f hf => ?_⟩
    · have hold : db₁.info.trustedBasisRef = some r := hbasis.trans hr'
      rcases hr.agreed with hnone | hsame
      · rw [hold] at hnone
        cases hnone
      · rw [hr.basis, ← hsame, hold]
    · obtain ⟨utc, error, -, -, hnew⟩ := hr.floor
      refine ⟨_, hnew, ?_⟩
      rw [hfloor, hf]
      exact le_max_right _ _

omit [JsonSchema] in
theorem Inserts.floored {i : Insertion} {db : Db} {journal : List Change} (h : Inserts i db)
    (horder : i.order = db.info.nextOrder) (hfloored : Floored journal db.info)
    (accepted : Option ℕ) : Floored (journal ++ [.inserted i.batch accepted]) i.db.info := by
  have hold := hfloored.grows (h.grows horder)
  intro b hb htrust
  have hins : insertions (journal ++ [.inserted i.batch accepted]) = insertions journal ++ [i.batch] := by
    simp [insertions, List.filterMap_append, Change.batch?]
  rw [hins] at hb
  rcases List.mem_append.mp hb with hb | hb
  · exact hold b hb htrust
  rw [List.mem_singleton.mp hb] at htrust ⊢
  obtain ⟨utc, error, hrow⟩ := h.row
  rcases h.boundary with ⟨hno, -⟩ | ⟨-, db₁, -, -, hr⟩
  · refine absurd ?_ hno
    rw [Insertion.batch, hrow] at htrust
    exact htrust
  · obtain ⟨utc, error, hutc, herror, hnew⟩ := hr.floor
    refine ⟨⟨utc, error, _, hutc, herror, hnew, ?_⟩, fun r hrow => hr.basis.trans hrow⟩
    exact (le_max_right _ _).trans (le_max_left _ _)

theorem grows_step [Footprint] {s s' : Outbox} (hstep : Commit env op s s') :
    s.db.info.Grows s'.db.info := by
  cases hstep with
  | waited hlater =>
      rw [hlater.frame]
      exact .refl _
  | inserted i hi => exact hi.inserts.grows hi.order
  | terminated cause key reason source e hopen hkey hwhy hread =>
      show s.db.info.Grows (s.db.terminal key reason _ source).info
      rw [info_terminal]
      exact .same rfl rfl rfl
  | accounted | staged | restaged | dropped | pruned | stored | attempted | purged | deactivated
  | retried | sdkRejected | gated | closed | reopened | restarted | refreshed | attached | opened =>
      exact .same rfl rfl rfl

theorem floored_step [Footprint] {s s' : Outbox} (hstep : Commit env op s s')
    (h : Floored s.journal s.db.info) : Floored s'.journal s'.db.info := by
  have hgrows := grows_step hstep
  cases hstep with
  | waited hlater =>
      rw [hlater.frame]
      exact h
  | inserted i hi => exact hi.inserts.floored hi.order h i.accepted
  | terminated cause key reason source e hopen hkey hwhy hread =>
      exact floored_note (h.grows hgrows) rfl
  | pruned key e hopen hkey hdead => exact floored_note (h.grows hgrows) rfl
  | stored ack key e hopen hkey hsent hwaits hack => exact floored_note (h.grows hgrows) rfl
  | attempted r hr payload hpayload hbytes => exact floored_note (h.grows hgrows) rfl
  | accounted | staged | restaged | dropped | purged | deactivated | retried | sdkRejected | gated
  | closed | reopened | restarted | refreshed | attached | opened => exact h.grows hgrows

section Runs

variable [Footprint]

theorem grows_run (s : Outbox) (ops : List OutboxOp) :
    s.db.info.Grows (runCalls (OutboxOp.exec env) s ops).db.info :=
  runCalls_keeps (I := fun s' => s.db.info.Grows s'.db.info) exec_goes
    (fun _ _ _ _ hstep h => h.trans (grows_step hstep)) (.refl _)

theorem floored_run {s : Outbox} (h : Floored s.journal s.db.info) (ops : List OutboxOp) :
    Floored (runCalls (OutboxOp.exec env) s ops).journal
      (runCalls (OutboxOp.exec env) s ops).db.info :=
  runCalls_keeps (I := fun s' => Floored s'.journal s'.db.info) exec_goes
    (fun _ _ _ _ hstep h => floored_step hstep h) h

end Runs

end Growth

/-! ## Insertions that `meta` does not allow -/

section Barred

variable [JsonSchema] [Footprint] {env : OutboxEnv} {op : OutboxOp}

/-- A change of the age scan. -/
def Change.ByScan : Change → Prop
  | .terminated _ source _ _ => source = .ageExpired
  | .pruned _ => True
  | _ => False

/-- Nothing but an age scan has changed the table. -/
structure Spared (s s' : Outbox) : Prop where
  journal : ∃ more, s'.journal = s.journal ++ more ∧ (∀ c ∈ more, c.ByScan) ∧
    (more = [] → s'.db.batches = s.db.batches)
  info : s'.db.info = { s.db.info with deadPruned := s'.db.info.deadPruned }

omit [JsonSchema] [Footprint] in
theorem Spared.same {s s' : Outbox} (hjournal : s'.journal = s.journal) (hdb : s'.db = s.db) :
    Spared s s' := by
  refine ⟨⟨[], by rw [hjournal, List.append_nil], fun c hc => absurd hc List.not_mem_nil, ?_⟩, ?_⟩
  · rw [hdb]
    exact fun _ => rfl
  · rw [hdb]

omit [JsonSchema] [Footprint] in
theorem Spared.trans {a b c : Outbox} (h : Spared a b) (h' : Spared b c) : Spared a c := by
  obtain ⟨more, hmore, hscan, hrows⟩ := h.journal
  obtain ⟨more', hmore', hscan', hrows'⟩ := h'.journal
  refine ⟨⟨more ++ more', by rw [hmore', hmore, List.append_assoc], fun x hx => ?_, fun hnil => ?_⟩, ?_⟩
  · rcases List.mem_append.mp hx with hx | hx
    · exact hscan x hx
    · exact hscan' x hx
  · obtain ⟨h1, h2⟩ := List.append_eq_nil_iff.mp hnil
    exact (hrows' h2).trans (hrows h1)
  · have hinfo := h'.info
    rw [h.info] at hinfo
    exact hinfo

/-- What an age scan can do, which no call but the gate's comes with. -/
theorem spared_step {s s' : Outbox} (hstep : Commit env (.openGate 0) s s') : Spared s s' := by
  cases hstep with
  | waited hlater =>
      rw [hlater.frame]
      exact .same rfl rfl
  | terminated cause key reason source e hopen hkey hwhy hread =>
      refine ⟨⟨_, rfl, fun c hc => ?_, fun h => by cases h⟩, info_terminal _ _ _ _ _⟩
      rw [List.mem_singleton.mp hc]
      cases hwhy with
      | expired => rfl
      | rejected hreject =>
          obtain ⟨codes, ⟨hop, -⟩, -⟩ := hreject.delivered
          cases hop
  | pruned key e hopen hkey hdead =>
      refine ⟨⟨_, rfl, fun c hc => ?_, fun h => by cases h⟩, rfl⟩
      rw [List.mem_singleton.mp hc]
      trivial
  | inserted i hi => cases hi.call
  | attempted r hr payload hpayload hbytes =>
      obtain ⟨token, hop, -⟩ := hr.call
      cases hop
  | stored ack key e hopen hkey hsent hwaits hack => cases hack.1
  | dropped hop =>
      obtain ⟨payload, now, association, token, hop⟩ := hop
      cases hop
  | accounted | staged | restaged | purged | deactivated | retried | sdkRejected | gated | closed
  | reopened | restarted | refreshed | attached | opened => exact .same rfl rfl

theorem spared_expire {s : Outbox} (hopen : s.opened = true) :
    wp (expire env) (fun _ s' => Spared s s' ∧ s'.opened = true) (fun _ s' => Spared s s') s := by
  have hgoes := @goes_expire env (.openGate 0) _ _ s hopen
  have hpath : ∀ s', Steps env (.openGate 0) s s' → Spared s s' := fun s' h =>
    path_keeps (I := Spared s) (fun _ _ hstep h => h.trans (spared_step hstep)) h (.same rfl rfl)
  exact wp.mono hgoes (fun _ s' h => ⟨hpath s' h.1, h.2.opened hopen⟩) fun _ s' h => hpath s' h

/-! ### A scan that finds nothing -/

/-- The provider keeps to other bases than the file's. -/
def OutboxEnv.KeepsOff (env : OutboxEnv) (m : MetaRow) : Prop :=
  ∀ p n t, env.provider = some p → p.snapshot n = .ok t → t.timeValid = true →
    ∃ r, t.timeBasisRef = some r ∧ m.trustedBasisRef ≠ some r

/-- The file is as it was. -/
def Untouched (s s' : Outbox) : Prop := s'.journal = s.journal ∧ s'.db = s.db

omit [JsonSchema] [Footprint] in
theorem Untouched.trans {a b c : Outbox} (h : Untouched a b) (h' : Untouched b c) :
    Untouched a c :=
  ⟨h'.1.trans h.1, h'.2.trans h.2⟩

omit [Footprint] in
theorem Sound.untouched {s t : Outbox} (hs : Sound env s) (h : Untouched s t)
    (hsession : t.session = s.session) (hopened : t.opened = s.opened) : Sound env t := by
  obtain ⟨htable, hmemory, hcovers⟩ := hs
  rw [← h.2] at htable hmemory hcovers
  rw [← hsession] at hmemory hcovers
  rw [← hopened] at hcovers
  exact ⟨htable, hmemory, hcovers⟩

/-- No row has the basis of the scan. -/
def NoneComparable (current : TimeSnapshot) (s : Outbox) : Prop :=
  ∀ k e, s.session.entries.get? k = some e → comparable current e.row = false

omit [Footprint] in
/-- The rows have the basis of the file. -/
theorem noneComparable_of {delivered : Bytes → Prop} {s : Outbox} (hs : Sound env s)
    (hledger : Ledger env delivered s.journal s.db) (hfloored : Floored s.journal s.db.info)
    {current : TimeSnapshot} {r : PyStr} (hbasis : current.timeBasisRef = some r)
    (hother : s.db.info.trustedBasisRef ≠ some r) : NoneComparable current s := by
  intro k e he
  rw [comparable, Bool.and_eq_false_iff, decide_eq_false_iff_not, decide_eq_false_iff_not,
    hbasis]
  by_contra hboth
  rw [not_or, not_not, not_not] at hboth
  obtain ⟨b, hb, -, hagrees⟩ := hs.memory.entries k e he
  obtain ⟨b₀, hb₀, hfixed⟩ := hledger.origin b hb
  have htrust : b₀.timeTrust = .hubTrusted :=
    ((congrArg (fun c : Batch => c.timeTrust) hfixed :).trans hagrees.timeTrust.symm).trans hboth.1
  have hrow : b₀.timeBasisRef = some r :=
    ((congrArg (fun c : Batch => c.timeBasisRef) hfixed :).trans hagrees.timeBasisRef.symm).trans
      hboth.2
  exact hother ((hfloored b₀ hb₀ htrust).2 r hrow)

omit [JsonSchema] in
theorem wp_expireEntry_none {p : TimeProvider} {scan : Scan} {key : PyStr} {s : Outbox}
    (h : NoneComparable scan.current s) :
    wp (expireEntry env p scan key) (fun _ s' => s' = s) (fun _ s' => s' = s) s := by
  unfold expireEntry
  rw [wp_bind, wp_get]
  cases hkey : s.session.entries.get? key with
  | none => exact rfl
  | some e =>
      have hnot := h key e hkey
      have hlower : asPython (lowerAge scan.current e.row) = .ok 0 := by
        rw [lowerAge, hnot]
        rfl
      dsimp only
      rw [wp_bind, hlower, wp_result_ok, wp_ite]
      refine ⟨fun hexp => ?_, fun _ => rfl⟩
      simp [expirable, hnot] at hexp

omit [Footprint] in
/-- The entries that are `DEAD` have rows that are. -/
theorem deads_le {s : Outbox} (hs : Sound env s) :
    (s.session.entries.items.filter fun kv => kv.2.row.state = .dead).length ≤ env.maxDead := by
  refine le_trans ?_ hs.table.deads
  rw [List.countP_eq_length_filter]
  have hnodup : ((s.session.entries.items.filter fun kv => kv.2.row.state = .dead).map (·.1)).Nodup :=
    nodup_filter_keys _ _
  have hsubset : (s.session.entries.items.filter fun kv => kv.2.row.state = .dead).map (·.1) ⊆
      (s.db.batches.filter (·.state = .dead)).map (·.messageId) := by
    intro k hk
    obtain ⟨⟨k', e⟩, hmem, rfl⟩ := List.mem_map.mp hk
    obtain ⟨hitem, hdead⟩ := List.mem_filter.mp hmem
    obtain ⟨b, hb, hkey, hagrees⟩ := hs.memory.entries k' e (Dict.get?_eq_some.mpr hitem)
    refine List.mem_map.mpr ⟨b, List.mem_filter.mpr ⟨hb, ?_⟩, hkey⟩
    rw [← hagrees.state]
    exact hdead
  have hlength := (List.subperm_of_subset hnodup hsubset).length_le
  simpa only [List.length_map] using hlength

omit [JsonSchema] [Footprint] in
theorem wp_prune_none {s : Outbox}
    (hdeads : (s.session.entries.items.filter fun kv => kv.2.row.state = .dead).length ≤ env.maxDead) :
    wp (prune env) (fun _ s' => s' = s) (fun _ s' => s' = s) s := by
  have hnone : exceeding env (s.session.entries.items.filter fun kv => kv.2.row.state = .dead) = [] := by
    rw [exceeding, Nat.sub_eq_zero_of_le hdeads, List.take_zero]
  rw [prune, wp_bind, wp_gets, hnone]
  exact rfl

/-- The scan of a provider that keeps to other bases. -/
theorem wp_expire_untouched {delivered : Bytes → Prop} {s : Outbox} (hs : Sound env s)
    (hledger : Ledger env delivered s.journal s.db) (hfloored : Floored s.journal s.db.info)
    (hoff : env.KeepsOff s.db.info) :
    wp (expire env) (fun _ s' => Untouched s s') (fun _ s' => Untouched s s') s := by
  unfold expire
  cases hp : env.provider with
  | none => exact ⟨rfl, rfl⟩
  | some p =>
      dsimp only
      rw [wp_bind, wp_gets, wp_bind]
      refine wp_reading (fun current hcurrent => ?_) fun _ => ⟨rfl, rfl⟩
      rw [wp_ite]
      refine ⟨fun hvalid => ?_, fun _ => ⟨rfl, rfl⟩⟩
      obtain ⟨r, hbasis, hother⟩ := hoff p _ current hp hcurrent hvalid
      have hnone : NoneComparable current s := noneComparable_of hs hledger hfloored hbasis hother
      simp only [expireAll, sessionClock, wp_bind, wp_gets, wp_modify, wp_pure]
      generalize hread : ({ s with timeReads := s.timeReads + 1, clockReads := s.clockReads + 1 } : Outbox)
        = read
      have hsession : read.session = s.session := by rw [← hread]
      have huntouched : Untouched s read := by
        rw [← hread]
        exact ⟨rfl, rfl⟩
      -- Every entry leaves the state as it is, and there is nothing to prune.
      refine (@wp_each _ _ _ (fun s' => s' = read) (fun _ s' => s' = read) _ _ ?_ read rfl).mono ?_ ?_
      · rintro key - s' rfl
        apply wp_expireEntry_none
        intro k e he
        rw [hsession] at he
        exact hnone k e he
      · rintro - s' rfl
        have hdeads := deads_le hs
        rw [← hsession] at hdeads
        refine (wp_prune_none hdeads).mono ?_ ?_ <;>
        · rintro - s' rfl
          exact huntouched
      · rintro - s' rfl
        exact huntouched

/-- What the gate of `enqueue` read is of another basis than the file's. -/
def OtherBasis (current : Option TimeSnapshot) (m : MetaRow) : Prop :=
  ∃ c basis, current = some c ∧ c.timeValid = true ∧ m.trustedBasisRef = some basis ∧
    c.timeBasisRef ≠ some basis

/-- `meta` does not allow one more batch: the orders are used up, or its time is
    of another basis. -/
def Unallowed (current : Option TimeSnapshot) (m : MetaRow) : Prop :=
  ¬ (1 ≤ m.nextOrder ∧ m.nextOrder < maxSafe) ∨ OtherBasis current m

omit [JsonSchema] [Footprint] in
theorem Unallowed.spared {current : Option TimeSnapshot} {s s' : Outbox}
    (h : Unallowed current s.db.info) (hspared : Spared s s') : Unallowed current s'.db.info := by
  rw [hspared.info]
  exact h

omit [JsonSchema] [Footprint] in
/-- A row of another basis does not pass the commit guard. -/
theorem rememberTime_otherBasis {db : Db} {r : BatchColumns} (basis : PyStr)
    (htrust : r.timeTrust = .hubTrusted) (hbasis : db.info.trustedBasisRef = some basis)
    (hother : r.timeBasisRef ≠ some basis) : ∀ db', rememberTime db r ≠ .ok db' := by
  intro db' h
  have hr := rememberTime_eq_ok h htrust
  rcases hr.agreed with hnone | hsame
  · rw [hbasis] at hnone
    cases hnone
  · exact hother (hsame.symm.trans hbasis)

omit [Footprint] [JsonSchema] in
theorem newRow_otherBasis {key : PyStr} {stamp : PyNum} {payload : Bytes} {now : Option PyNum}
    {order : ℤ} {c : TimeSnapshot} (hvalid : c.timeValid = true) :
    (newRow key stamp payload now order (some c)).timeTrust = .hubTrusted ∧
      (newRow key stamp payload now order (some c)).timeBasisRef = c.timeBasisRef := by
  simp [newRow, Option.filter, hvalid]

omit [JsonSchema] [Footprint] in
/-- The insertion of such a row is rolled back. -/
theorem wp_insert_otherBasis {p : TimeProvider} (hp : env.provider = some p)
    {token : Option TimeToken} {fresh : Bool} {row : Row} {payload : Bytes} {basis : PyStr}
    {s : Outbox} (htrust : row.timeTrust = .hubTrusted)
    (hbasis : s.db.info.trustedBasisRef = some basis) (hother : row.timeBasisRef ≠ some basis) :
    wp (insert env token fresh row payload) (fun _ _ => False)
      (fun _ s' => s'.db = s.db ∧ s'.journal = s.journal) s := by
  refine wp_repository (E := fun s' => s'.db = s.db ∧ s'.journal = s.journal) ⟨rfl, rfl⟩ ?_
  simp only [wp_bind, wp_get]
  cases hins : s.db.insertBatch { row with payload } with
  | none => exact ⟨rfl, rfl⟩
  | some db =>
      obtain ⟨rfl, -⟩ := insertBatch_eq_some hins
      simp only [wp_bind, wp_modify, hp]
      refine wp_accept.mono (fun a s' h => ?_) fun _ _ _ => ⟨rfl, rfl⟩
      obtain ⟨c, t, -, -, -, hcases⟩ := h
      rw [if_pos htrust] at hcases
      obtain ⟨hrow, db', hdb', -⟩ := hcases
      rw [hrow] at hdb'
      refine absurd hdb' (rememberTime_otherBasis basis ?_ ?_ ?_ db')
      · exact htrust
      · exact hbasis
      · exact hother

/-- How `enqueue` ends, when it returns, for a batch that `meta` does not allow:
    the batch is there already, or a quota has no room after the scan. -/
def Declined (scanned : Outbox → Outbox → Prop) (env : OutboxEnv) (payload : Bytes) (s s' : Outbox) :
    Bool → Prop
  | true => s'.db = s.db ∧ s'.journal = s.journal ∧
    ∃ key stamp e, readBatch payload = .ok (key, stamp) ∧ s.session.entries.get? key = some e
  | false => ∃ t, scanned s t ∧ s'.journal = t.journal ∧
    (full env payload t = true ∧ s'.db = t.db.countDropped ∨
      (∃ e : BatchState, e.row.size = payload.length ∧ t.session.exhausted env.sizes e = true) ∧
        s'.db = t.db)

omit [JsonSchema] [Footprint] in
theorem exhausted_of_stage {sizes : ObjectSizes} {t : OutboxSession} {key : PyStr} {e : BatchState}
    (h : (t.stage sizes key e).1 = none) : t.exhausted sizes e = true := by
  unfold OutboxSession.stage at h
  split at h
  · cases h
  · split at h
    · rename_i hroom
      exact hroom
    · cases h

omit [JsonSchema] [Footprint] in
theorem wp_admit_unallowed {key : PyStr} {stamp : PyNum} {payload : Bytes} {now : Option PyNum}
    {association : Association} {token : Option TimeToken} {current : Option TimeSnapshot}
    {s : Outbox} (hgate : ∀ c, current = some c → ∃ p, env.provider = some p)
    (h : Unallowed current s.db.info) :
    wp (admitBatch env key stamp payload now association token current)
      (fun flag s' => flag = false ∧ s'.db = s.db ∧ s'.journal = s.journal ∧
        ∃ e : BatchState, e.row.size = payload.length ∧ s.session.exhausted env.sizes e = true)
      (fun _ s' => s'.db = s.db ∧ s'.journal = s.journal) s := by
  unfold admitBatch
  rw [wp_bind, nextOrder, wp_bind, wp_gets, wp_bind, wp_check]
  refine ⟨fun horder => ?_, fun _ => ⟨rfl, rfl⟩⟩
  rw [wp_pure]
  -- The order is free, so it is the basis that does not allow the batch.
  obtain ⟨c, basis, hc, hvalid, hbasis, hother⟩ := h.resolve_left (not_not.mpr horder)
  obtain ⟨p, hp⟩ := hgate c hc
  subst hc
  rw [wp_bind, stageBatch, wp_bind, wp_gets, wp_bind, wp_check]
  refine ⟨fun _ => ?_, fun _ => ⟨rfl, rfl⟩⟩
  rw [wp_bind, wp_modify, wp_pure]
  generalize hstaged : s.session.stage env.sizes
    (newRow key stamp payload now s.db.info.nextOrder (some c)).messageId
    { row := newRow key stamp payload now s.db.info.nextOrder (some c)
      category := categoryOf association.events s.session.watermark
      events := association.events, captureBoot := association.captureBoot } = staged
  cases hstage : staged.1 with
  | none =>
      dsimp only [Option.map_none]
      simp only [countRejected, wp_bind, wp_modify, wp_pure]
      rw [← hstaged] at hstage
      exact ⟨trivial, rfl, rfl, _, rfl, exhausted_of_stage hstage⟩
  | some entry =>
      dsimp only [Option.map_some]
      simp only [commitStaged, wp_bind, wp_attempt]
      obtain ⟨htrust, hbasis'⟩ := newRow_otherBasis hvalid
      have hother' : (newRow key stamp payload now s.db.info.nextOrder (some c)).timeBasisRef
          ≠ some basis := by
        rw [hbasis']
        exact hother
      -- The transaction refuses the row, and the error goes to the caller.
      refine (wp_insert_otherBasis (s := s.onSession fun _ => staged.2) hp htrust hbasis
        hother').mono (fun _ _ h => h.elim) fun e s' h => ?_
      simp only [countRejected, wp_modify, wp_raise]
      exact h

/-- What the gate of an `enqueue` in this state reads. -/
def gateReading (env : OutboxEnv) (token : Option TimeToken) (s : Outbox) : Option TimeSnapshot :=
  match env.provider with
  | none => none
  | some p => (p.require s.timeReads token .enqueue).toOption

omit [JsonSchema] [Footprint] in
theorem wp_gate_reading {token : Option TimeToken} {s : Outbox} :
    wp (gate env token .enqueue) (fun current s' => current = gateReading env token s ∧
        (∀ c, current = some c → ∃ p, env.provider = some p) ∧
        Untouched s s' ∧ s'.session = s.session ∧ s'.opened = s.opened)
      (fun _ s' => Untouched s s') s := by
  unfold gate gateReading
  cases hp : env.provider with
  | none => exact ⟨rfl, fun c h => (by cases h), ⟨rfl, rfl⟩, rfl, rfl⟩
  | some p =>
      rw [wp_bind]
      refine wp_reading (fun c hc => ⟨?_, fun _ _ => ⟨p, rfl⟩, ⟨rfl, rfl⟩, rfl, rfl⟩)
        fun _ => ⟨rfl, rfl⟩
      dsimp only
      rw [hc]
      rfl

omit [JsonSchema] [Footprint] in
theorem wp_refuseFull {s : Outbox} :
    wp (refuseFull env) (fun flag s' => flag = false ∧ s'.db = s.db.countDropped ∧
      s'.journal = s.journal) (fun _ s' => s'.db = s.db ∧ s'.journal = s.journal) s := by
  unfold refuseFull countRejected
  simp only [wp_bind, wp_modify]
  refine wp_repository (E := fun s' => s'.db = s.db ∧ s'.journal = s.journal) ⟨rfl, rfl⟩ ?_
  simp only [wp_modify, wp_pure]
  exact ⟨⟨trivial, rfl, rfl⟩, rfl, rfl⟩

/-- A batch that `meta` does not allow is not inserted, however the call ends, and else
    the file changes as the scan changes it. -/
theorem wp_enqueue_unallowed {scanned : Outbox → Outbox → Prop}
    (hsame : ∀ a b, Untouched a b → scanned a b)
    (htrans : ∀ a b c, scanned a b → scanned b c → scanned a c)
    (hspared : ∀ a b, scanned a b → Spared a b) {payload : Bytes} {now : Option PyNum}
    {association : Association} {token : Option TimeToken} {s : Outbox}
    (hscan : ∀ t, Untouched s t → t.session = s.session → t.opened = s.opened → s.opened = true →
      wp (expire env) (fun _ t' => scanned t t') (fun _ t' => scanned t t') t)
    (h : Unallowed (gateReading env token s) s.db.info) :
    wp (enqueue env payload now association token)
      (fun flag s' => Declined scanned env payload s s' flag) (fun _ s' => scanned s s') s := by
  have hnone : scanned s s := hsame s s ⟨rfl, rfl⟩
  unfold enqueue requireOpen
  simp only [wp_bind, wp_get, wp_check]
  refine ⟨fun hopen => ?_, fun _ => hnone⟩
  refine wp_gate_reading.mono (fun current t ht => ?_) fun _ _ h => hsame _ _ h
  obtain ⟨hcurrent, hgate, huntouched, hsession, hopened⟩ := ht
  have hgated : scanned s t := hsame s t huntouched
  rw [wp_result]
  refine ⟨fun valid _ => ?_, fun _ _ => hgated⟩
  refine ⟨fun _ => ?_, fun _ => hgated⟩
  rw [wp_result]
  refine ⟨fun r hr => ?_, fun _ _ => hgated⟩
  obtain ⟨key, stamp⟩ := r
  have hread := asPython_eq_ok.mp hr
  dsimp only
  cases hkey : t.session.entries.get? key with
  | some e =>
      simp only [wp_bind, wp_get, wp_check, wp_pure]
      refine ⟨fun _ => ?_, fun _ => hgated⟩
      -- A batch that is known is answered without looking at `meta`.
      rw [hsession] at hkey
      exact ⟨huntouched.2, huntouched.1, key, stamp, e, hread, hkey⟩
  | none =>
      simp only [wp_bind, wp_get]
      refine (hscan t huntouched hsession hopened hopen).mono (fun _ t₁ ht₁ => ?_)
        fun _ _ ht₁ => htrans _ _ _ hgated ht₁
      have hscanned : scanned s t₁ := htrans _ _ _ hgated ht₁
      rw [wp_ite]
      refine ⟨fun hfull => ?_, fun _ => ?_⟩
      -- A full table refuses the batch, whatever `meta` allows.
      · refine wp_refuseFull.mono (fun flag s' hs' => ?_) fun _ s' hs' => ?_
        · obtain ⟨rfl, hdb', hjournal'⟩ := hs'
          exact ⟨t₁, hscanned, hjournal', .inl ⟨hfull, hdb'⟩⟩
        · exact htrans _ _ _ hscanned (hsame _ _ ⟨hs'.2, hs'.1⟩)
      · rw [← hcurrent] at h
        refine (wp_admit_unallowed hgate (h.spared (hspared _ _ hscanned))).mono
          (fun flag s' hs' => ?_) fun _ s' hs' => ?_
        · obtain ⟨rfl, hdb', hjournal', hroom⟩ := hs'
          exact ⟨t₁, hscanned, hjournal', .inr ⟨hroom, hdb'⟩⟩
        · exact htrans _ _ _ hscanned (hsame _ _ ⟨hs'.2, hs'.1⟩)

end Barred

/-! ## The life of the file -/

/-- What `meta` promises at the end of a run that went by `s`. -/
structure Ordered [JsonSchema] [Footprint] (env : OutboxEnv) (s s' : Outbox) : Prop where
  /-- Orders are given out once, in increasing order. -/
  increasing : ((insertions s'.journal).map (·.localOrder)).Pairwise (· < ·)
  range : ∀ b ∈ insertions s'.journal, 1 ≤ b.localOrder ∧ b.localOrder < maxSafe
  /-- A row is one of the inserted batches. -/
  rows : ∀ b ∈ s'.db.batches, ∃ b₀ ∈ insertions s'.journal, b₀.fixed = b.fixed
  grows : s.db.info.Grows s'.db.info
  floored : Floored s'.journal s'.db.info
  /-- What `meta` does not allow is not inserted: the call raises, or it returns
      for a batch that is there already or that no quota has room for. -/
  allowed : ∀ payload now association token,
    Unallowed (gateReading env token s') s'.db.info →
      wp (OutboxOp.exec env (.enqueue payload now association token))
        (fun out s'' => ∃ flag, out = .flag flag ∧ Declined Spared env payload s' s'' flag)
        (fun _ s'' => Spared s' s'') s'
  /-- A provider that keeps to other bases changes nothing at all. -/
  untouched : env.KeepsOff s'.db.info → ∀ payload now association token,
    Unallowed (gateReading env token s') s'.db.info →
      wp (OutboxOp.exec env (.enqueue payload now association token))
        (fun out s'' => ∃ flag, out = .flag flag ∧ Declined Untouched env payload s' s'' flag)
        (fun _ s'' => Untouched s' s'') s'

section Scripted

attribute [local instance] JsonSchema.atRoot Rounding.double Footprint.ample

/-- A provider of this basis, after a first round. -/
def setProvider (basis : PyStr) : PlatformTime :=
  timeRun steady (.started steady { TimeConfig.scripted with basis := some basis }) setClock

/-- A token of such a provider. -/
def setToken : Option TimeToken := some ⟨py "b", 1, 1, 90⟩

/-- The basis changes after the first insertion, which fills the table. -/
def rebased : OutboxEnv :=
  .scripted 1 Nat.one_pos (some ⟨.double, steady, fun n => setProvider (if n < 3 then py "h" else py "i")⟩)
    fun _ => 0

end Scripted

end PlcnextIot.Storage
