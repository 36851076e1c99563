/-
  PlcnextIot.Storage.OutboxIntegrity

  No silent loss: the file and the memory agree, the payload of a row never
  changes, what `enqueue` has accepted is in the file, and a committed batch goes
  only by an acknowledgement or as a `DEAD` one.
-/

import PlcnextIot.Storage.OutboxLedger

namespace PlcnextIot.Storage

open PlcnextIot.Python PlcnextIot.Contracts PlcnextIot.Config PlcnextIot.Reporting
open PlcnextIot.Core PlcnextIot.Effect PlcnextIot.Effect.Prog Relation

section Integrity

variable [JsonSchema] {env : OutboxEnv} {op : OutboxOp}

/-! ## What becomes of a row -/

/-- The row is still there; it has become `DEAD` by one of these changes if its
    state is another. -/
def Remains (more : List Change) (b : Batch) (db : Db) : Prop :=
  ∃ b' ∈ db.batches, b'.fixed = b.fixed ∧ (b'.state = b.state ∨
    ∃ e source cause old, .terminated e source cause old ∈ more ∧ e.Of b)

/-- Every row remains, or one of the changes in between has removed it. -/
def Onward (s s' : Outbox) : Prop :=
  ∃ more, s'.journal = s.journal ++ more ∧
    ∀ b ∈ s.db.batches, Remains more b s'.db ∨ ∃ c ∈ more, c.Removes b

omit [JsonSchema] in
theorem Onward.same {s s' : Outbox} (hjournal : s'.journal = s.journal)
    (hrows : s'.db.batches = s.db.batches) : Onward s s' := by
  refine ⟨[], by rw [hjournal, List.append_nil], fun b hb => .inl ⟨b, ?_, rfl, .inl rfl⟩⟩
  rw [hrows]
  exact hb

omit [JsonSchema] in
theorem Onward.trans {a b c : Outbox} (h : Onward a b) (h' : Onward b c) : Onward a c := by
  obtain ⟨more, hmore, hrows⟩ := h
  obtain ⟨more', hmore', hrows'⟩ := h'
  refine ⟨more ++ more', by rw [hmore', hmore, List.append_assoc], fun r hr => ?_⟩
  rcases hrows r hr with ⟨r₁, hr₁, hfix, hstate⟩ | ⟨x, hx, hremoves⟩
  · rcases hrows' r₁ hr₁ with ⟨r₂, hr₂, hfix', hstate'⟩ | ⟨x, hx, hremoves⟩
    · refine .inl ⟨r₂, hr₂, hfix'.trans hfix, ?_⟩
      rcases hstate' with hstate' | ⟨e, source, cause, old, hin, hof⟩
      · rcases hstate with hstate | ⟨e, source, cause, old, hin, hof⟩
        · exact .inl (hstate'.trans hstate)
        · exact .inr ⟨e, source, cause, old, List.mem_append_left _ hin, hof⟩
      · exact .inr ⟨e, source, cause, old, List.mem_append_right _ hin, hof.fixed hfix⟩
    · exact .inr ⟨x, List.mem_append_right _ hx, hremoves.fixed hfix⟩
  · exact .inr ⟨x, List.mem_append_left _ hx, hremoves⟩

omit [JsonSchema] in
/-- A noted change, with what it does to the rows. -/
theorem Onward.note {s s' : Outbox} {c : Change} (hjournal : s'.journal = s.journal ++ [c])
    {g : Batch → Batch} {p : Batch → Bool} (hrows : s'.db.batches = (s.db.batches.map g).filter p)
    (hfixed : ∀ b, (g b).fixed = b.fixed)
    (hgone : ∀ b ∈ s.db.batches, p (g b) = false → c.Removes b)
    (hstate : ∀ b ∈ s.db.batches, (g b).state = b.state ∨
      ∃ e source cause old, c = .terminated e source cause old ∧ e.Of b) : Onward s s' := by
  refine ⟨[c], hjournal, fun b hb => ?_⟩
  cases hp : p (g b) with
  | true =>
      refine .inl ⟨g b, ?_, hfixed b, ?_⟩
      · rw [hrows]
        exact List.mem_filter.mpr ⟨List.mem_map.mpr ⟨b, hb, rfl⟩, hp⟩
      · rcases hstate b hb with hstate | ⟨e, source, cause, old, rfl, hof⟩
        · exact .inl hstate
        · exact .inr ⟨e, source, cause, old, .head _, hof⟩
  | false => exact .inr ⟨c, .head _, hgone b hb hp⟩

theorem onward_step [Footprint] {s s' : Outbox} (hstep : Commit env op s s') (h : Sound env s) :
    Onward s s' := by
  cases hstep with
  | waited hlater =>
      rw [hlater.frame]
      exact .same rfl rfl
  | inserted i hi =>
      refine ⟨_, rfl, fun b hb => .inl ⟨b, ?_, rfl, .inl rfl⟩⟩
      show b ∈ i.db.batches
      rw [hi.inserts.batches]
      exact List.mem_append_left _ hb
  | attempted r hr payload hpayload hbytes =>
      refine .note (c := .attempted r) rfl (g := fun b => if b.messageId = r.entry.row.messageId then
        { b with attempts := r.entry.nextAttempt, nextDue := .int 0 } else b) (p := fun _ => true)
        (List.filter_true _).symm (fun b => ?_) (fun b _ h => by cases h) fun b _ => .inl ?_
      all_goals split <;> rfl
  | terminated cause key reason source e hopen hkey hwhy hread =>
      refine .note (c := .terminated e source cause _) rfl (batches_terminal s.db key reason _ source)
        -- A termination may prune rows, and changes the state of one that is left.
        (Batch.terminate_fixed key reason source) (fun b hb hp => ?_) fun b hb => ?_
      · have hin := not_not.mp (of_decide_eq_false hp)
        rw [messageId_of_fixed (Batch.terminate_fixed key reason source b)] at hin
        obtain ⟨x, hx⟩ := h.covers hopen b hb
        exact ⟨x, listed_eq.mpr ⟨_, hin, hx⟩, (of_unique h.table h.memory hx hb rfl).of⟩
      · by_cases hk : b.messageId = key
        · exact .inr ⟨e, source, cause, _, rfl, (of_unique h.table h.memory hkey hb hk).of⟩
        · rw [Batch.terminate, if_neg hk]
          exact .inl rfl
  | pruned key e hopen hkey hdead =>
      refine .note (c := .pruned e) rfl (g := id) (p := fun b => b.messageId ≠ key) ?_ (fun _ => rfl)
        (fun b hb hp => ?_) fun _ _ => .inl rfl
      · rw [List.map_id]
        rfl
      · exact (of_unique h.table h.memory hkey hb (not_not.mp (of_decide_eq_false hp))).of
  | stored ack key e hopen hkey hsent hwaits hack =>
      refine .note (c := .stored e ack) rfl (g := id) (p := fun b => b.messageId ≠ key) ?_
        (fun _ => rfl) (fun b hb hp => ?_) fun _ _ => .inl rfl
      · rw [List.map_id]
        rfl
      · exact (of_unique h.table h.memory hkey hb (not_not.mp (of_decide_eq_false hp))).of
  | accounted | staged | restaged | dropped | purged | deactivated | retried | sdkRejected | gated
  | closed | reopened | restarted | refreshed | attached | opened => exact .same rfl rfl

section Runs

variable [Footprint]

theorem onward_run {s : Outbox} (h : Sound env s) (ops : List OutboxOp) :
    Onward s (runCalls (OutboxOp.exec env) s ops) := by
  refine (runCalls_keeps (I := fun s' => Sound env s' ∧ Onward s s')
    exec_goes (fun op hop a b hstep hab => ?_) ⟨h, .same rfl rfl⟩).2
  exact ⟨sound_step hstep hab.1, hab.2.trans (onward_step hstep hab.1)⟩

end Runs

/-! ## What `True` promises -/

/-- A row of the table has these bytes. -/
def Db.Holds (db : Db) (payload : Bytes) : Prop := ∃ b ∈ db.batches, b.payload = payload

omit [JsonSchema] in
theorem holds_of_payload {db : Db} {key : PyStr} {payload : Bytes}
    (h : db.payload key = some payload) : db.Holds payload := by
  unfold Db.payload at h
  obtain ⟨b, hb, hpayload⟩ := Option.map_eq_some_iff.mp h
  exact ⟨b, List.mem_of_find?_eq_some hb, hpayload⟩

omit [JsonSchema] in
theorem Db.Holds.updateBatch {db : Db} {payload : Bytes} (h : db.Holds payload) (key : PyStr)
    (f : BatchColumns → BatchColumns) : (db.updateBatch key f).Holds payload := by
  obtain ⟨b, hb, hpayload⟩ := h
  refine ⟨_, List.mem_map.mpr ⟨b, hb, rfl⟩, ?_⟩
  split
  · exact hpayload
  · exact hpayload

omit [JsonSchema] in
/-- The guard of an insertion leaves the rows where they are. -/
theorem wp_accept_holds {p : TimeProvider} {token : Option TimeToken} {fresh : Bool} {row : Row}
    {payload : Bytes} {s : Outbox} (h : s.db.Holds payload) :
    wp (accept p token fresh row) (fun _ s' => s'.db.Holds payload) (fun _ _ => True) s := by
  refine wp_accept.mono (fun a s' hs' => ?_) fun _ _ _ => trivial
  obtain ⟨c, t, ht, -, -, hcases⟩ := hs'
  by_cases htrust : row.timeTrust = .hubTrusted
  · rw [if_pos htrust] at hcases
    obtain ⟨hrow, db, hdb, rfl⟩ := hcases
    rw [hrow] at hdb
    obtain ⟨b, hb, hpayload⟩ := h.updateBatch row.messageId (·.restamp c)
    refine ⟨b, ?_, hpayload⟩
    show b ∈ db.batches
    rw [(rememberTime_eq_ok hdb htrust).batches]
    exact hb
  · rw [if_neg htrust] at hcases
    rw [hcases.2, ht.frame]
    exact h

omit [JsonSchema] in
theorem wp_insert_holds {token : Option TimeToken} {fresh : Bool} {row : Row} {payload : Bytes}
    {s : Outbox} :
    wp (insert env token fresh row payload) (fun _ s' => s'.db.Holds payload) (fun _ _ => True) s := by
  refine wp_repository (E := fun _ => True) trivial ?_
  simp only [wp_bind, wp_get]
  cases hins : s.db.insertBatch { row with payload } with
  | none => trivial
  | some db =>
      obtain ⟨rfl, -⟩ := insertBatch_eq_some hins
      have hheld : ({ s.db with batches := s.db.batches ++ [{ row with payload }] } : Db).Holds payload :=
        ⟨_, List.mem_append_right _ (.head _), rfl⟩
      simp only [wp_bind, wp_modify]
      cases env.provider with
      | none => exact ⟨hheld, trivial⟩
      | some p =>
          rw [wp_bind]
          exact (wp_accept_holds hheld).mono (fun _ _ h => ⟨h, trivial⟩) fun _ _ _ => trivial

omit [JsonSchema] in
theorem wp_admitBatch_holds [Footprint] {key : PyStr} {stamp : PyNum} {payload : Bytes}
    {now : Option PyNum} {association : Association} {token : Option TimeToken}
    {current : Option TimeSnapshot} {s : Outbox} :
    wp (admitBatch env key stamp payload now association token current)
      (fun flag s' => flag = true → s'.db.Holds payload) (fun _ _ => True) s := by
  unfold admitBatch
  rw [wp_bind]
  refine wp_of_forall (fun order t => ?_) fun _ _ => trivial
  rw [wp_bind]
  refine wp_of_forall (fun staged t => ?_) fun _ _ => trivial
  cases staged with
  | none =>
      simp only [countRejected, wp_bind, wp_modify, wp_pure]
      exact fun h => by cases h
  | some entry =>
      simp only [commitStaged, wp_bind, wp_attempt]
      refine wp_insert_holds.mono (fun row t h => ?_) fun _ _ _ => ?_
      · simp only [wp_modify, wp_pure]
        exact fun _ => h
      · simp only [countRejected, wp_modify, wp_raise]

/-- What `enqueue` answers with `True` is in the table. -/
theorem wp_enqueue_holds [Footprint] {payload : Bytes} {now : Option PyNum}
    {association : Association} {token : Option TimeToken} {s : Outbox} :
    wp (enqueue env payload now association token)
      (fun flag s' => flag = true → s'.db.Holds payload) (fun _ _ => True) s := by
  unfold enqueue
  rw [wp_bind]
  refine wp_of_forall (fun _ t => ?_) fun _ _ => trivial
  rw [wp_bind]
  refine wp_of_forall (fun current t => ?_) fun _ _ => trivial
  simp only [wp_bind, wp_result, wp_check]
  refine ⟨fun valid _ => ⟨fun _ => ⟨fun r _ => ?_, fun _ _ => trivial⟩, fun _ => trivial⟩,
    fun _ _ => trivial⟩
  simp only [wp_get]
  cases t.session.entries.get? r.1 with
  | some e =>
      simp only [wp_bind, wp_get, wp_check, wp_pure]
      exact ⟨fun h _ => holds_of_payload h, fun _ => trivial⟩
  | none =>
      simp only [wp_bind, wp_get, wp_ite]
      refine wp_of_forall (fun _ u => ?_) fun _ _ => trivial
      refine ⟨fun _ => ?_, fun _ => wp_admitBatch_holds⟩
      -- A full table answers with `False`.
      unfold refuseFull
      rw [wp_bind]
      refine wp_of_forall (fun _ u => ?_) fun _ _ => trivial
      rw [wp_bind]
      refine wp_of_forall (fun _ u => ?_) fun _ _ => trivial
      rw [wp_pure]
      exact fun h => by cases h

/-! ## Integrity -/

/-- The entry is that of the row. -/
structure Mirrors (e : BatchState) (b : Batch) : Prop where
  messageId : e.row.messageId = b.messageId
  hash : e.row.hash = b.hash
  state : e.row.state = b.state
  attempts : e.row.attempts = b.attempts

omit [JsonSchema] in
theorem Agrees.mirrors {e : BatchState} {b : Batch} (h : Agrees e b) : Mirrors e b :=
  ⟨h.messageId, h.hash, h.state, h.attempts⟩

/-- The batches are within the limits. -/
structure WithinQuotas (env : OutboxEnv) (db : Db) : Prop where
  count : db.batches.length ≤ env.maxBatches
  bytes : (db.batches.map (·.payload.length)).sum ≤ env.maxBytes
  deads : db.batches.countP (·.state = .dead) ≤ env.maxDead

/-- What holds between two states of a run. -/
structure Intact (env : OutboxEnv) (delivered : Bytes → Prop) (s s' : Outbox) : Prop where
  /-- Every entry is that of a row. -/
  entries : ∀ k e, s'.session.entries.get? k = some e →
    ∃ b ∈ s'.db.batches, b.messageId = k ∧ Mirrors e b
  quotas : WithinQuotas env s'.db
  /-- A payload is that of the batch when it was inserted. -/
  payload : ∀ b ∈ s.db.batches, ∀ b' ∈ s'.db.batches, b'.messageId = b.messageId →
    b'.payload = b.payload ∨ ∃ c ∈ s'.journal.drop s.journal.length, c.Removes b
  /-- A row stays, with its state or `DEAD` for a reason, or it was removed for one. -/
  rows : ∀ b ∈ s.db.batches,
    (∃ b' ∈ s'.db.batches, b'.fixed = b.fixed ∧ (b'.state = b.state ∨
      ∃ e source cause old, .terminated e source cause old ∈ s'.journal.drop s.journal.length ∧
        e.Of b ∧ e.row.state = .pending ∧ Caused env delivered e source cause)) ∨
    ∃ c ∈ s'.journal.drop s.journal.length, c.Removes b ∧ c.Justified env delivered
  /-- So is every batch that was ever inserted. -/
  committed : ∀ b ∈ insertions s'.journal, (∃ b' ∈ s'.db.batches, b'.fixed = b.fixed) ∨
    ∃ c ∈ s'.journal, c.Removes b ∧ c.Justified env delivered

theorem intact_of {delivered : Bytes → Prop} {s s' : Outbox} (h : Sound env s')
    (hl : Ledger env delivered s'.journal s'.db) (honward : Onward s s') : Intact env delivered s s' := by
  obtain ⟨more, hmore, hrows⟩ := honward
  have hdrop : s'.journal.drop s.journal.length = more := by rw [hmore, List.drop_left]
  have hjustified : ∀ c ∈ more, c.Justified env delivered := fun c hc => by
    refine hl.justified c ?_
    rw [hmore]
    exact List.mem_append_right _ hc
  refine ⟨?_, ⟨h.table.count, h.table.bytes, h.table.deads⟩, ?_, ?_, ?_⟩
  · intro k e he
    obtain ⟨b, hb, hk, hagrees⟩ := h.memory.entries k e he
    exact ⟨b, hb, hk, hagrees.mirrors⟩
  · rw [hdrop]
    intro b hb b' hb' hk
    rcases hrows b hb with ⟨b₁, hb₁, hfix, -⟩ | hremoved
    · have hsame := h.table.unique hb' hb₁ (hk.trans (messageId_of_fixed hfix).symm)
      rw [hsame]
      exact .inl (payload_of_fixed hfix)
    · exact .inr hremoved
  · rw [hdrop]
    intro b hb
    rcases hrows b hb with ⟨b₁, hb₁, hfix, hstate⟩ | ⟨c, hc, hremoves⟩
    · refine .inl ⟨b₁, hb₁, hfix, ?_⟩
      rcases hstate with hstate | ⟨e, source, cause, old, hin, hof⟩
      · exact .inl hstate
      · obtain ⟨hpending, hcaused, -⟩ := hjustified _ hin
        exact .inr ⟨e, source, cause, old, hin, hof, hpending, hcaused⟩
    · exact .inr ⟨c, hc, hremoves, hjustified c hc⟩
  · intro b hb
    rcases hl.fate b hb with hrow | ⟨c, hc, hremoves⟩
    · exact .inl hrow
    · exact .inr ⟨c, hc, hremoves, hl.justified c hc⟩

/-- No silent loss, between any two moments of a run; once the process has opened
    the store, every row has its entry; and `enqueue` answers `True` only for what
    is in the table. -/
theorem no_silent_loss [Footprint] (env : OutboxEnv) (maxBytes : ℤ) (maxRecords : ℕ)
    (accounting : Option (Accounting × ℤ)) (before after : List OutboxOp) :
    let s := runCalls (OutboxOp.exec env) (.fresh maxBytes maxRecords accounting) before
    let s' := runCalls (OutboxOp.exec env) s after
    Intact env (fun ack => .acknowledge ack ∈ before ++ after) s s' ∧
      (s.opened = true → (∀ op ∈ after, ∀ b r a, op ≠ .restart b r a) →
        ∀ b ∈ s'.db.batches, ∃ e, s'.session.entries.get? b.messageId = some e ∧ Mirrors e b) ∧
      ∀ payload now association token,
        let call := perform (OutboxOp.exec env) s' (.enqueue payload now association token)
        call.result = .ok (.flag true) → call.after.db.Holds payload := by
  intro s s'
  have hs : Sound env s := sound_run (sound_fresh env maxBytes maxRecords accounting) before
  have hs' : Sound env s' := sound_run hs after
  have hledger : Ledger env (fun ack => .acknowledge ack ∈ before ++ after) s'.journal s'.db := by
    refine ledger_run hs (ledger_run (sound_fresh env maxBytes maxRecords accounting) ledger_empty
      fun ack hack => List.mem_append_left _ hack) fun ack hack => List.mem_append_right _ hack
  refine ⟨intact_of hs' hledger (onward_run hs after), fun hopen hstays b hb => ?_, ?_⟩
  · obtain ⟨e, he⟩ := covers_run (hs.covers hopen) hstays b hb
    exact ⟨e, he, (of_unique hs'.table hs'.memory he hb rfl).mirrors⟩
  · intro payload now association token call hresult
    have hcall : wp (OutboxOp.exec env (.enqueue payload now association token))
        (fun out t => out = .flag true → t.db.Holds payload) (fun _ _ => True) s' := by
      simp only [OutboxOp.exec, wp_bind, wp_pure]
      refine wp_enqueue_holds.mono (fun flag t h hflag => h ?_) fun _ _ _ => trivial
      cases hflag
      rfl
    exact (perform_spec hcall).1 _ hresult rfl

end Integrity

section Scripted

attribute [local instance] JsonSchema.atRoot Footprint.ample

/-- The receiver refuses a batch for good. -/
def scriptedRefusal (messageId : PyStr) : Bytes :=
  scriptedAnswer messageId (py "REJECTED")
    [.obj [(py "code", .str (py "SCHEMA_INVALID")), (py "path", .str []), (py "message", .str (py "no"))]]

/-- Two batches are enqueued and sent. -/
def sendTwo : List OutboxOp := [
  .restart 4194304 10000 none, .enqueue (scriptedBatch (py "m")) none {} none,
  .enqueue (scriptedBatch (py "n")) none {} none, .reserve none, .reserve none]

/-- Both are refused: the second termination prunes the first batch. -/
def refuseTwo : List OutboxOp :=
  [.acknowledge (scriptedRefusal (py "m")), .acknowledge (scriptedRefusal (py "n"))]

/-- The ids and the states of the rows. -/
def phases (s : Outbox) : List (PyStr × BatchPhase) :=
  s.db.batches.map fun b => (b.messageId, b.state)

/-- A run with two terminations, of which the second prunes a batch. -/
theorem no_silent_loss_refused :
    let s := runCalls (OutboxOp.exec untimed) (.fresh 4194304 10000 none) sendTwo
    let s' := runCalls (OutboxOp.exec untimed) s refuseTwo
    Intact untimed (fun ack => .acknowledge ack ∈ sendTwo ++ refuseTwo) s s' ∧
      phases s = [(py "m", .pending), (py "n", .pending)] ∧ phases s' = [(py "n", .dead)] := by
  intro s s'
  refine ⟨(no_silent_loss untimed 4194304 10000 none sendTwo refuseTwo).1, ?_⟩
  decide +kernel

/-- The batch is stored, and its id is used again. -/
def reuseOne : List OutboxOp := [
  .reserve none, .acknowledge (scriptedAck (py "m")),
  .enqueue (scriptedValue (py "m") 2) none {} none]

/-- A store whose third transaction does not start. -/
def unopened : OutboxEnv := { untimed with starts := fun n => n < 2 }

/-- A message id has other bytes after `STORED`; and a process that could not open
    the file has rows without entries. -/
theorem no_silent_loss_reused :
    (let s := runCalls (OutboxOp.exec untimed) (.fresh 4194304 10000 none)
        (.restart 4194304 10000 none :: enqueueOne)
      let s' := runCalls (OutboxOp.exec untimed) s reuseOne
      ∃ b ∈ s.db.batches, ∃ b' ∈ s'.db.batches, b'.messageId = b.messageId ∧ b'.payload ≠ b.payload) ∧
    let s := runCalls (OutboxOp.exec unopened) (.fresh 4194304 10000 none)
      (.restart 4194304 10000 none :: enqueueOne ++ [.restart 4194304 10000 none])
    s.opened = false ∧ ∃ b ∈ s.db.batches, s.session.entries.get? b.messageId = none := by
  decide +kernel

end Scripted

end PlcnextIot.Storage
