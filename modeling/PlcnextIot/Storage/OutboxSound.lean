/-
  PlcnextIot.Storage.OutboxSound

  `Sound` along a run: the table is well formed, the memory agrees with it, and
  an open store knows every row.
-/

import PlcnextIot.Storage.OutboxTable

namespace PlcnextIot.Storage

open PlcnextIot.Python PlcnextIot.Contracts PlcnextIot.Config PlcnextIot.Reporting
open PlcnextIot.Core PlcnextIot.Effect PlcnextIot.Effect.Prog Relation

variable [JsonSchema] {env : OutboxEnv} {op : OutboxOp}

/-- The table is well formed, and the memory agrees with it. -/
structure Sound (env : OutboxEnv) (s : Outbox) : Prop where
  table : Table env s.db
  memory : Memory s.db s.session
  covers : s.opened = true → Covers s.db s.session

/-- A process that has not opened the file yet. -/
theorem sound_create {db : Db} (h : Table env db) (maxBytes : ℤ) (maxRecords : ℕ)
    (accounting : Option (Accounting × ℤ)) {s : Outbox} (hdb : s.db = db)
    (hsession : s.session = .create maxBytes maxRecords accounting) (hclosed : s.opened = false) :
    Sound env s := by
  refine ⟨hdb ▸ h, ?_, fun hopen => absurd hopen (by simp [hclosed])⟩
  rw [hsession]
  exact ⟨fun _ _ h => (by cases h), fun _ _ h => (by cases h)⟩

/-! ## The table -/

/-- Rows whose columns other than the state are changed. -/
theorem table_attempted {db : Db} (h : Table env db) (key : PyStr) (n : ℤ) :
    Table env (db.updateBatch key fun c => { c with attempts := n, nextDue := .int 0 }) := by
  refine h.kept (g := fun b => if b.messageId = key then
    { b with attempts := n, nextDue := .int 0 } else b) (p := fun _ => true)
    ?_ (fun b => ?_) (fun b _ hb => ?_) rfl ?_
  · rw [List.filter_true]
    rfl
  · split <;> rfl
  · split <;> exact hb
  · refine le_of_eq_of_le ?_ h.deads
    show (db.batches.map _).countP _ = _
    rw [List.countP_map]
    refine List.countP_congr fun b _ => ?_
    simp only [Function.comp_apply]
    split <;> exact Iff.rfl

omit [JsonSchema] in
/-- The keys that are `DEAD` with one more, of an entry. -/
theorem mem_deadWith {t : OutboxSession} {key k : PyStr} {e : BatchState}
    (he : t.entries.get? k = some e) (hdead : k = key ∨ e.row.state = .dead) :
    k ∈ (deadWith t key).map (·.1) := by
  refine List.mem_map.mpr ⟨(k, e), List.mem_filter.mpr ⟨Dict.get?_eq_some.mp he, ?_⟩, rfl⟩
  exact decide_eq_true hdead

omit [JsonSchema] in
theorem exceeding_length (entries : List (PyStr × BatchState)) :
    (exceeding env entries).length = entries.length - env.maxDead := by
  unfold exceeding
  rw [List.length_take, (oldestFirst_perm entries).length_eq, List.length_map]
  omega

/-- A termination keeps the number of dead rows in bounds. -/
theorem deads_terminal {db : Db} {t : OutboxSession} (htable : Table env db)
    (hmemory : Memory db t) (hcovers : Covers db t) (key reason : PyStr)
    (source : TerminalSource) :
    (db.terminal key reason (exceeding env (deadWith t key)) source).batches.countP
      (·.state = .dead) ≤ env.maxDead := by
  generalize hpruned : exceeding env (deadWith t key) = pruned
  rw [batches_terminal, List.countP_eq_length_filter]
  generalize hdead : ((db.batches.map (Batch.terminate key reason source)).filter
    (·.messageId ∉ pruned)).filter (·.state = .dead) = dead
  have hsub : dead.Sublist (db.batches.map (Batch.terminate key reason source)) := by
    rw [← hdead]
    exact List.filter_sublist.trans List.filter_sublist
  have hkeys : (db.batches.map (Batch.terminate key reason source)).map (·.messageId)
      = db.batches.map (·.messageId) := by
    rw [List.map_map]
    exact List.map_congr_left fun b _ => messageId_of_fixed (Batch.terminate_fixed _ _ _ b)
  have hnodup : (dead.map (·.messageId)).Nodup :=
    (hkeys ▸ htable.keyed : ((db.batches.map _).map _).Nodup).sublist (hsub.map _)
  have hmem : ∀ b' ∈ dead, b'.messageId ∉ pruned ∧ b'.messageId ∈ (deadWith t key).map (·.1) := by
    intro b' hb'
    rw [← hdead] at hb'
    obtain ⟨hb', hstate⟩ := List.mem_filter.mp hb'
    obtain ⟨hb', hout⟩ := List.mem_filter.mp hb'
    obtain ⟨b, hb, rfl⟩ := List.mem_map.mp hb'
    refine ⟨of_decide_eq_true hout, ?_⟩
    rw [messageId_of_fixed (Batch.terminate_fixed key reason source b)]
    obtain ⟨e, he⟩ := hcovers b hb
    refine mem_deadWith he ?_
    by_cases hk : b.messageId = key
    · exact .inl hk
    · right
      obtain ⟨b₁, hb₁, hkey, hagrees⟩ := hmemory.entries _ e he
      rw [htable.unique hb₁ hb hkey] at hagrees
      rw [hagrees.state]
      have hstate' := of_decide_eq_true hstate
      rwa [Batch.terminate, if_neg hk] at hstate'
  -- The dead rows and the pruned ones are different keys of `deadWith`.
  have hall : (dead.map (·.messageId) ++ pruned).Nodup := by
    refine List.nodup_append'.mpr ⟨hnodup, ?_, fun k hk hp => ?_⟩
    · rw [← hpruned]
      exact exceeding_nodup (nodup_filter_keys _ _)
    · obtain ⟨b, hb, rfl⟩ := List.mem_map.mp hk
      exact (hmem b hb).1 hp
  have hsubset : dead.map (·.messageId) ++ pruned ⊆ (deadWith t key).map (·.1) := by
    intro k hk
    rcases List.mem_append.mp hk with hk | hk
    · obtain ⟨b, hb, rfl⟩ := List.mem_map.mp hk
      exact (hmem b hb).2
    · rw [← hpruned] at hk
      obtain ⟨e, he⟩ := exceeding_subset hk
      exact List.mem_map.mpr ⟨(k, e), he, rfl⟩
  have hlength := (List.subperm_of_subset hall hsubset).length_le
  have hprunedLength : pruned.length = (deadWith t key).length - env.maxDead := by
    rw [← hpruned, exceeding_length]
  simp only [List.length_append, List.length_map] at hlength
  omega

theorem table_terminal {db : Db} {t : OutboxSession} (htable : Table env db)
    (hmemory : Memory db t) (hcovers : Covers db t) (key reason : PyStr)
    (source : TerminalSource) :
    Table env (db.terminal key reason (exceeding env (deadWith t key)) source) := by
  refine htable.kept (g := Batch.terminate key reason source) (batches_terminal _ _ _ _ _)
    (Batch.terminate_fixed key reason source) (fun b _ hb => ?_) (nextOrder_terminal _ _ _ _ _)
    (deads_terminal htable hmemory hcovers key reason source)
  unfold Batch.terminate
  split
  · simp
  · exact hb

theorem table_inserted {s : Outbox} {i : Insertion} (h : Sound env s) (hi : i.Admitted env op s) :
    Table env i.db := by
  have hins := hi.inserts
  obtain ⟨utc, error, hrow⟩ := hins.row
  have hcovers := h.covers hi.opened
  have hbatch : i.batch = { i.firstRow with
      enqueuedUtcMs := utc, uncertaintyMs := error, payload := i.payload } := by
    rw [Insertion.batch, hrow]
  have hroom := hi.room
  simp only [full, Bool.or_eq_false_iff, decide_eq_false_iff_not, not_le, not_lt] at hroom
  rw [values_length h.table h.memory hcovers, totalSize_eq h.table h.memory hcovers] at hroom
  have horder : i.batch.localOrder = i.order := by rw [hbatch]; rfl
  refine h.table.insert (b := i.batch) hins.batches ?_ ?_ ?_ ?_ ?_ ?_ ?_ hroom.1 ?_
  · rw [hbatch]
    exact hins.fresh
  · rw [horder, hi.order]
  · rw [horder, hins.next]
  · rw [horder]
    exact hi.inRange.2
  · rw [hbatch]
    exact ⟨rfl, hi.valid, i.stamp, hi.read⟩
  · rw [hbatch]
    rfl
  · rw [hbatch]
    rfl
  · rw [hbatch]
    exact hroom.2

theorem table_step [Footprint] {s s' : Outbox} (hstep : Commit env op s s') (h : Sound env s) :
    Table env s'.db := by
  cases hstep with
  | waited hl =>
      rw [hl.frame]
      exact h.table
  | dropped => exact h.table.filtered (p := fun _ => true) (List.filter_true _).symm rfl
  | inserted i hi => exact table_inserted h hi
  | terminated cause key reason source e hopen hkey hwhy hread =>
      exact table_terminal h.table h.memory (h.covers hopen) key reason source
  | pruned key e hopen hkey hdead => exact h.table.filtered rfl rfl
  | stored ack key e hopen hkey hsent hwaits hack => exact h.table.filtered rfl rfl
  | attempted r hr payload hpayload hbytes => exact table_attempted h.table _ _
  | accounted | staged | restaged | purged | deactivated | retried | sdkRejected | gated | closed
  | reopened | restarted | refreshed | attached | opened => exact h.table

/-! ## The memory -/

omit [JsonSchema] in
theorem Agrees.attempt {e : BatchState} {b : Batch} (h : Agrees e b) (mono : ℚ) (n : ℤ) :
    Agrees (e.sent mono n) { b with attempts := n, nextDue := .int 0 } :=
  ⟨(congrArg (fun c : BatchColumns => { c with attempts := n, nextDue := .int 0 }) h.columns :),
    h.size, h.stamp, h.source⟩

omit [JsonSchema] in
theorem Agrees.terminate {e : BatchState} {b : Batch} (h : Agrees e b) (reason : PyStr)
    (source : TerminalSource) (active : Bool) :
    Agrees { e.terminate reason source with source := some source, active := active }
      { b with state := .dead, reason := some reason, terminalSource := some source } :=
  ⟨(congrArg (fun c : BatchColumns => { c with
      state := .dead, reason := some reason, terminalSource := some source }) h.columns :),
    h.size, h.stamp, rfl⟩

omit [JsonSchema] in
/-- The entry of a row as it is read. -/
theorem Agrees.of_row {e : BatchState} {b : Batch} {stamp : PyNum} (hrow : e.row = b.row stamp)
    (hread : readBatch b.payload = .ok (b.messageId, stamp)) (hsource : e.source = b.terminalSource) :
    Agrees e b := by
  refine ⟨?_, ?_, ?_, hsource⟩
  · rw [hrow]
    rfl
  · rw [hrow]
    rfl
  · rw [hrow]
    exact hread

omit [JsonSchema] in
/-- Forgetting a key, in the file and in the memory. -/
theorem Memory.erase {db db' : Db} {t t' : OutboxSession} (h : Memory db t) {key : PyStr}
    (hrows : db'.batches = db.batches.filter (·.messageId ≠ key))
    (hentries : t'.entries = t.entries.erase key) (hstaged : t'.staged = t.staged) :
    Memory db' t' := by
  constructor
  · intro k e he
    rw [hentries, Dict.get?_erase] at he
    split at he
    · cases he
    · rename_i hk
      obtain ⟨b, hb, hkey, hagrees⟩ := h.entries k e he
      refine ⟨b, ?_, hkey, hagrees⟩
      rw [hrows]
      exact List.mem_filter.mpr ⟨hb, decide_eq_true (hkey ▸ hk)⟩
  · intro k e he
    rw [hstaged] at he
    obtain ⟨hk, hs, hb⟩ := h.staged k e he
    refine ⟨hk, hs, fun b hb' => hb b ?_⟩
    rw [hrows] at hb'
    exact (List.mem_filter.mp hb').1

omit [JsonSchema] in
theorem Covers.erase {db db' : Db} {t t' : OutboxSession} (h : Covers db t) {key : PyStr}
    (hrows : db'.batches = db.batches.filter (·.messageId ≠ key))
    (hentries : t'.entries = t.entries.erase key) : Covers db' t' := by
  intro b hb
  rw [hrows] at hb
  obtain ⟨hb, hne⟩ := List.mem_filter.mp hb
  obtain ⟨e, he⟩ := h b hb
  refine ⟨e, ?_⟩
  rw [hentries, Dict.get?_erase, if_neg (of_decide_eq_true hne), he]

omit [JsonSchema] in
/-- The entries after a termination. -/
theorem get?_terminateSession [Footprint] (t : OutboxSession) (key reason k : PyStr)
    (source : TerminalSource) (pruned : List PyStr) :
    (terminateSession key reason source pruned t).entries.get? k =
      if k ∈ pruned then none
      else if k = key then (t.entries.get? k).map fun e =>
        if e.source.isSome then e.terminate reason source
        else { e.terminate reason source with source := some source, active := false }
      else t.entries.get? k := by
  unfold terminateSession
  rw [get?_dropAll, get?_sessionTerminal, get?_update]
  by_cases hp : k ∈ pruned
  · rw [if_pos hp, if_pos hp]
  · rw [if_neg hp, if_neg hp]
    by_cases hk : k = key
    · rw [if_pos hk, if_pos hk, if_pos hk, Option.map_map]
      rfl
    · rw [if_neg hk, if_neg hk, if_neg hk]

omit [JsonSchema] in
theorem staged_terminateSession [Footprint] (t : OutboxSession) (key reason : PyStr)
    (source : TerminalSource) (pruned : List PyStr) :
    (terminateSession key reason source pruned t).staged = t.staged := by
  have hdrop : ∀ u : OutboxSession, (pruned.foldl dropOne u).staged = u.staged := by
    induction pruned with
    | nil => exact fun _ => rfl
    | cons k rest ih =>
        intro u
        rw [List.foldl_cons, ih]
        unfold dropOne
        split <;> rfl
  unfold terminateSession
  rw [hdrop]
  unfold sessionTerminal OutboxSession.update
  split <;> split <;> (try split) <;> rfl

/-- A pending entry has no source. -/
theorem source_of_pending {s : Outbox} (h : Sound env s) {k : PyStr} {e : BatchState}
    (he : s.session.entries.get? k = some e) (hpending : e.row.state = .pending) :
    e.source = none := by
  obtain ⟨b, hb, -, hagrees⟩ := h.memory.entries k e he
  have hstate : b.state = .pending := hagrees.state.symm.trans hpending
  have hsome := (h.table.sourced b hb).mt (by simp [hstate])
  rw [hagrees.source]
  simpa using hsome

theorem pending_of_terminates {key : PyStr} {e : BatchState} {reason : PyStr}
    {source : TerminalSource} {cause : Cause} (h : Terminates env op key e reason source cause) :
    e.row.state = .pending := by
  cases h with
  | expired h =>
      obtain ⟨lower, -, hexp⟩ := h.expirable
      simp only [expirable, Bool.and_eq_true, decide_eq_true_eq] at hexp
      exact hexp.1.1.1
  | rejected h => exact h.pending

theorem memory_terminated [Footprint] {s : Outbox} {key reason : PyStr} {source : TerminalSource}
    {pruned : List PyStr} {e : BatchState} (h : Sound env s)
    (hkey : s.session.entries.get? key = some e) (hpending : e.row.state = .pending) :
    Memory (s.db.terminal key reason pruned source)
      (terminateSession key reason source pruned s.session) := by
  constructor
  · intro k e' he'
    rw [get?_terminateSession] at he'
    split at he'
    · cases he'
    · rename_i hout
      -- An entry that is left was not pruned, and neither was its row.
      have hstays : ∀ b ∈ s.db.batches, b.messageId = k →
          b.terminate key reason source ∈ (s.db.terminal key reason pruned source).batches := by
        intro b hb hk
        rw [batches_terminal]
        refine List.mem_filter.mpr ⟨List.mem_map.mpr ⟨b, hb, rfl⟩, decide_eq_true ?_⟩
        rw [messageId_of_fixed (Batch.terminate_fixed key reason source b), hk]
        exact hout
      split at he'
      · rename_i hk
        rw [hk, hkey, Option.map_some, source_of_pending h hkey hpending] at he'
        cases he'
        obtain ⟨b, hb, hbk, hagrees⟩ := h.memory.entries key e hkey
        refine ⟨_, hstays b hb (hbk.trans hk.symm), ?_, ?_⟩
        · rw [messageId_of_fixed (Batch.terminate_fixed key reason source b), hbk, hk]
        · rw [Batch.terminate, if_pos hbk]
          exact hagrees.terminate reason source false
      · rename_i hk
        obtain ⟨b, hb, hbk, hagrees⟩ := h.memory.entries k e' he'
        have hsame : b.terminate key reason source = b := by
          rw [Batch.terminate, if_neg (hbk ▸ hk)]
        exact ⟨b, hsame ▸ hstays b hb hbk, hbk, hagrees⟩
  · intro k e' he'
    rw [staged_terminateSession] at he'
    obtain ⟨hk, hs, hb⟩ := h.memory.staged k e' he'
    refine ⟨hk, hs, fun b' hb' => ?_⟩
    rw [batches_terminal] at hb'
    obtain ⟨b, hmem, rfl⟩ := List.mem_map.mp (List.mem_filter.mp hb').1
    rw [messageId_of_fixed (Batch.terminate_fixed key reason source b)]
    exact hb b hmem

omit [JsonSchema] in
theorem Memory.congr {db db' : Db} {t t' : OutboxSession} (h : Memory db t)
    (hrows : db'.batches = db.batches) (hentries : t'.entries = t.entries)
    (hstaged : t'.staged = t.staged) : Memory db' t' := by
  constructor
  · rw [hentries, hrows]
    exact h.entries
  · rw [hstaged, hrows]
    exact h.staged

omit [JsonSchema] in
theorem memory_attempted {db : Db} {t : OutboxSession} (h : Memory db t) (key : PyStr) (mono : ℚ) (n : ℤ) :
    Memory (db.updateBatch key fun c => { c with attempts := n, nextDue := .int 0 })
      (t.update key (·.sent mono n)) := by
  -- Row and entry count the attempt alike.
  have hrow : ∀ b ∈ db.batches, (if b.messageId = key then
      { b with attempts := n, nextDue := .int 0 } else b) ∈ (db.updateBatch key fun c =>
        { c with attempts := n, nextDue := .int 0 }).batches :=
    fun b hb => List.mem_map.mpr ⟨b, hb, rfl⟩
  constructor
  · intro k e' he'
    rw [get?_update] at he'
    split at he'
    · rename_i hk
      obtain ⟨e, he, rfl⟩ := Option.map_eq_some_iff.mp he'
      obtain ⟨b, hb, hbk, hagrees⟩ := h.entries k e he
      have hmem := hrow b hb
      rw [if_pos (hbk.trans hk)] at hmem
      exact ⟨_, hmem, hbk, hagrees.attempt mono n⟩
    · rename_i hk
      obtain ⟨b, hb, hbk, hagrees⟩ := h.entries k e' he'
      have hmem := hrow b hb
      rw [if_neg (hbk ▸ hk)] at hmem
      exact ⟨b, hmem, hbk, hagrees⟩
  · intro k e he
    have he' : t.staged.get? k = some e := by
      rw [← he]
      unfold OutboxSession.update
      split <;> rfl
    obtain ⟨hk, hs, hb⟩ := h.staged k e he'
    refine ⟨hk, hs, fun b' hb' => ?_⟩
    obtain ⟨b, hmem, rfl⟩ := List.mem_map.mp hb'
    have hne := hb b hmem
    split <;> exact hne

theorem memory_inserted {s : Outbox} {i : Insertion} (h : Sound env s) (hi : i.Admitted env op s) :
    Memory i.db { s.session with
      staged := s.session.staged.erase i.row.messageId
      entries := s.session.entries.set i.row.messageId { i.entry with row := i.row } } := by
  have hins := hi.inserts
  obtain ⟨utc, error, hrow⟩ := hins.row
  have hid : i.row.messageId = i.key := by rw [hrow]; rfl
  -- The new row is written from the staged entry, stamped at the commit.
  have hnew : Agrees { i.entry with row := i.row } i.batch := by
    refine ⟨?_, ?_, ?_, ?_⟩
    · rw [Insertion.batch, hrow]
    · rw [Insertion.batch, hrow]
      rfl
    · rw [Insertion.batch, hrow]
      exact hi.read
    · rw [(h.memory.staged _ _ hi.staged).2.1, Insertion.batch, hrow]
      rfl
  rw [hid]
  constructor
  · intro k e he
    rw [hins.batches]
    rw [Dict.get?_set] at he
    split at he
    · rename_i hk
      cases he
      exact ⟨i.batch, List.mem_append_right _ (.head _), (hid.trans hk.symm), hnew⟩
    · obtain ⟨b, hb, hbk, hagrees⟩ := h.memory.entries k e he
      exact ⟨b, List.mem_append_left _ hb, hbk, hagrees⟩
  · intro k e he
    rw [Dict.get?_erase] at he
    split at he
    · cases he
    · rename_i hk
      obtain ⟨hek, hs, hb⟩ := h.memory.staged k e he
      refine ⟨hek, hs, fun b hb' => ?_⟩
      rw [hins.batches] at hb'
      rcases List.mem_append.mp hb' with hb' | hb'
      · exact hb b hb'
      · rw [List.mem_singleton.mp hb']
        exact fun hb' => hk (hb'.symm.trans hid)

omit [JsonSchema] in
/-- An entry that is put in for a durable row. -/
theorem memory_attached {db : Db} {t : OutboxSession} (h : Memory db t) {b : Batch} {e : BatchState}
    (hb : b ∈ db.batches) (hagrees : Agrees e b) :
    Memory db { t with
      staged := t.staged.erase b.messageId, entries := t.entries.set b.messageId e } := by
  constructor
  · intro k e' he'
    rw [Dict.get?_set] at he'
    split at he'
    · rename_i hk
      cases he'
      exact ⟨b, hb, hk.symm, hagrees⟩
    · exact h.entries k e' he'
  · intro k e' he'
    rw [Dict.get?_erase] at he'
    split at he'
    · cases he'
    · exact h.staged k e' he'

omit [JsonSchema] in
/-- An entry of the memory is changed, not its row or source. -/
theorem memory_update {db : Db} {t : OutboxSession} (h : Memory db t) (key : PyStr)
    {f : BatchState → BatchState} (hrow : ∀ e, (f e).row = e.row)
    (hsource : ∀ e, (f e).source = e.source) : Memory db (t.update key f) := by
  refine h.touch (fun k e' he' => ?_) fun k e' he' => ⟨e', ?_, rfl, rfl⟩
  · rw [get?_update] at he'
    split at he'
    · obtain ⟨e, he, rfl⟩ := Option.map_eq_some_iff.mp he'
      exact ⟨e, he, hrow e, hsource e⟩
    · exact ⟨e', he', rfl, rfl⟩
  · rw [← he']
    unfold OutboxSession.update
    split <;> rfl

theorem memory_step [Footprint] {s s' : Outbox} (hstep : Commit env op s s') (h : Sound env s) :
    Memory s'.db s'.session := by
  cases hstep with
  | waited hl =>
      rw [hl.frame]
      exact h.memory
  | inserted i hi => exact (memory_inserted h hi).congr rfl rfl rfl
  | terminated cause key reason source e hopen hkey hwhy hread =>
      exact memory_terminated h hkey (pending_of_terminates hwhy)
  | pruned key e hopen hkey hdead => exact h.memory.erase rfl rfl rfl
  | stored ack key e hopen hkey hsent hwaits hack => exact h.memory.erase rfl rfl rfl
  | attempted r hr payload hpayload hbytes =>
      exact (memory_attempted h.memory r.entry.row.messageId (env.clock s.clockReads)
        r.entry.nextAttempt).congr rfl rfl rfl
  | staged key e hopen hop hkey hnew hfree hroom =>
      refine ⟨h.memory.entries, fun k e' he' => ?_⟩
      have he' : (s.session.staged.set key e).get? k = some e' := he'
      rw [Dict.get?_set] at he'
      split at he'
      · rename_i hk
        cases he'
        refine ⟨hkey.trans hk.symm, hnew.source, fun b hb hbk => ?_⟩
        -- A durable row would have an entry.
        obtain ⟨e', he'⟩ := h.covers hopen b hb
        rw [hbk, hk] at he'
        rw [OutboxSession.known?, he'] at hfree
        cases hfree
      · exact h.memory.staged k e' he'
  | restaged fresh row =>
      refine h.memory.touch (fun k e he => ⟨e, ?_, rfl, rfl⟩) fun k e' he' => ?_
      · rw [← he]
        show _ = (restampStaged fresh row.messageId row s.session).entries.get? k
        rw [entries_restampStaged]
      · have he' : (restampStaged fresh row.messageId row s.session).staged.get? k = some e' := he'
        unfold restampStaged at he'
        split at he'
        · rename_i e he
          split at he'
          · rw [Dict.get?_set] at he'
            split at he'
            · rename_i hk
              cases he'
              rw [hk]
              exact ⟨e, he, (h.memory.staged _ _ he).1.symm, rfl⟩
            · exact ⟨e', he', rfl, rfl⟩
          · exact ⟨e', he', rfl, rfl⟩
        · exact ⟨e', he', rfl, rfl⟩
  | deactivated n hn =>
      refine h.memory.touch (fun k e' he' => ?_) fun k e' he' => ⟨e', he', rfl, rfl⟩
      have he' : (OutboxSession.mapValues _ s.session.entries).get? k = some e' := he'
      rw [get?_mapValues] at he'
      obtain ⟨e, he, rfl⟩ := Option.map_eq_some_iff.mp he'
      refine ⟨e, he, ?_, ?_⟩ <;> split <;> rfl
  | gated watermark =>
      refine h.memory.touch (fun k e' he' => ?_) fun k e' he' => ?_
      · have he' : (OutboxSession.mapValues _ s.session.entries).get? k = some e' := he'
        rw [get?_mapValues] at he'
        obtain ⟨e, he, rfl⟩ := Option.map_eq_some_iff.mp he'
        exact ⟨e, he, rfl, rfl⟩
      · have he' : (OutboxSession.mapValues _ s.session.staged).get? k = some e' := he'
        rw [get?_mapValues] at he'
        obtain ⟨e, he, rfl⟩ := Option.map_eq_some_iff.mp he'
        exact ⟨e, he, rfl, rfl⟩
  | retried key e n hn hop hkey hsent => exact memory_update h.memory key (fun _ => rfl) fun _ => rfl
  | sdkRejected key hop =>
      refine memory_update h.memory key (fun e => ?_) fun e => ?_ <;> split <;> rfl
  | restarted maxBytes maxRecords accounting hop =>
      exact ⟨fun _ _ h => (by cases h), fun _ _ h => (by cases h)⟩
  | refreshed b stamp hclosed hb hread =>
      constructor
      · intro k e' he'
        have he' : (s.session.update b.messageId _).entries.get? k = some e' := he'
        rw [get?_update] at he'
        split at he'
        · rename_i hk
          obtain ⟨e, he, rfl⟩ := Option.map_eq_some_iff.mp he'
          obtain ⟨b', hb', hbk, hagrees⟩ := h.memory.entries k e he
          rw [h.table.unique hb' hb (hbk.trans hk)] at hagrees
          exact ⟨b, hb, hk.symm, Agrees.of_row rfl hread hagrees.source⟩
        · exact h.memory.entries k e' he'
      · intro k e he
        refine h.memory.staged k e ?_
        rw [← he]
        show _ = (s.session.update b.messageId _).staged.get? k
        unfold OutboxSession.update
        split <;> rfl
  | attached b stamp e n hclosed hb hread habsent hstaged hn =>
      have he : e = { row := b.row stamp } := by
        rcases hstaged with hstaged | ⟨-, he⟩
        · exact absurd rfl ((h.memory.staged _ _ hstaged).2.2 b hb)
        · exact he
      subst he
      refine (memory_attached h.memory hb (e := BatchState.restored _ (b.row stamp) _)
        (Agrees.of_row rfl hread ?_)).congr rfl rfl rfl
      show (b.terminalSource.orElse fun _ => none) = b.terminalSource
      cases b.terminalSource <;> rfl
  | accounted | dropped | purged | closed | reopened | opened =>
      exact h.memory.congr rfl rfl rfl

/-! ## An open store -/

/-- Within a process, a row that has an entry keeps it as long as it is durable. -/
theorem covers_step [Footprint] {s s' : Outbox} (hstep : Commit env op s s')
    (hcovers : Covers s.db s.session)
    (hstays : (∀ b r a, op ≠ .restart b r a) ∨ s'.opened = true) : Covers s'.db s'.session := by
  cases hstep with
  | waited hl =>
      rw [hl.frame]
      exact hcovers
  | inserted i hi =>
      have hins := hi.inserts
      intro b hb
      show ∃ e, (s.session.entries.set i.row.messageId _).get? b.messageId = some e
      rw [Dict.get?_set]
      split
      · exact ⟨_, rfl⟩
      · rename_i hne
        have hb : b ∈ i.db.batches := hb
        rw [hins.batches] at hb
        rcases List.mem_append.mp hb with hb | hb
        · exact hcovers b hb
        · rw [List.mem_singleton.mp hb] at hne
          exact absurd rfl hne
  | terminated cause key reason source e hopen hkey hwhy hread =>
      intro b' hb'
      have hb' : b' ∈ (s.db.terminal key reason _ source).batches := hb'
      rw [batches_terminal] at hb'
      obtain ⟨hb', hout⟩ := List.mem_filter.mp hb'
      obtain ⟨b, hb, rfl⟩ := List.mem_map.mp hb'
      obtain ⟨e', he'⟩ := hcovers b hb
      have hid := messageId_of_fixed (Batch.terminate_fixed key reason source b)
      show ∃ e, (terminateSession key reason source _ s.session).entries.get? _ = some e
      -- A row that is left was not pruned, and neither was its entry.
      rw [get?_terminateSession, if_neg (of_decide_eq_true hout), hid]
      rw [he']
      split <;> exact ⟨_, rfl⟩
  | pruned key e hopen hkey hdead => exact hcovers.erase rfl rfl
  | stored ack key e hopen hkey hsent hwaits hack => exact hcovers.erase rfl rfl
  | attempted r hr payload hpayload hbytes =>
      intro b' hb'
      obtain ⟨b, hb, rfl⟩ := List.mem_map.mp hb'
      obtain ⟨e, he⟩ := hcovers b hb
      have hsome : ∃ e', (s.session.update r.entry.row.messageId
          (·.sent (env.clock s.clockReads) r.entry.nextAttempt)).entries.get? b.messageId = some e' :=
        update_some he
      dsimp only
      split <;> exact hsome
  | restaged fresh row =>
      refine hcovers.touch fun k e he => ⟨e, ?_⟩
      show (restampStaged fresh row.messageId row s.session).entries.get? k = some e
      rw [entries_restampStaged, he]
  | deactivated n hn =>
      refine hcovers.touch fun k e he => ?_
      show ∃ e', (OutboxSession.mapValues _ s.session.entries).get? k = some e'
      rw [get?_mapValues, he]
      exact ⟨_, rfl⟩
  | gated watermark =>
      refine hcovers.touch fun k e he => ?_
      show ∃ e', (OutboxSession.mapValues _ s.session.entries).get? k = some e'
      rw [get?_mapValues, he]
      exact ⟨_, rfl⟩
  | retried key e n hn hop hkey hsent => exact hcovers.touch fun k e he => update_some he
  | sdkRejected key hop => exact hcovers.touch fun k e he => update_some he
  | refreshed b stamp hclosed hb hread => exact hcovers.touch fun k e he => update_some he
  | restarted maxBytes maxRecords accounting hop =>
      -- A restart empties the memory: a store that is open is not just restarted.
      rcases hstays with hstays | hopen
      · exact absurd hop (hstays _ _ _)
      · cases hopen
  | attached b stamp e n hclosed hb hread habsent hstaged hn =>
      refine hcovers.touch fun k e' he' => ?_
      show ∃ e', (s.session.entries.set b.messageId _).get? k = some e'
      rw [Dict.get?_set]
      split
      · exact ⟨_, rfl⟩
      · exact ⟨e', he'⟩
  | accounted | staged | dropped | purged | closed | reopened | opened => exact hcovers

/-- A store opens when every row has its entry. -/
theorem covers_opened [Footprint] {s s' : Outbox} (hstep : Commit env op s s')
    (hclosed : s.opened = false) (hopen : s'.opened = true) : Covers s'.db s'.session := by
  cases hstep with
  | opened hall hdead => exact hall
  | waited hl =>
      rw [hl.frame] at hopen
      exact absurd hopen (by simp [hclosed])
  | closed => cases hopen
  | reopened => cases hopen
  | restarted => cases hopen
  | accounted | staged | restaged | dropped | inserted | terminated | pruned | stored | attempted
  | purged | deactivated | retried | sdkRejected | gated | refreshed | attached =>
      have hopen : s.opened = true := hopen
      exact absurd hopen (by simp [hclosed])

theorem sound_step [Footprint] {s s' : Outbox} (hstep : Commit env op s s') (h : Sound env s) :
    Sound env s' := by
  refine ⟨table_step hstep h, memory_step hstep h, fun hopen => ?_⟩
  cases hs : s.opened with
  | true => exact covers_step hstep (h.covers hs) (.inr hopen)
  | false => exact covers_opened hstep hs hopen

/-! ## Runs -/

section Runs

variable [Footprint]

theorem sound_path {s s' : Outbox} (hpath : Steps env op s s') (h : Sound env s) : Sound env s' :=
  path_keeps (I := Sound env) (fun _ _ hstep => sound_step hstep) hpath h

/-- Wherever an operation stops, the state is sound. -/
theorem sound_perform {s : Outbox} (h : Sound env s) (op : OutboxOp) :
    Sound env (perform (OutboxOp.exec env) s op).after :=
  sound_path (exec_goes op s).path h

theorem sound_run {s : Outbox} (h : Sound env s) (ops : List OutboxOp) :
    Sound env (runCalls (OutboxOp.exec env) s ops) := by
  induction ops generalizing s with
  | nil => exact h
  | cons op ops ih => exact ih (sound_perform h op)

/-- From the first time that a process has opened the store, every row has an entry. -/
theorem covers_run {s : Outbox} (hcovers : Covers s.db s.session) {ops : List OutboxOp}
    (hstays : ∀ op ∈ ops, ∀ b r a, op ≠ .restart b r a) :
    Covers (runCalls (OutboxOp.exec env) s ops).db (runCalls (OutboxOp.exec env) s ops).session :=
  runCalls_keeps (I := fun s => Covers s.db s.session) exec_goes
    (fun op hop _ _ hstep hc => covers_step hstep hc (.inl (hstays op hop))) hcovers

end Runs

end PlcnextIot.Storage
