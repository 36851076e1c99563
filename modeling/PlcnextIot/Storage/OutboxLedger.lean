/-
  PlcnextIot.Storage.OutboxLedger

  What the journal says about the table: where every row comes from, and why a
  row that was inserted is gone.
-/

import PlcnextIot.Contracts.Sound
import PlcnextIot.Storage.OutboxSound

namespace PlcnextIot.Storage

open PlcnextIot.Python PlcnextIot.Contracts PlcnextIot.Config PlcnextIot.Reporting
open PlcnextIot.Core PlcnextIot.Effect PlcnextIot.Effect.Prog Relation

/-! ## Changes -/

/-- The entry is one of this batch. -/
structure BatchState.Of (e : BatchState) (b : Batch) : Prop where
  messageId : e.row.messageId = b.messageId
  localOrder : e.row.localOrder = b.localOrder
  hash : e.row.hash = b.hash

theorem Agrees.of {e : BatchState} {b : Batch} (h : Agrees e b) : e.Of b :=
  ⟨h.messageId, h.localOrder, h.hash⟩

theorem BatchState.Of.fixed {e : BatchState} {a b : Batch} (h : e.Of a) (hfixed : a.fixed = b.fixed) :
    e.Of b :=
  ⟨h.messageId.trans (messageId_of_fixed hfixed), h.localOrder.trans (localOrder_of_fixed hfixed),
    h.hash.trans (hash_of_fixed hfixed)⟩

/-- The batch that a change inserts. -/
def Change.batch? : Change → Option Batch
  | .inserted b _ => some b
  | _ => none

/-- The batches that were ever inserted, in order. -/
def insertions (journal : List Change) : List Batch := journal.filterMap Change.batch?

theorem mem_insertions {journal : List Change} {b : Batch} :
    b ∈ insertions journal ↔ ∃ accepted, .inserted b accepted ∈ journal := by
  unfold insertions
  rw [List.mem_filterMap]
  constructor
  · rintro ⟨c, hc, hb⟩
    cases c with
    | inserted b' accepted =>
        cases hb
        exact ⟨accepted, hc⟩
    | _ => cases hb
  · rintro ⟨accepted, hc⟩
    exact ⟨_, hc, rfl⟩

/-- A change after which a batch is gone. -/
def Change.Removes (b : Batch) : Change → Prop
  | .stored e _ => e.Of b
  | .pruned e => e.Of b
  | .terminated _ _ _ old => ∃ e ∈ old, e.Of b
  | _ => False

theorem Change.Removes.fixed {c : Change} {a b : Batch} (h : c.Removes a) (hfixed : a.fixed = b.fixed) :
    c.Removes b := by
  cases c with
  | stored e ack => exact BatchState.Of.fixed h hfixed
  | pruned e => exact BatchState.Of.fixed h hfixed
  | terminated e source cause pruned =>
      obtain ⟨x, hx, hof⟩ := h
      exact ⟨x, hx, hof.fixed hfixed⟩
  | inserted b accepted => exact h
  | attempted r => exact h

/-! ## Rejections -/

theorem foldl_distinct_ne_nil (codes : List PyStr) {seen : List PyStr}
    (h : codes ≠ [] ∨ seen ≠ []) :
    codes.foldl (fun seen c => if c ∈ seen then seen else seen ++ [c]) seen ≠ [] := by
  induction codes generalizing seen with
  | nil => exact h.resolve_left (fun h => h rfl)
  | cons c rest ih =>
      rw [List.foldl_cons]
      refine ih (.inr ?_)
      split
      · rename_i hmem
        exact List.ne_nil_of_mem hmem
      · simp

theorem errorCodes_ne_nil {errors : List Json} {codes : List PyStr}
    (h : errorCodes errors = .ok codes) (hne : errors ≠ []) : codes ≠ [] := by
  unfold errorCodes at h
  cases hm : errors.mapM fun e => strItem e "code" with
  | error e =>
      rw [hm] at h
      cases h
  | ok texts =>
      rw [hm] at h
      cases h
      refine foldl_distinct_ne_nil texts (.inl ?_)
      cases errors with
      | nil => exact absurd rfl hne
      | cons e rest =>
          rw [List.mapM_cons] at hm
          obtain ⟨t, -, hm⟩ := bind_eq_ok hm
          obtain ⟨ts, -, hm⟩ := bind_eq_ok hm
          cases hm
          exact List.cons_ne_nil _ _

section Acks

variable [JsonSchema]

/-- A `REJECTED` acknowledgement names an error. -/
theorem rejected_codes {ack : Bytes} {gateway key : PyStr} {codes : List PyStr}
    (hvalid : validateMessage .dataAck ack gateway = .ok [])
    (hread : readAck ack = .ok (key, .rejected codes)) : codes ≠ [] := by
  obtain ⟨message, hmessage, hconf, -, -⟩ := validateMessage_valid hvalid
  unfold readAck at hread
  rw [hmessage] at hread
  obtain ⟨key', -, hread⟩ := bind_eq_ok hread
  obtain ⟨status, hstatus, hread⟩ := bind_eq_ok hread
  split at hread
  · cases hread
  rename_i hne
  obtain ⟨errors, herrors, hread⟩ := bind_eq_ok hread
  obtain ⟨codes', hcodes, hread⟩ := bind_eq_ok hread
  cases hread
  obtain ⟨j, hj, hstr⟩ := bind_eq_ok hstatus
  obtain ⟨j', hj', harr⟩ := bind_eq_ok herrors
  refine errorCodes_ne_nil hcodes fun hnil => ?_
  subst hnil
  have hstatus' := Schema.item_eq_ok.mp hj
  have herrors' := Schema.item_eq_ok.mp hj'
  cases j <;> cases hstr
  cases j' <;> cases harr
  -- By the schema, whatever is not `STORED` brings errors.
  have hunless : Protocol.errorsUnless "STORED" message = true :=
    Schema.allOf_iff.mp hconf _ (by simp)
  cases message with
  | obj members =>
      have hstatus' : members.lookup (py "status") = some (.str status) := hstatus'
      have herrors' : members.lookup (py "errors") = some (.arr []) := herrors'
      have hne' : ¬ py "STORED" = status := fun h => hne h.symm
      simp [Protocol.errorsUnless, Schema.cond, Schema.allOf, Schema.property, Schema.constStr,
        Schema.enum, Schema.required, Schema.minItems, hstatus', herrors', hne'] at hunless
  | _ => cases hstatus'

/-- An error after which a batch is not sent again. -/
def finalCode (c : PyStr) : Prop :=
  c ≠ py "UNKNOWN_CONFIG_VERSION" ∧ c ≠ py "RESOURCE_LIMIT" ∧ c ≠ py "STORAGE_ERROR"

omit [JsonSchema] in
theorem exists_finalCode {codes : List PyStr} (hne : codes ≠ []) (h : retryable codes = false) :
    ∃ c ∈ codes, finalCode c := by
  unfold retryable at h
  rw [Bool.and_eq_false_iff] at h
  rcases h with h | h
  · rw [Bool.not_eq_false'] at h
    exact absurd (List.isEmpty_iff.mp h) hne
  · obtain ⟨c, hc, hcode⟩ := List.all_eq_false.mp h
    refine ⟨c, hc, ?_⟩
    simpa [finalCode, not_or] using hcode

end Acks

/-! ## The ledger -/

section Ledger

variable [JsonSchema] {env : OutboxEnv} {op : OutboxOp} {delivered : Bytes → Prop}

/-- Why an entry became `DEAD`. -/
inductive Caused (env : OutboxEnv) (delivered : Bytes → Prop) (e : BatchState) :
    TerminalSource → Cause → Prop
  | aged {scan : Scan} {guard : ℕ} {reason : PyStr} (h : Expiry env scan guard e reason) :
      Caused env delivered e .ageExpired (.aged scan guard)
  | rejected {ack : Bytes} {codes : List PyStr} (hdelivered : delivered ack)
      (hvalid : validateMessage .dataAck ack env.gateway = .ok [])
      (hread : readAck ack = .ok (e.row.messageId, .rejected codes))
      (hfinal : ∃ c ∈ codes, finalCode c) (hsent : e.row.attempts ≠ 0) :
      Caused env delivered e .permanentReject (.rejected ack)

/-- A `STORED` acknowledgement of an entry that was attempted; a `DEAD` one is
    waiting for it when it has expired after it may have been sent. -/
structure Acknowledged (env : OutboxEnv) (delivered : Bytes → Prop) (e : BatchState) (ack : Bytes) :
    Prop where
  delivered : delivered ack
  valid : validateMessage .dataAck ack env.gateway = .ok []
  read : readAck ack = .ok (e.row.messageId, .stored)
  sent : e.row.attempts ≠ 0
  waiting : e.row.state = .pending ∨
    e.row.state = .dead ∧ e.source = some .ageExpired ∧ e.everSent = true

/-- The change is as it should be. -/
def Change.Justified (env : OutboxEnv) (delivered : Bytes → Prop) : Change → Prop
  | .inserted b _ => Genuine env b ∧ 1 ≤ b.localOrder ∧ b.localOrder < maxSafe
  | .attempted _ => True
  | .terminated e source cause old =>
    e.row.state = .pending ∧ Caused env delivered e source cause ∧
      ∀ x ∈ old, x.row.state = .dead ∨ x = e
  | .stored e ack => Acknowledged env delivered e ack
  | .pruned e => e.row.state = .dead

/-- What the journal says about the table. -/
structure Ledger (env : OutboxEnv) (delivered : Bytes → Prop) (journal : List Change) (db : Db) :
    Prop where
  justified : ∀ c ∈ journal, c.Justified env delivered
  increasing : ((insertions journal).map (·.localOrder)).Pairwise (· < ·)
  below : ∀ b ∈ insertions journal, b.localOrder < db.info.nextOrder
  origin : ∀ b ∈ db.batches, ∃ b₀ ∈ insertions journal, b₀.fixed = b.fixed
  fate : ∀ b₀ ∈ insertions journal,
    (∃ b ∈ db.batches, b.fixed = b₀.fixed) ∨ ∃ c ∈ journal, c.Removes b₀

theorem ledger_empty : Ledger env delivered [] {} := by
  refine ⟨?_, List.Pairwise.nil, ?_, ?_, ?_⟩
  all_goals exact fun _ h => absurd h List.not_mem_nil

theorem Ledger.congr {journal journal' : List Change} {db db' : Db}
    (h : Ledger env delivered journal db) (hjournal : journal' = journal)
    (hrows : db'.batches = db.batches) (hnext : db'.info.nextOrder = db.info.nextOrder) :
    Ledger env delivered journal' db' := by
  obtain ⟨h1, h2, h3, h4, h5⟩ := h
  rw [← hnext] at h3
  rw [← hrows] at h4 h5
  rw [hjournal]
  exact ⟨h1, h2, h3, h4, h5⟩

omit [JsonSchema] in
theorem insertions_note {journal : List Change} {c : Change} (h : c.batch? = none) :
    insertions (journal ++ [c]) = insertions journal := by
  simp [insertions, List.filterMap_append, h]

/-- A change that takes nothing in: rows change where they may, and the ones that
    go are those it removes. -/
theorem Ledger.note {journal : List Change} {db db' : Db} {c : Change}
    (h : Ledger env delivered journal db) (hc : c.batch? = none) (hwhy : c.Justified env delivered)
    {g : Batch → Batch} {p : Batch → Bool} (hrows : db'.batches = (db.batches.map g).filter p)
    (hfixed : ∀ b, (g b).fixed = b.fixed) (hnext : db'.info.nextOrder = db.info.nextOrder)
    (hgone : ∀ b ∈ db.batches, p (g b) = false → c.Removes b) :
    Ledger env delivered (journal ++ [c]) db' := by
  have hmem : ∀ b' ∈ db'.batches, ∃ b ∈ db.batches, g b = b' := fun b' hb' => by
    rw [hrows] at hb'
    exact List.mem_map.mp (List.mem_filter.mp hb').1
  refine ⟨?_, ?_, ?_, ?_, ?_⟩
  · intro c' hc'
    rcases List.mem_append.mp hc' with hc' | hc'
    · exact h.justified c' hc'
    · rw [List.mem_singleton.mp hc']
      exact hwhy
  · rw [insertions_note hc]
    exact h.increasing
  · rw [insertions_note hc, hnext]
    exact h.below
  · rw [insertions_note hc]
    intro b' hb'
    obtain ⟨b, hb, rfl⟩ := hmem b' hb'
    rw [hfixed]
    exact h.origin b hb
  · rw [insertions_note hc]
    intro b₀ hb₀
    rcases h.fate b₀ hb₀ with ⟨b, hb, hfix⟩ | ⟨c', hc', hremoves⟩
    · cases hp : p (g b) with
      -- The row of the batch is kept, possibly with another state.
      | true =>
          refine .inl ⟨g b, ?_, (hfixed b).trans hfix⟩
          rw [hrows]
          exact List.mem_filter.mpr ⟨List.mem_map.mpr ⟨b, hb, rfl⟩, hp⟩
      -- The row goes, and this change accounts for it.
      | false =>
          refine .inr ⟨c, List.mem_append_right _ (.head _), ?_⟩
          exact (hgone b hb hp).fixed hfix
    · exact .inr ⟨c', List.mem_append_left _ hc', hremoves⟩

/-- A change that takes a batch in. -/
theorem Ledger.insert {journal : List Change} {db db' : Db} {b : Batch} {accepted : Option ℕ}
    (h : Ledger env delivered journal db) (hgenuine : Genuine env b)
    (horder : b.localOrder = db.info.nextOrder)
    (hrange : 1 ≤ b.localOrder ∧ b.localOrder < maxSafe)
    (hrows : db'.batches = db.batches ++ [b]) (hnext : db'.info.nextOrder = b.localOrder + 1) :
    Ledger env delivered (journal ++ [.inserted b accepted]) db' := by
  have hins : insertions (journal ++ [.inserted b accepted]) = insertions journal ++ [b] := by
    simp [insertions, List.filterMap_append, Change.batch?]
  refine ⟨?_, ?_, ?_, ?_, ?_⟩
  · intro c hc
    rcases List.mem_append.mp hc with hc | hc
    · exact h.justified c hc
    · rw [List.mem_singleton.mp hc]
      exact ⟨hgenuine, hrange⟩
  · rw [hins, List.map_append, List.pairwise_append]
    -- All orders so far are below `nextOrder`, which the new row takes.
    refine ⟨h.increasing, List.pairwise_singleton _ _, fun m hm n hn => ?_⟩
    obtain ⟨a, ha, rfl⟩ := List.mem_map.mp hm
    rw [List.map_singleton, List.mem_singleton] at hn
    rw [hn, horder]
    exact h.below a ha
  · rw [hins]
    intro a ha
    rcases List.mem_append.mp ha with ha | ha
    · have := h.below a ha
      omega
    · rw [List.mem_singleton.mp ha]
      omega
  · rw [hins, hrows]
    intro a ha
    rcases List.mem_append.mp ha with ha | ha
    · obtain ⟨b₀, hb₀, hfix⟩ := h.origin a ha
      exact ⟨b₀, List.mem_append_left _ hb₀, hfix⟩
    · exact ⟨a, List.mem_append_right _ ha, rfl⟩
  · rw [hins, hrows]
    intro a ha
    rcases List.mem_append.mp ha with ha | ha
    · rcases h.fate a ha with ⟨b', hb', hfix⟩ | ⟨c, hc, hremoves⟩
      · exact .inl ⟨b', List.mem_append_left _ hb', hfix⟩
      · exact .inr ⟨c, List.mem_append_left _ hc, hremoves⟩
    · exact .inl ⟨a, List.mem_append_right _ ha, rfl⟩

/-! ## Steps -/

omit [JsonSchema] in
theorem listed_eq {t : OutboxSession} {keys : List PyStr} {x : BatchState} :
    x ∈ t.listed keys ↔ ∃ k ∈ keys, t.entries.get? k = some x := by
  unfold OutboxSession.listed
  rw [List.mem_filterMap]

/-- The row of an entry is the entry's. -/
theorem of_unique {db : Db} {t : OutboxSession} (htable : Table env db) (hmemory : Memory db t)
    {k : PyStr} {e : BatchState} {b : Batch} (he : t.entries.get? k = some e) (hb : b ∈ db.batches)
    (hk : b.messageId = k) : Agrees e b := by
  obtain ⟨b', hb', hk', hagrees⟩ := hmemory.entries k e he
  rwa [htable.unique hb' hb (hk'.trans hk.symm)] at hagrees

theorem ledger_attempted [Footprint] {s : Outbox} {r : Reservation}
    (hl : Ledger env delivered s.journal s.db) (mono : ℚ) (size : ℕ) :
    Ledger env delivered (s.attempted mono size r).journal (s.attempted mono size r).db := by
  refine hl.note (c := .attempted r) rfl trivial (g := fun b =>
    if b.messageId = r.entry.row.messageId then
      { b with attempts := r.entry.nextAttempt, nextDue := .int 0 } else b) (p := fun _ => true)
    (List.filter_true _).symm (fun b => ?_) rfl fun b _ h => by cases h
  split <;> rfl

/-- A key is deleted, of an entry that the change removes. -/
theorem ledger_deleted {s : Outbox} (h : Sound env s) (hl : Ledger env delivered s.journal s.db)
    {key : PyStr} {e : BatchState} (hkey : s.session.entries.get? key = some e) {c : Change} {db : Db}
    (hc : c.batch? = none) (hwhy : c.Justified env delivered)
    (hremoves : ∀ b, e.Of b → c.Removes b)
    (hrows : db.batches = s.db.batches.filter (·.messageId ≠ key))
    (hnext : db.info.nextOrder = s.db.info.nextOrder) :
    Ledger env delivered (s.journal ++ [c]) db := by
  refine hl.note hc hwhy (g := id) (p := fun b => b.messageId ≠ key) ?_ (fun _ => rfl) hnext
    fun b hb hp => hremoves b ?_
  · rw [List.map_id]
    exact hrows
  · have hk : b.messageId = key := not_not.mp (of_decide_eq_false hp)
    exact (of_unique h.table h.memory hkey hb hk).of

theorem ledger_terminated [Footprint] {s : Outbox} (h : Sound env s) (hopen : s.opened = true)
    (hl : Ledger env delivered s.journal s.db) {cause : Cause} {key reason : PyStr}
    {source : TerminalSource} {e : BatchState} (hkey : s.session.entries.get? key = some e)
    (hpending : e.row.state = .pending) (hcaused : Caused env delivered e source cause) :
    Ledger env delivered
      (s.terminated cause key reason source (exceeding env (deadWith s.session key)) e).journal
      (s.terminated cause key reason source (exceeding env (deadWith s.session key)) e).db := by
  generalize hpruned : exceeding env (deadWith s.session key) = keys
  refine hl.note (c := .terminated e source cause (s.session.listed keys)) rfl
    ⟨hpending, hcaused, fun x hx => ?_⟩ (batches_terminal s.db key reason keys source)
    (Batch.terminate_fixed key reason source) (nextOrder_terminal _ _ _ _ _) fun b hb hp => ?_
  · obtain ⟨k, hk, hx⟩ := listed_eq.mp hx
    rw [← hpruned] at hk
    obtain ⟨x', hx'⟩ := exceeding_subset hk
    obtain ⟨hitem, hdead⟩ := List.mem_filter.mp hx'
    rw [Dict.get?_eq_some.mpr hitem] at hx
    cases hx
    rcases of_decide_eq_true hdead with rfl | hdead
    · rw [Dict.get?_eq_some.mpr hitem] at hkey
      cases hkey
      exact .inr rfl
    · exact .inl hdead
  · have hin := not_not.mp (of_decide_eq_false hp)
    rw [messageId_of_fixed (Batch.terminate_fixed key reason source b)] at hin
    obtain ⟨x, hx⟩ := h.covers hopen b hb
    exact ⟨x, listed_eq.mpr ⟨_, hin, hx⟩, (of_unique h.table h.memory hx hb rfl).of⟩

/-- An entry is kept under its own key. -/
theorem messageId_of_entry {s : Outbox} (h : Sound env s) {key : PyStr} {e : BatchState}
    (hkey : s.session.entries.get? key = some e) : e.row.messageId = key := by
  obtain ⟨b, -, hb, hagrees⟩ := h.memory.entries key e hkey
  exact hagrees.messageId.trans hb

theorem caused_of_terminates {s : Outbox} (h : Sound env s) {key reason : PyStr} {e : BatchState}
    {source : TerminalSource} {cause : Cause} (hkey : s.session.entries.get? key = some e)
    (hdelivered : ∀ ack, op = .acknowledge ack → delivered ack)
    (hwhy : Terminates env op key e reason source cause) : Caused env delivered e source cause := by
  cases hwhy with
  | expired hexpiry => exact .aged hexpiry
  | rejected hreject =>
      obtain ⟨codes, ⟨hop, hvalid, hread⟩, hfinal, -⟩ := hreject.delivered
      rw [← messageId_of_entry h hkey] at hread
      have hcodes := exists_finalCode (rejected_codes hvalid hread) hfinal
      exact .rejected (hdelivered _ hop) hvalid hread hcodes hreject.sent

theorem acknowledged_of_delivers {s : Outbox} (h : Sound env s) {key : PyStr} {e : BatchState}
    {ack : Bytes} (hkey : s.session.entries.get? key = some e)
    (hdelivered : ∀ ack, op = .acknowledge ack → delivered ack) (hsent : e.row.attempts ≠ 0)
    (hwaits : e.settled = false) (hack : Delivers env op ack key .stored) :
    Acknowledged env delivered e ack := by
  obtain ⟨hop, hvalid, hread⟩ := hack
  rw [← messageId_of_entry h hkey] at hread
  refine ⟨hdelivered _ hop, hvalid, hread, hsent, ?_⟩
  cases hs : e.row.state with
  | pending => exact .inl rfl
  | dead =>
      simp only [BatchState.settled, hs, decide_true, Bool.true_and, Bool.or_eq_false_iff,
        decide_eq_false_iff_not, not_not, Bool.not_eq_false'] at hwaits
      exact .inr ⟨rfl, hwaits⟩

/-- The journal goes along with the table. -/
theorem ledger_step [Footprint] {s s' : Outbox} (hstep : Commit env op s s') (h : Sound env s)
    (hdelivered : ∀ ack, op = .acknowledge ack → delivered ack)
    (hl : Ledger env delivered s.journal s.db) : Ledger env delivered s'.journal s'.db := by
  cases hstep with
  | waited hlater =>
      rw [hlater.frame]
      exact hl
  | inserted i hi =>
      have hins := hi.inserts
      obtain ⟨utc, error, hrow⟩ := hins.row
      have hbatch : i.batch = { i.firstRow with
          enqueuedUtcMs := utc, uncertaintyMs := error, payload := i.payload } := by
        rw [Insertion.batch, hrow]
      have horder : i.batch.localOrder = i.order := by rw [hbatch]; rfl
      refine hl.insert (b := i.batch) ?_ (horder.trans hi.order) ?_ hins.batches ?_
      · rw [hbatch]
        exact ⟨rfl, hi.valid, i.stamp, hi.read⟩
      · rw [horder]
        exact hi.inRange
      · rw [horder]
        exact hins.next
  | terminated cause key reason source e hopen hkey hwhy hread =>
      exact ledger_terminated h hopen hl hkey (pending_of_terminates hwhy)
        (caused_of_terminates h hkey hdelivered hwhy)
  | pruned key e hopen hkey hdead =>
      exact ledger_deleted h hl hkey rfl hdead (fun _ h => h) rfl rfl
  | stored ack key e hopen hkey hsent hwaits hack =>
      exact ledger_deleted h hl hkey rfl
        (acknowledged_of_delivers h hkey hdelivered hsent hwaits hack) (fun _ h => h) rfl rfl
  | attempted r hr payload hpayload hbytes =>
      exact ledger_attempted hl (env.clock s.clockReads) payload.length
  | dropped => exact hl.congr rfl rfl rfl
  | accounted | staged | restaged | purged | deactivated | retried | sdkRejected | gated | closed
  | reopened | restarted | refreshed | attached | opened => exact hl

/-! ## Runs -/

section Runs

variable [Footprint]

theorem ledger_run {s : Outbox} (h : Sound env s) (hl : Ledger env delivered s.journal s.db)
    {ops : List OutboxOp} (hdelivered : ∀ ack, .acknowledge ack ∈ ops → delivered ack) :
    Ledger env delivered (runCalls (OutboxOp.exec env) s ops).journal
      (runCalls (OutboxOp.exec env) s ops).db := by
  refine (runCalls_keeps (I := fun s => Sound env s ∧ Ledger env delivered s.journal s.db)
    exec_goes (fun op hop a b hstep hab => ?_) ⟨h, hl⟩).2
  refine ⟨sound_step hstep hab.1, ledger_step hstep hab.1 (fun ack hack => ?_) hab.2⟩
  exact hdelivered ack (hack ▸ hop)

end Runs

end Ledger

/-- The state before the file is created. -/
def Outbox.fresh (maxBytes : ℤ) (maxRecords : ℕ) (accounting : Option (Accounting × ℤ)) : Outbox :=
  { session := .create maxBytes maxRecords accounting }

theorem sound_fresh [JsonSchema] (env : OutboxEnv) (maxBytes : ℤ) (maxRecords : ℕ)
    (accounting : Option (Accounting × ℤ)) : Sound env (.fresh maxBytes maxRecords accounting) :=
  sound_create (table_empty env) maxBytes maxRecords accounting rfl rfl rfl

/-! ## A small store -/

/-- The bytes of a batch with one value. -/
def scriptedValue (messageId : PyStr) (value : ℤ) : Bytes :=
  (utf8Encode (dumps (.obj [
    (py "schemaVersion", .int 1), (py "gatewayId", .str (py "g")), (py "timestamp", .int 1000),
    (py "messageId", .str messageId), (py "bootId", .str (py "b")), (py "sequence", .int 1),
    (py "configVersion", .int 1),
    (py "values", .arr [.obj [(py "deviceId", .str (py "d")), (py "pointId", .str (py "p")),
      (py "value", .int value), (py "quality", .str (py "GOOD")),
      (py "timestamp", .int 1000)]])]))).getD []

def scriptedBatch (messageId : PyStr) : Bytes := scriptedValue messageId 1

/-- The receiver answers for a batch. -/
def scriptedAnswer (messageId status : PyStr) (errors : List Json) : Bytes :=
  (utf8Encode (dumps (.obj [
    (py "schemaVersion", .int 1), (py "gatewayId", .str (py "g")), (py "timestamp", .int 1000),
    (py "messageId", .str messageId), (py "status", .str status), (py "errors", .arr errors)]))).getD []

/-- The receiver has stored a batch. -/
def scriptedAck (messageId : PyStr) : Bytes := scriptedAnswer messageId (py "STORED") []

/-- A small store of gateway `g`, whose transactions all commit. -/
def OutboxEnv.scripted (maxBatches : ℕ) (pos : 0 < maxBatches) (provider : Option TimeProvider)
    (clock : ℕ → ℚ) : OutboxEnv where
  gateway := py "g"
  maxBatches := maxBatches
  maxBytes := 4096
  maxDead := 1
  maxBatches_pos := pos
  maxBytes_pos := by decide
  maxDead_pos := Nat.one_pos
  provider := provider
  clock := clock
  starts _ := true
  commits _ := true
  sizes := ⟨1000, 16, fun _ => 28, 24, fun s => 49 + s.length⟩

/-- A store without a time provider, read four times a second. -/
def untimed : OutboxEnv := .scripted 2 Nat.two_pos none fun n => 250 * n

/-- An accounting that forgets nothing. -/
@[reducible] def Footprint.ample : Footprint := ⟨fun _ => 0, fun _ => false, fun _ => false⟩

/-- A batch is enqueued, and may then be sent. -/
def enqueueOne : List OutboxOp := [.enqueue (scriptedBatch (py "m")) none {} none]

end PlcnextIot.Storage
