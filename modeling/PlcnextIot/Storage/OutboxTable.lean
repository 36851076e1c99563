/-
  PlcnextIot.Storage.OutboxTable

  The file and the memory of an Outbox agree.

  `Table` is what holds of the durable rows by themselves: distinct keys,
  increasing orders below the next one, genuine payloads, and the quotas.
  `Memory` says that every entry is that of a durable row, and `Covers` that
  every durable row has one, as it does while the store is open.  `sound_step`
  keeps the three of them through every step.
-/

import PlcnextIot.Storage.OutboxSteps
import Mathlib.Algebra.BigOperators.Group.List.Basic
import Mathlib.Algebra.Order.BigOperators.Group.List

namespace PlcnextIot.Storage

open PlcnextIot.Python PlcnextIot.Contracts PlcnextIot.Config PlcnextIot.Reporting
open PlcnextIot.Core PlcnextIot.Effect PlcnextIot.Effect.Prog Relation

/-! ## Rows -/

/-- What never changes of a batch. -/
def Batch.fixed (b : Batch) : Batch :=
  { b with attempts := 0, nextDue := .int 0, state := .pending, reason := none, terminalSource := none }

section Fixed

variable {a b : Batch}

theorem messageId_of_fixed (h : a.fixed = b.fixed) : a.messageId = b.messageId :=
  (congrArg (fun c : Batch => c.messageId) h :)

theorem payload_of_fixed (h : a.fixed = b.fixed) : a.payload = b.payload :=
  (congrArg (fun c : Batch => c.payload) h :)

theorem hash_of_fixed (h : a.fixed = b.fixed) : a.hash = b.hash :=
  (congrArg (fun c : Batch => c.hash) h :)

theorem localOrder_of_fixed (h : a.fixed = b.fixed) : a.localOrder = b.localOrder :=
  (congrArg (fun c : Batch => c.localOrder) h :)

end Fixed

/-- The row of an entry is that of a batch. -/
structure Agrees (e : BatchState) (b : Batch) : Prop where
  columns : { e.row.toBatchColumns with created := b.created, nextDue := b.nextDue }
    = b.toBatchColumns
  size : e.row.size = b.payload.length
  stamp : readBatch b.payload = .ok (b.messageId, e.row.wireTimestamp)
  source : e.source = b.terminalSource

namespace Agrees

variable {e e' : BatchState} {b : Batch}

theorem messageId (h : Agrees e b) : e.row.messageId = b.messageId :=
  (congrArg (fun c : BatchColumns => c.messageId) h.columns :)

theorem hash (h : Agrees e b) : e.row.hash = b.hash :=
  (congrArg (fun c : BatchColumns => c.hash) h.columns :)

theorem attempts (h : Agrees e b) : e.row.attempts = b.attempts :=
  (congrArg (fun c : BatchColumns => c.attempts) h.columns :)

theorem state (h : Agrees e b) : e.row.state = b.state :=
  (congrArg (fun c : BatchColumns => c.state) h.columns :)

theorem localOrder (h : Agrees e b) : e.row.localOrder = b.localOrder :=
  (congrArg (fun c : BatchColumns => c.localOrder) h.columns :)

theorem terminalSource (h : Agrees e b) : e.row.terminalSource = b.terminalSource :=
  (congrArg (fun c : BatchColumns => c.terminalSource) h.columns :)

theorem timeTrust (h : Agrees e b) : e.row.timeTrust = b.timeTrust :=
  (congrArg (fun c : BatchColumns => c.timeTrust) h.columns :)

theorem timeBasisRef (h : Agrees e b) : e.row.timeBasisRef = b.timeBasisRef :=
  (congrArg (fun c : BatchColumns => c.timeBasisRef) h.columns :)

theorem enqueuedUtcMs (h : Agrees e b) : e.row.enqueuedUtcMs = b.enqueuedUtcMs :=
  (congrArg (fun c : BatchColumns => c.enqueuedUtcMs) h.columns :)

theorem uncertaintyMs (h : Agrees e b) : e.row.uncertaintyMs = b.uncertaintyMs :=
  (congrArg (fun c : BatchColumns => c.uncertaintyMs) h.columns :)

/-- Only the row and the source of the entry matter. -/
theorem of_eq (h : Agrees e b) (hrow : e'.row = e.row) (hsource : e'.source = e.source) :
    Agrees e' b := by
  refine ⟨?_, ?_, ?_, ?_⟩
  · rw [hrow]
    exact h.columns
  · rw [hrow]
    exact h.size
  · rw [hrow]
    exact h.stamp
  · rw [hsource]
    exact h.source

end Agrees

/-- The payload of a batch is what its columns say. -/
structure Genuine [JsonSchema] (env : OutboxEnv) (b : Batch) : Prop where
  hash : digest b.payload = b.hash
  valid : validData env b.payload = .ok true
  read : ∃ stamp, readBatch b.payload = .ok (b.messageId, stamp)

theorem Genuine.of_fixed [JsonSchema] {env : OutboxEnv} {a b : Batch} (h : Genuine env a)
    (hfixed : b.fixed = a.fixed) : Genuine env b := by
  obtain ⟨hhash, hvalid, hread⟩ := h
  rw [← payload_of_fixed hfixed] at hhash hvalid hread
  rw [← hash_of_fixed hfixed] at hhash
  rw [← messageId_of_fixed hfixed] at hread
  exact ⟨hhash, hvalid, hread⟩

/-! ## Statements -/

theorem batches_deleteBatches (db : Db) (keys : List PyStr) :
    (db.deleteBatches keys).batches = db.batches.filter (·.messageId ∉ keys) := by
  unfold Db.deleteBatches
  induction keys generalizing db with
  | nil => simp
  | cons k rest ih =>
      rw [List.foldl_cons, ih, Db.deleteBatch, List.filter_filter]
      refine List.filter_congr fun b _ => ?_
      by_cases hk : b.messageId = k <;> simp [hk]

theorem info_deleteBatches (db : Db) (keys : List PyStr) : (db.deleteBatches keys).info = db.info := by
  unfold Db.deleteBatches
  induction keys generalizing db with
  | nil => rfl
  | cons k rest ih => rw [List.foldl_cons, ih, Db.deleteBatch]

/-- The row of a terminated batch. -/
def Batch.terminate (key reason : PyStr) (source : TerminalSource) (b : Batch) : Batch :=
  if b.messageId = key then
    { b with state := .dead, reason := some reason, terminalSource := some source }
  else b

theorem batches_terminal (db : Db) (key reason : PyStr) (pruned : List PyStr)
    (source : TerminalSource) :
    (db.terminal key reason pruned source).batches =
      (db.batches.map (Batch.terminate key reason source)).filter (·.messageId ∉ pruned) := by
  unfold Db.terminal
  dsimp only
  split <;>
  · simp only [Db.countPruned, batches_deleteBatches]
    rfl

theorem nextOrder_terminal (db : Db) (key reason : PyStr) (pruned : List PyStr)
    (source : TerminalSource) :
    (db.terminal key reason pruned source).info.nextOrder = db.info.nextOrder := by
  unfold Db.terminal
  dsimp only
  split <;>
  · simp only [Db.countPruned, info_deleteBatches]
    rfl

theorem Batch.terminate_fixed (key reason : PyStr) (source : TerminalSource) (b : Batch) :
    (b.terminate key reason source).fixed = b.fixed := by
  unfold Batch.terminate
  split <;> rfl

/-! ## The table -/

section Table

variable [JsonSchema] {env : OutboxEnv} {op : OutboxOp}

/-- What holds of the durable rows. -/
structure Table (env : OutboxEnv) (db : Db) : Prop where
  keyed : (db.batches.map (·.messageId)).Nodup
  orders : ∀ b ∈ db.batches, 1 ≤ b.localOrder ∧ b.localOrder < db.info.nextOrder
  next : 1 ≤ db.info.nextOrder ∧ db.info.nextOrder ≤ maxSafe
  genuine : ∀ b ∈ db.batches, Genuine env b
  sourced : ∀ b ∈ db.batches, b.terminalSource.isSome = true → b.state = .dead
  count : db.batches.length ≤ env.maxBatches
  bytes : (db.batches.map (·.payload.length)).sum ≤ env.maxBytes
  deads : db.batches.countP (·.state = .dead) ≤ env.maxDead

theorem table_empty (env : OutboxEnv) : Table env {} := by
  refine ⟨List.nodup_nil, ?_, by decide, ?_, ?_, Nat.zero_le _, Nat.zero_le _, Nat.zero_le _⟩
  all_goals exact fun b hb => absurd hb List.not_mem_nil

/-- A key has one row. -/
theorem Table.unique {db : Db} (h : Table env db) {a b : Batch} (ha : a ∈ db.batches)
    (hb : b ∈ db.batches) (hkey : a.messageId = b.messageId) : a = b :=
  List.inj_on_of_nodup_map h.keyed ha hb hkey

/-- Statements that change rows where they may change, and delete some. -/
theorem Table.kept {db db' : Db} (h : Table env db) {g : Batch → Batch} {p : Batch → Bool}
    (hrows : db'.batches = (db.batches.map g).filter p) (hfixed : ∀ b, (g b).fixed = b.fixed)
    (hsourced : ∀ b ∈ db.batches, (b.terminalSource.isSome = true → b.state = .dead) →
      (g b).terminalSource.isSome = true → (g b).state = .dead)
    (hnext : db'.info.nextOrder = db.info.nextOrder)
    (hdeads : db'.batches.countP (·.state = .dead) ≤ env.maxDead) : Table env db' := by
  have hmem : ∀ b' ∈ db'.batches, ∃ b ∈ db.batches, g b = b' := fun b' hb' => by
    rw [hrows] at hb'
    exact List.mem_map.mp (List.mem_filter.mp hb').1
  -- Fewer rows, each with its id, order and payload.
  have hsub : db'.batches.Sublist (db.batches.map g) := by
    rw [hrows]
    exact List.filter_sublist
  refine ⟨?_, ?_, ?_, ?_, ?_, ?_, ?_, hdeads⟩
  · have hkeys : (db.batches.map g).map (·.messageId) = db.batches.map (·.messageId) := by
      rw [List.map_map]
      exact List.map_congr_left fun b _ => messageId_of_fixed (hfixed b)
    exact (hkeys ▸ h.keyed : ((db.batches.map g).map (·.messageId)).Nodup).sublist (hsub.map _)
  · intro b' hb'
    obtain ⟨b, hb, rfl⟩ := hmem b' hb'
    rw [localOrder_of_fixed (hfixed b), hnext]
    exact h.orders b hb
  · rw [hnext]
    exact h.next
  · intro b' hb'
    obtain ⟨b, hb, rfl⟩ := hmem b' hb'
    exact (h.genuine b hb).of_fixed (hfixed b)
  · intro b' hb'
    obtain ⟨b, hb, rfl⟩ := hmem b' hb'
    exact hsourced b hb (h.sourced b hb)
  · refine hsub.length_le.trans ?_
    rw [List.length_map]
    exact h.count
  · have hbytes : (db.batches.map g).map (·.payload.length) = db.batches.map (·.payload.length) := by
      rw [List.map_map]
      exact List.map_congr_left fun b _ => congrArg List.length (payload_of_fixed (hfixed b))
    exact (((hsub.map _).sum_le_sum fun _ _ => Nat.zero_le _).trans_eq (by rw [hbytes])).trans h.bytes

/-- Deleting rows. -/
theorem Table.filtered {db db' : Db} (h : Table env db) {p : Batch → Bool}
    (hrows : db'.batches = db.batches.filter p) (hnext : db'.info.nextOrder = db.info.nextOrder) :
    Table env db' := by
  refine h.kept (g := id) (p := p) ?_ (fun _ => rfl) (fun _ _ h => h) hnext ?_
  · rw [List.map_id, hrows]
  · rw [hrows]
    exact (List.filter_sublist.countP_le).trans h.deads

/-- One more row, which is pending. -/
theorem Table.insert {db db' : Db} (h : Table env db) {b : Batch}
    (hrows : db'.batches = db.batches ++ [b]) (hkey : ∀ a ∈ db.batches, a.messageId ≠ b.messageId)
    (horder : b.localOrder = db.info.nextOrder) (hnext : db'.info.nextOrder = b.localOrder + 1)
    (hrange : b.localOrder < maxSafe) (hgenuine : Genuine env b) (hpending : b.state = .pending)
    (hsource : b.terminalSource = none) (hcount : db.batches.length < env.maxBatches)
    (hbytes : (db.batches.map (·.payload.length)).sum + b.payload.length ≤ env.maxBytes) :
    Table env db' := by
  have hmem : ∀ a, a ∈ db'.batches ↔ a ∈ db.batches ∨ a = b := by
    simp [hrows]
  have hnext' : db'.info.nextOrder = db.info.nextOrder + 1 := by rw [hnext, horder]
  refine ⟨?_, ?_, ?_, ?_, ?_, ?_, ?_, ?_⟩
  · rw [hrows, List.map_append, List.map_singleton, ← List.concat_eq_append]
    -- No row has the id yet.
    refine h.keyed.concat fun hin => ?_
    obtain ⟨a, ha, hak⟩ := List.mem_map.mp hin
    exact hkey a ha hak
  · intro a ha
    rw [hnext']
    rcases (hmem a).mp ha with ha | rfl
    · have := h.orders a ha
      omega
    · have := h.next
      omega
  · have := h.next
    omega
  · intro a ha
    rcases (hmem a).mp ha with ha | rfl
    · exact h.genuine a ha
    · exact hgenuine
  · intro a ha
    rcases (hmem a).mp ha with ha | rfl
    · exact h.sourced a ha
    · simp [hsource]
  · rw [hrows, List.length_append, List.length_singleton]
    exact hcount
  · rw [hrows, List.map_append, List.sum_append, List.map_singleton, List.sum_singleton]
    exact hbytes
  · rw [hrows, List.countP_append]
    simpa [hpending] using h.deads

end Table

/-! ## The memory -/

/-- Every entry is that of a durable row; what is staged is not durable. -/
structure Memory (db : Db) (t : OutboxSession) : Prop where
  entries : ∀ k e, t.entries.get? k = some e → ∃ b ∈ db.batches, b.messageId = k ∧ Agrees e b
  staged : ∀ k e, t.staged.get? k = some e →
    e.row.messageId = k ∧ e.source = none ∧ ∀ b ∈ db.batches, b.messageId ≠ k

/-- Every durable row has an entry. -/
def Covers (db : Db) (t : OutboxSession) : Prop :=
  ∀ b ∈ db.batches, ∃ e, t.entries.get? b.messageId = some e

/-- What the file is told agrees with the memory stays so, when rows and sources
    of the memory stay. -/
theorem Memory.touch {db : Db} {t t' : OutboxSession} (h : Memory db t)
    (hentries : ∀ k e', t'.entries.get? k = some e' →
      ∃ e, t.entries.get? k = some e ∧ e'.row = e.row ∧ e'.source = e.source)
    (hstaged : ∀ k e', t'.staged.get? k = some e' →
      ∃ e, t.staged.get? k = some e ∧ e'.row.messageId = e.row.messageId ∧ e'.source = e.source) :
    Memory db t' := by
  constructor
  · intro k e' he'
    obtain ⟨e, he, hrow, hsource⟩ := hentries k e' he'
    obtain ⟨b, hb, hk, hagrees⟩ := h.entries k e he
    exact ⟨b, hb, hk, hagrees.of_eq hrow hsource⟩
  · intro k e' he'
    obtain ⟨e, he, hkey, hsource⟩ := hstaged k e' he'
    obtain ⟨hk, hs, hb⟩ := h.staged k e he
    exact ⟨hkey.trans hk, hsource.trans hs, hb⟩

theorem Covers.touch {db : Db} {t t' : OutboxSession} (h : Covers db t)
    (hentries : ∀ k e, t.entries.get? k = some e → ∃ e', t'.entries.get? k = some e') :
    Covers db t' := fun b hb =>
  have ⟨e, he⟩ := h b hb
  hentries _ e he

theorem get?_mapValues (f : BatchState → BatchState) (d : Dict PyStr BatchState) (k : PyStr) :
    (OutboxSession.mapValues f d).get? k = (d.get? k).map f := by
  apply Option.ext
  intro v
  rw [Dict.get?_eq_some, Option.map_eq_some_iff]
  simp only [Dict.get?_eq_some, OutboxSession.mapValues, List.mem_map, Prod.mk.injEq]
  constructor
  · rintro ⟨⟨k', e⟩, hmem, rfl, rfl⟩
    exact ⟨e, hmem, rfl⟩
  · rintro ⟨e, hmem, rfl⟩
    exact ⟨(k, e), hmem, rfl, rfl⟩

section Covered

variable [JsonSchema] {env : OutboxEnv} {db : Db} {t : OutboxSession}

/-- The keys of the entries are those of the rows. -/
theorem keys_perm (htable : Table env db) (hmemory : Memory db t) (hcovers : Covers db t) :
    t.entries.keys.Perm (db.batches.map (·.messageId)) := by
  refine (List.perm_ext_iff_of_nodup t.entries.nodup htable.keyed).mpr fun k => ?_
  constructor
  · intro hk
    obtain ⟨⟨k', e⟩, hmem, rfl⟩ := List.mem_map.mp hk
    obtain ⟨b, hb, hkey, -⟩ := hmemory.entries k' e (Dict.get?_eq_some.mpr hmem)
    exact List.mem_map.mpr ⟨b, hb, hkey⟩
  · intro hk
    obtain ⟨b, hb, rfl⟩ := List.mem_map.mp hk
    obtain ⟨e, he⟩ := hcovers b hb
    exact List.mem_map.mpr ⟨(b.messageId, e), Dict.get?_eq_some.mp he, rfl⟩

/-- What the entries and the rows have in common comes in the same numbers. -/
theorem values_perm {α : Type} {m : BatchState → α} {m' : Batch → α} (htable : Table env db)
    (hmemory : Memory db t) (hcovers : Covers db t) (h : ∀ e b, Agrees e b → m e = m' b) :
    (t.entries.values.map m).Perm (db.batches.map m') := by
  have hfind : ∀ b ∈ db.batches, db.batch? b.messageId = some b := fun b hb => by
    cases hf : db.batch? b.messageId with
    | none => exact absurd (List.find?_eq_none.mp hf b hb) (by simp)
    | some b' =>
        have hkey : b'.messageId = b.messageId := by simpa using List.find?_some hf
        rw [htable.unique (List.mem_of_find?_eq_some hf) hb hkey]
  rw [← List.map_perm_map_iff (Option.some_injective α)]
  have hentries : (t.entries.values.map m).map some
      = t.entries.keys.map fun k => (db.batch? k).map m' := by
    simp only [Dict.values, Dict.keys, List.map_map]
    refine List.map_congr_left fun kv hkv => ?_
    obtain ⟨b, hb, hkey, hagrees⟩ := hmemory.entries kv.1 kv.2 (Dict.get?_eq_some.mpr hkv)
    simp only [Function.comp_apply]
    rw [← hkey, hfind b hb, h _ b hagrees]
    rfl
  have hrows : (db.batches.map m').map some
      = (db.batches.map (·.messageId)).map fun k => (db.batch? k).map m' := by
    simp only [List.map_map]
    refine List.map_congr_left fun b hb => ?_
    simp only [Function.comp_apply]
    rw [hfind b hb]
    rfl
  rw [hentries, hrows]
  exact (keys_perm htable hmemory hcovers).map _

theorem values_length (htable : Table env db) (hmemory : Memory db t) (hcovers : Covers db t) :
    t.entries.items.length = db.batches.length := by
  have h := (keys_perm htable hmemory hcovers).length_eq
  simpa [Dict.keys] using h

theorem totalSize_eq (htable : Table env db) (hmemory : Memory db t) (hcovers : Covers db t) :
    t.totalSize = (db.batches.map (·.payload.length)).sum :=
  (values_perm htable hmemory hcovers fun _ _ h => h.size).sum_eq

end Covered

/-! ## Insertion -/

theorem insertBatch_eq_some {db db' : Db} {b : Batch} (h : db.insertBatch b = some db') :
    db' = { db with batches := db.batches ++ [b] } ∧
      ∀ a ∈ db.batches, a.messageId ≠ b.messageId ∧ a.localOrder ≠ b.localOrder := by
  unfold Db.insertBatch at h
  split at h
  · rename_i hall
    cases h
    exact ⟨rfl, fun a ha => of_decide_eq_true (List.all_eq_true.mp hall a ha)⟩
  · cases h

/-- The boundary after a row of the Hub. -/
structure Remembers (db db' : Db) (r : BatchColumns) : Prop where
  batches : db'.batches = db.batches
  next : db'.info.nextOrder = db.info.nextOrder
  agreed : db.info.trustedBasisRef = none ∨ db.info.trustedBasisRef = r.timeBasisRef
  basis : db'.info.trustedBasisRef = r.timeBasisRef
  floor : ∃ utc error, r.enqueuedUtcMs = some utc ∧ r.uncertaintyMs = some error ∧
    db'.info.trustedUtcHighWaterMs =
      some (max (max 0 (utc - error)) (db.info.trustedUtcHighWaterMs.getD 0))

theorem rememberTime_eq_ok {db db' : Db} {r : BatchColumns} (h : rememberTime db r = .ok db')
    (htrust : r.timeTrust = .hubTrusted) : Remembers db db' r := by
  unfold rememberTime at h
  rw [if_pos htrust] at h
  split at h
  · cases h
  · rename_i hbasis
    split at h
    · rename_i utc error hutc herror
      cases h
      refine ⟨rfl, rfl, ?_, rfl, utc, error, hutc, herror, rfl⟩
      by_cases hnone : db.info.trustedBasisRef = none
      · exact .inl hnone
      · refine .inr (not_not.mp fun hne => hbasis ⟨?_, hne⟩)
        exact Option.isSome_iff_ne_none.mpr hnone
    · cases h

/-- The batch of an insertion, as it is committed. -/
def Insertion.batch (i : Insertion) : Batch := { i.row with payload := i.payload }

/-- What an insertion does to the file. -/
structure Inserts (i : Insertion) (db : Db) : Prop where
  batches : i.db.batches = db.batches ++ [i.batch]
  fresh : ∀ a ∈ db.batches, a.messageId ≠ i.key
  next : i.db.info.nextOrder = i.order + 1
  row : ∃ utc error, i.row =
    { i.firstRow with enqueuedUtcMs := utc, uncertaintyMs := error }
  boundary : i.firstRow.timeTrust ≠ .hubTrusted ∧
      i.db.info.trustedBasisRef = db.info.trustedBasisRef ∧
      i.db.info.trustedUtcHighWaterMs = db.info.trustedUtcHighWaterMs ∨
    i.firstRow.timeTrust = .hubTrusted ∧
      ∃ db₁ : Db, db₁.info.trustedBasisRef = db.info.trustedBasisRef ∧
        db₁.info.trustedUtcHighWaterMs = db.info.trustedUtcHighWaterMs ∧
        Remembers db₁ i.db i.row.toBatchColumns

theorem Insertion.Admitted.inserts [JsonSchema] {env : OutboxEnv} {op : OutboxOp} {s : Outbox}
    {i : Insertion} (h : i.Admitted env op s) : Inserts i s.db := by
  obtain ⟨db, hdb, hguarded⟩ := h.guarded
  obtain ⟨rfl, hfresh⟩ := insertBatch_eq_some hdb
  have hfresh' : ∀ a ∈ s.db.batches, a.messageId ≠ i.key := fun a ha => (hfresh a ha).1
  unfold Insertion.Guarded at hguarded
  split at hguarded
  · rename_i hnone
    obtain ⟨-, hrow, hdb⟩ := hguarded
    -- Without a provider no row is trusted.
    have htrust : i.firstRow.timeTrust ≠ .hubTrusted := by
      have hgated := h.gated
      unfold Gated at hgated
      rw [hnone] at hgated
      rw [Insertion.firstRow, hgated]
      exact nofun
    refine ⟨?_, hfresh', ?_, ⟨_, _, hrow⟩, .inl ⟨htrust, ?_, ?_⟩⟩
    · rw [hdb, Insertion.batch, hrow]
      rfl
    · rw [hdb]
      rfl
    · rw [hdb]
      rfl
    · rw [hdb]
      rfl
  · obtain ⟨n, c, -, -, hcases⟩ := hguarded
    split at hcases
    · rename_i htrust
      obtain ⟨hrow, hremember⟩ := hcases
      have htrust' : i.row.timeTrust = .hubTrusted := by
        rw [hrow]
        exact htrust
      have hr := rememberTime_eq_ok hremember htrust'
      refine ⟨?_, hfresh', ?_, ⟨_, _, hrow⟩, .inr ⟨htrust, _, ?_, ?_, hr⟩⟩
      · rw [hr.batches]
        show (s.db.batches ++ [({ i.firstRow with payload := i.payload } : Batch)]).map _ = _
        rw [List.map_append, List.map_singleton, Insertion.batch, hrow]
        rw [if_pos (show i.firstRow.messageId = i.key from rfl)]
        congr 1
        refine (List.map_congr_left fun a ha => ?_).trans (List.map_id _)
        rw [if_neg (hfresh' a ha)]
        rfl
      · rw [hr.next]
        rfl
      · rfl
      · rfl
    · rename_i htrust
      obtain ⟨hrow, hdb⟩ := hcases
      refine ⟨?_, hfresh', ?_, ⟨_, _, hrow⟩, .inl ⟨htrust, ?_, ?_⟩⟩
      · rw [hdb, Insertion.batch, hrow]
        rfl
      · rw [hdb]
        rfl
      · rw [hdb]
        rfl
      · rw [hdb]
        rfl

end PlcnextIot.Storage
