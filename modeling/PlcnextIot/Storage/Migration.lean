/-
  PlcnextIot.Storage.Migration

  `storage/outbox_migration.py`: a file of version 1 becomes one of version 2.
  Its rows have no time that could be compared with anything: they are
  `LEGACY_UNVERIFIED`.  What the types of a row say (that the payload is bytes,
  the numbers are integers and the state is one of two) is checked there too;
  the locks, the backup and its manifest are not modelled.
-/

import PlcnextIot.Storage.OutboxIntegrity

namespace PlcnextIot.Storage

open PlcnextIot.Python PlcnextIot.Contracts PlcnextIot.Config PlcnextIot.Reporting
open PlcnextIot.Core PlcnextIot.Effect PlcnextIot.Effect.Prog

/-! ## Version 1 -/

/-- A row of `batches` in a file of version 1. -/
structure FirstBatch where
  rowid : ℤ
  messageId : PyStr
  payload : Bytes
  hash : PyStr
  created : PyNum
  attempts : ℤ
  nextDue : PyNum
  state : BatchPhase
  reason : Option PyStr
  deriving DecidableEq, Repr

/-- A file of version 1; its rows come in the order of their row ids. -/
structure FirstFile where
  dropped : ℤ
  deadPruned : ℤ
  batches : List FirstBatch
  keyed : (batches.map (·.messageId)).Nodup
  ordered : (batches.map (·.rowid)).Pairwise (· < ·)

/-- The message id of a payload. -/
def readMessageId (payload : Bytes) : Except PyExc PyStr :=
  match decodeMessage payload with
  | none => .error .jsonDecodeError
  | some wire => strItem wire "messageId"

/-- The row is what its payload says, and its numbers are in range. -/
def FirstBatch.intact [JsonSchema] (gateway : PyStr) (b : FirstBatch) : Except OutboxExc Bool :=
  if digest b.payload ≠ b.hash then .ok false
  else do
    let issues ← asPython (validateMessage .data b.payload gateway)
    if issues ≠ [] then return false
    else
      let key ← asPython (readMessageId b.payload)
      return key = b.messageId && 1 ≤ b.rowid && b.rowid < maxSafe && 0 ≤ b.attempts
        && b.attempts ≤ maxSafe

/-- The row with the columns of version 2. -/
def FirstBatch.upgraded (b : FirstBatch) : Batch :=
  { messageId := b.messageId, hash := b.hash, created := b.created, attempts := b.attempts
    nextDue := b.nextDue, state := b.state, reason := b.reason, localOrder := b.rowid
    enqueuedUtcMs := none, uncertaintyMs := none, timeTrust := .legacyUnverified
    timeBasisRef := none, enqueueBootId := none, clockRevision := none, terminalSource := none
    payload := b.payload }

def FirstBatch.migrate [JsonSchema] (gateway : PyStr) (b : FirstBatch) : Except OutboxExc Batch := do
  if ← b.intact gateway then return b.upgraded
  else .error (.format "Invalid v1 batch; retain source for explicit repair")

/-- A counter of the store. -/
def counterValid (n : ℤ) : Bool := 0 ≤ n && n ≤ maxSafe

/-- The file after the migration; the local orders go on after the row ids. -/
def FirstFile.upgraded (file : FirstFile) (batches : List Batch) : Db where
  info := { dropped := file.dropped, deadPruned := file.deadPruned
            nextOrder := (file.batches.map (·.rowid)).max?.getD 0 + 1 }
  batches := batches

/-- `migrate_existing` -/
def migrateExisting [JsonSchema] (gateway : PyStr) (file : FirstFile) : Except OutboxExc Db :=
  if counterValid file.dropped && counterValid file.deadPruned then do
    let batches ← file.batches.mapM (FirstBatch.migrate gateway)
    return file.upgraded batches
  else .error (.format "Invalid v1 counters")

/-! ## What a migrated file is -/

section Migrated

variable [JsonSchema] {env : OutboxEnv} {file : FirstFile} {db : Db}

/-- A conforming batch has a message id and a header time. -/
theorem readBatch_of_valid {payload : Bytes} {gateway key : PyStr}
    (hvalid : validateMessage .data payload gateway = .ok [])
    (hkey : readMessageId payload = .ok key) : ∃ stamp, readBatch payload = .ok (key, stamp) := by
  obtain ⟨message, hmessage, hconf, -, -⟩ := validateMessage_valid hvalid
  have hstrict : Protocol.data message = true := hconf
  have htimestamp : Effect.Returns (item message "timestamp") fun v => Protocol.safeInt v = true :=
    Schema.strict_item hstrict (by simp [Protocol.header])
  obtain ⟨v, hv, hsafe⟩ := htimestamp
  obtain ⟨q, hq, -⟩ := Schema.range_num hsafe
  obtain ⟨stamp, hstamp⟩ : ∃ stamp, numberOf v = .ok stamp := by
    cases v <;> simp [number?] at hq <;> exact ⟨_, rfl⟩
  unfold readMessageId at hkey
  rw [hmessage] at hkey
  refine ⟨stamp, ?_⟩
  unfold readBatch
  rw [hmessage]
  dsimp only at hkey ⊢
  rw [hkey, hv]
  show (do return (key, ← numberOf v)) = _
  rw [hstamp]
  rfl

theorem migrate_eq_ok {gateway : PyStr} {b : FirstBatch} {b' : Batch}
    (h : b.migrate gateway = .ok b') :
    b' = b.upgraded ∧ digest b.payload = b.hash ∧
      validateMessage .data b.payload gateway = .ok [] ∧
      readMessageId b.payload = .ok b.messageId ∧ 1 ≤ b.rowid ∧ b.rowid < maxSafe := by
  obtain ⟨intact, hintact, h⟩ := bind_eq_ok h
  cases intact with
  | false => cases h
  | true =>
      cases h
      unfold FirstBatch.intact at hintact
      split at hintact
      · cases hintact
      rename_i hhash
      obtain ⟨issues, hissues, hintact⟩ := bind_eq_ok hintact
      split at hintact
      · cases hintact
      rename_i hnone
      obtain ⟨key, hkey, hintact⟩ := bind_eq_ok hintact
      have hall := Except.ok.inj hintact
      simp only [Bool.and_eq_true, decide_eq_true_eq] at hall
      obtain ⟨⟨⟨⟨rfl, hlow⟩, hhigh⟩, -⟩, -⟩ := hall
      rw [not_not.mp hnone] at hissues
      exact ⟨rfl, not_not.mp hhash, asPython_eq_ok.mp hissues, asPython_eq_ok.mp hkey, hlow, hhigh⟩

/-- The rows of a migrated file are those of the old one. -/
theorem migrateExisting_eq_ok {gateway : PyStr} (h : migrateExisting gateway file = .ok db) :
    db = file.upgraded (file.batches.map (·.upgraded)) ∧
      ∀ b ∈ file.batches, b.migrate gateway = .ok b.upgraded := by
  unfold migrateExisting at h
  split at h
  · obtain ⟨batches, hbatches, h⟩ := bind_eq_ok h
    cases h
    have hall : ∀ b ∈ file.batches, b.migrate gateway = .ok b.upgraded := fun b hb => by
      obtain ⟨b', -, hb'⟩ := mapM_result hbatches hb
      rw [hb', (migrate_eq_ok hb').1]
    rw [mapM_eq_map hall] at hbatches
    cases hbatches
    exact ⟨rfl, hall⟩
  · cases h

/-- A migrated file within the limits is one that the store can open. -/
theorem table_migrated (h : migrateExisting env.gateway file = .ok db) (hquotas : WithinQuotas env db) :
    Table env db := by
  obtain ⟨rfl, hall⟩ := migrateExisting_eq_ok h
  have hrange : ∀ b ∈ file.batches, 1 ≤ b.rowid ∧ b.rowid < maxSafe := fun b hb =>
    (migrate_eq_ok (hall b hb)).2.2.2.2
  -- The counter begins behind the greatest rowid.
  have hbelow : ∀ b ∈ file.batches, b.rowid ≤ (file.batches.map (·.rowid)).max?.getD 0 := by
    intro b hb
    have hmem : b.rowid ∈ file.batches.map (·.rowid) := List.mem_map.mpr ⟨b, hb, rfl⟩
    obtain ⟨m, hm⟩ := Option.isSome_iff_exists.mp (List.isSome_max?_of_mem hmem)
    rw [hm]
    exact (List.max?_le_iff hm).mp le_rfl _ hmem
  have hnext : 0 ≤ (file.batches.map (·.rowid)).max?.getD 0 ∧
      (file.batches.map (·.rowid)).max?.getD 0 < maxSafe := by
    cases hm : (file.batches.map (·.rowid)).max? with
    | none => decide
    | some m =>
        obtain ⟨b, hb, rfl⟩ := List.mem_map.mp (List.max?_mem hm)
        have := hrange b hb
        exact ⟨by rw [Option.getD_some]; omega, this.2⟩
  refine ⟨?_, ?_, ?_, ?_, ?_, hquotas.count, hquotas.bytes, hquotas.deads⟩
  · show ((file.batches.map (·.upgraded)).map (·.messageId)).Nodup
    rw [List.map_map]
    exact file.keyed
  · intro b' hb'
    obtain ⟨b, hb, rfl⟩ := List.mem_map.mp hb'
    exact ⟨(hrange b hb).1, Int.lt_add_one_of_le (hbelow b hb)⟩
  · show 1 ≤ (file.batches.map (·.rowid)).max?.getD 0 + 1 ∧ _
    exact ⟨by omega, Int.add_one_le_of_lt hnext.2⟩
  · intro b' hb'
    obtain ⟨b, hb, rfl⟩ := List.mem_map.mp hb'
    obtain ⟨-, hhash, hvalid, hkey, -⟩ := migrate_eq_ok (hall b hb)
    refine ⟨hhash, ?_, readBatch_of_valid hvalid hkey⟩
    show (validateMessage .data b.payload env.gateway).map (·.isEmpty) = .ok true
    rw [hvalid]
    rfl
  · intro b' hb' hsome
    obtain ⟨b, hb, rfl⟩ := List.mem_map.mp hb'
    cases hsome

end Migrated

/-! ## How a life of the file begins -/

/-- The state before a migrated file is opened; its rows are the first ones of the
    journal. -/
def Outbox.migrated (db : Db) (maxBytes : ℤ) (maxRecords : ℕ) (accounting : Option (Accounting × ℤ)) :
    Outbox :=
  { db, session := .create maxBytes maxRecords accounting, created := true
    journal := db.batches.map fun b => .inserted b none, started := db.batches.length }

section Begins

variable [JsonSchema] {env : OutboxEnv} {s : Outbox}

/-- The file is new, or was migrated from version 1. -/
inductive Begins (env : OutboxEnv) : Outbox → Prop
  | fresh (maxBytes : ℤ) (maxRecords : ℕ) (accounting : Option (Accounting × ℤ)) :
      Begins env (.fresh maxBytes maxRecords accounting)
  | migrated {file : FirstFile} {db : Db} (h : migrateExisting env.gateway file = .ok db)
      (hquotas : WithinQuotas env db) (maxBytes : ℤ) (maxRecords : ℕ)
      (accounting : Option (Accounting × ℤ)) :
      Begins env (.migrated db maxBytes maxRecords accounting)

theorem Begins.sound (h : Begins env s) : Sound env s := by
  cases h with
  | fresh maxBytes maxRecords accounting => exact sound_fresh env maxBytes maxRecords accounting
  | migrated hfile hquotas maxBytes maxRecords accounting =>
      exact sound_create (table_migrated hfile hquotas) maxBytes maxRecords accounting rfl rfl rfl

omit [JsonSchema] in
theorem insertions_migrated (batches : List Batch) :
    insertions (batches.map fun b => .inserted b none) = batches := by
  induction batches with
  | nil => rfl
  | cons b rest ih =>
      show b :: insertions (rest.map fun b => Change.inserted b none) = b :: rest
      rw [ih]

/-- What was not inserted here is there as it was. -/
theorem Begins.rows (h : Begins env s) : insertions s.journal = s.db.batches ∧
    ∀ c ∈ s.journal, ∃ b, c = .inserted b none ∧ b.timeTrust = .legacyUnverified ∧
      b.terminalSource = none := by
  cases h with
  | fresh maxBytes maxRecords accounting => exact ⟨rfl, fun c hc => absurd hc List.not_mem_nil⟩
  | migrated hfile hquotas maxBytes maxRecords accounting =>
      obtain ⟨rfl, -⟩ := migrateExisting_eq_ok hfile
      refine ⟨insertions_migrated _, fun c hc => ?_⟩
      obtain ⟨b', hb', rfl⟩ := List.mem_map.mp hc
      obtain ⟨b, -, rfl⟩ := List.mem_map.mp hb'
      exact ⟨_, rfl, rfl, rfl⟩

theorem Begins.ordered (h : Begins env s) : (s.db.batches.map (·.localOrder)).Pairwise (· < ·) := by
  cases h with
  | fresh maxBytes maxRecords accounting => exact .nil
  | @migrated file db hfile hquotas maxBytes maxRecords accounting =>
      obtain ⟨rfl, -⟩ := migrateExisting_eq_ok hfile
      show ((file.batches.map (·.upgraded)).map (·.localOrder)).Pairwise (· < ·)
      rw [List.map_map]
      exact file.ordered

theorem Begins.ledger {delivered : Bytes → Prop} (h : Begins env s) :
    Ledger env delivered s.journal s.db := by
  have htable := h.sound.table
  obtain ⟨hrows, hold⟩ := h.rows
  refine ⟨fun c hc => ?_, ?_, ?_, ?_, ?_⟩
  · obtain ⟨b, rfl, -⟩ := hold c hc
    have hb : b ∈ s.db.batches := hrows ▸ mem_insertions.mpr ⟨none, hc⟩
    have hbelow := htable.orders b hb
    have hnext := htable.next
    exact ⟨htable.genuine b hb, hbelow.1, by omega⟩
  · rw [hrows]
    exact h.ordered
  · rw [hrows]
    exact fun b hb => (htable.orders b hb).2
  · rw [hrows]
    exact fun b hb => ⟨b, hb, rfl⟩
  · rw [hrows]
    exact fun b hb => .inl ⟨b, hb, rfl⟩

end Begins

end PlcnextIot.Storage
