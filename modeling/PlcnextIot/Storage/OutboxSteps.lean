/-
  PlcnextIot.Storage.OutboxSteps

  What an Outbox operation can do, as a sequence of atomic steps.

  `Commit env op s s'` lists them: a repository transaction together with the
  memory updates that go with it, an update of the schedule, or a call of the
  surroundings.  `exec_goes` says that an operation only makes such steps,
  whether it returns or raises; everything later about runs of the Outbox is a
  case analysis on `Commit`.
-/

import PlcnextIot.Storage.Outbox
import PlcnextIot.Effect.Steps
import Mathlib.Data.List.DropRight

namespace PlcnextIot.Storage

open PlcnextIot.Python PlcnextIot.Contracts PlcnextIot.Config PlcnextIot.Reporting
open PlcnextIot.Core PlcnextIot.Effect PlcnextIot.Effect.Prog Relation

/-- The state is as before; calls of the surroundings were counted. -/
structure Later (s s' : Outbox) : Prop where
  frame : s' = { s with
    timeReads := s'.timeReads, clockReads := s'.clockReads, transactions := s'.transactions }
  time : s.timeReads ≤ s'.timeReads
  clock : s.clockReads ≤ s'.clockReads

theorem Later.refl (s : Outbox) : Later s s := ⟨rfl, le_rfl, le_rfl⟩

theorem Later.trans {a b c : Outbox} (h : Later a b) (h' : Later b c) : Later a c := by
  refine ⟨?_, h.time.trans h'.time, h.clock.trans h'.clock⟩
  rw [h'.frame, h.frame]

section Effects

variable [Footprint]

/-! ## Effects -/

/-- Forget an entry, with the accounting. -/
def dropOne (t : OutboxSession) (key : PyStr) : OutboxSession :=
  match t.entries.get? key with
  | none => t
  | some e => (t.remove key).account fun a => a.removed e.facts false true

/-- A termination in memory. -/
def terminateSession (key reason : PyStr) (source : TerminalSource) (pruned : List PyStr)
    (t : OutboxSession) : OutboxSession :=
  pruned.foldl dropOne (sessionTerminal key source (t.update key (·.terminate reason source)))

/-- `_terminal`, once it is committed. -/
def Outbox.terminated (cause : Cause) (key reason : PyStr) (source : TerminalSource)
    (pruned : List PyStr) (e : BatchState) (s : Outbox) : Outbox :=
  ((s.onDb (·.terminal key reason pruned source)).note
    (.terminated e source cause (s.session.listed pruned))).onSession
      (terminateSession key reason source pruned)

/-- A pruned entry. -/
def Outbox.pruned (key : PyStr) (e : BatchState) (s : Outbox) : Outbox :=
  ((s.onDb fun db => (db.deleteBatch key).countPruned 1).note (.pruned e)).onSession fun t =>
    (t.account fun a => a.removed e.facts false true).remove key

/-- A `STORED` acknowledgement. -/
def Outbox.storedBy (ack : Bytes) (key : PyStr) (e : BatchState) (s : Outbox) : Outbox :=
  ((s.onDb (·.deleteBatch key)).note (.stored e ack)).onSession fun t =>
    (t.account fun a => a.removed e.facts true false).remove key

/-- A committed attempt. -/
def Outbox.attempted (mono : ℚ) (size : ℕ) (r : Reservation) (s : Outbox) : Outbox :=
  ((s.onDb (·.updateBatch r.entry.row.messageId fun c =>
    { c with attempts := r.entry.nextAttempt, nextDue := .int 0 })).note (.attempted r)).onSession
      fun t => charged mono size r.category
        (t.update r.entry.row.messageId (·.sent mono r.entry.nextAttempt))

/-- An inserted batch; `accepted` is the number of the reading that the commit
    guard accepted. -/
def Outbox.inserted (db : Db) (accepted : Option ℕ) (row : Row) (payload : Bytes)
    (entry : BatchState) (s : Outbox) : Outbox :=
  (({ s with db }).note (.inserted { row with payload } accepted)).onSession fun t =>
    ({ t with staged := t.staged.erase row.messageId
              entries := t.entries.set row.messageId entry } : OutboxSession).account
      fun a => a.committed entry.facts

/-- A row that this process has not seen. -/
def Outbox.attached (row : Row) (entry : BatchState) (s : Outbox) : Outbox :=
  s.onSession fun t =>
    ({ t with staged := t.staged.erase row.messageId
              entries := t.entries.set row.messageId entry } : OutboxSession).account
      fun a => a.restored entry.facts

/-! ## Why a step is made -/

/-- A new batch, and what has become of it at the commit. -/
structure Insertion where
  key : PyStr
  stamp : PyNum
  payload : Bytes
  now : Option PyNum
  association : Association
  token : Option TimeToken
  current : Option TimeSnapshot
  order : ℤ
  /-- The entry that is staged. -/
  entry : BatchState
  accepted : Option ℕ
  /-- The row as it is committed. -/
  row : Row
  /-- The file after the transaction. -/
  db : Db

/-- The row before the commit guard. -/
def Insertion.firstRow (i : Insertion) : Row :=
  newRow i.key i.stamp i.payload i.now i.order i.current

/-- The gate of `enqueue` returned `current`. -/
def Gated (env : OutboxEnv) (token : Option TimeToken) (current : Option TimeSnapshot) : Prop :=
  match env.provider with
  | none => current = none
  | some p => ∃ n c, p.require n token .enqueue = .ok c ∧ current = some c

/-- What the commit guard makes of the inserted row; `db` is the file with it. -/
def Insertion.Guarded (env : OutboxEnv) (i : Insertion) (db : Db) : Prop :=
  match env.provider with
  | none => i.accepted = none ∧ i.row = i.firstRow ∧ i.db = db
  | some p => ∃ n c, i.accepted = some n ∧ p.require n i.token .enqueue = .ok c ∧
      if i.firstRow.timeTrust = .hubTrusted then
        i.row = i.firstRow.restamp c ∧
          rememberTime (db.updateBatch i.key (·.restamp c)) i.row.toBatchColumns = .ok i.db
      else i.row = i.firstRow ∧ i.db = db

/-- The batch is new, valid, within the quotas, and staged. -/
structure Insertion.Prepared [JsonSchema] (env : OutboxEnv) (op : OutboxOp) (s : Outbox)
    (i : Insertion) : Prop where
  call : op = .enqueue i.payload i.now i.association i.token
  opened : s.opened = true
  gated : Gated env i.token i.current
  valid : validData env i.payload = .ok true
  read : readBatch i.payload = .ok (i.key, i.stamp)
  absent : s.session.entries.get? i.key = none
  room : full env i.payload s = false
  order : i.order = s.db.info.nextOrder
  inRange : 1 ≤ i.order ∧ i.order < maxSafe
  staged : s.session.staged.get? i.key = some i.entry

/-- Its transaction may commit. -/
structure Insertion.Admitted [JsonSchema] (env : OutboxEnv) (op : OutboxOp) (s : Outbox)
    (i : Insertion) : Prop extends i.Prepared env op s where
  guarded : ∃ db, s.db.insertBatch { i.firstRow with payload := i.payload } = some db ∧
    i.Guarded env (db.setNextOrder (i.order + 1))

/-- A scan with a snapshot of valid time. -/
structure Scan.Of (env : OutboxEnv) (p : TimeProvider) (scan : Scan) : Prop where
  provider : env.provider = some p
  snapshot : p.snapshot scan.reading = .ok scan.current
  valid : scan.current.timeValid = true

/-- The age scan expires an entry, and the gate is open at the commit. -/
structure Expiry (env : OutboxEnv) (scan : Scan) (guard : ℕ) (e : BatchState) (reason : PyStr) :
    Prop where
  scanned : ∃ p, scan.Of env p ∧ ∃ token c, p.require guard (some token) .enqueue = .ok c
  expirable : ∃ lower, lowerAge scan.current e.row = .ok lower ∧ expirable scan e lower = true
  text : reason = py "EXPIRED_DATA"

/-- The session time of a scan is the latest reading. -/
def Cause.Read (env : OutboxEnv) (reads : ℕ) : Cause → Prop
  | .aged scan _ => ∃ n, reads = n + 1 ∧ scan.mono = env.clock n
  | .rejected _ => True

/-- An acknowledgement that the call delivers. -/
def Delivers [JsonSchema] (env : OutboxEnv) (op : OutboxOp) (ack : Bytes) (key : PyStr)
    (status : AckStatus) : Prop :=
  op = .acknowledge ack ∧ validateMessage .dataAck ack env.gateway = .ok [] ∧
    readAck ack = .ok (key, status)

/-- An acknowledgement isolates a pending entry. -/
structure Rejection [JsonSchema] (env : OutboxEnv) (op : OutboxOp) (ack : Bytes) (key : PyStr)
    (e : BatchState) (reason : PyStr) : Prop where
  delivered : ∃ codes, Delivers env op ack key (.rejected codes) ∧ retryable codes = false ∧
    reason = joinCodes codes
  pending : e.row.state = .pending
  sent : e.row.attempts ≠ 0

/-- Why an entry is terminated. -/
inductive Terminates [JsonSchema] (env : OutboxEnv) (op : OutboxOp) (key : PyStr) (e : BatchState)
    (reason : PyStr) : TerminalSource → Cause → Prop
  | expired {scan : Scan} {guard : ℕ} (h : Expiry env scan guard e reason) :
      Terminates env op key e reason .ageExpired (.aged scan guard)
  | rejected {ack : Bytes} (h : Rejection env op ack key e reason) :
      Terminates env op key e reason .permanentReject (.rejected ack)

/-- The choice of a `reserve`. -/
structure Reservation.Chosen [JsonSchema] (env : OutboxEnv) (op : OutboxOp) (s : Outbox)
    (r : Reservation) : Prop where
  call : ∃ token, op = .reserve token ∧ ∃ s₀ s₁,
    (eligible env token (env.clock r.first) r.entries).run s₀ = (.ok r.ready, s₁)
  opened : s.opened = true
  entries : r.entries = s.session.entries.values
  purged : purgeRate (env.clock r.first) s.session = s.session
  free : limited (env.clock r.first) s.session = false
  settled : deactivate (env.clock r.first) s.session = s.session
  unsaturated : saturated s.session = false
  category : r.category = pickCategory s.session.preferNew r.entries r.ready
  least : leastOrder (candidates r.entries r.ready r.category) = some r.entry
  first : r.first < s.clockReads
  last : r.last = s.clockReads

/-- An entry that was never sent nor terminated. -/
structure BatchState.Fresh (e : BatchState) : Prop where
  due : e.due = 0
  idle : e.active = false
  source : e.source = none

/-- An atomic step of an operation. -/
inductive Commit [JsonSchema] (env : OutboxEnv) (op : OutboxOp) : Outbox → Outbox → Prop where
  | waited {s s' : Outbox} (h : Later s s') : Commit env op s s'
  | accounted (s : Outbox) (f : Accounting → Accounting) : Commit env op s (s.account f)
  | staged (s : Outbox) (key : PyStr) (e : BatchState) (hopen : s.opened = true)
      (hop : ∃ payload now association token, op = .enqueue payload now association token)
      (hkey : e.row.messageId = key) (hnew : e.Fresh) (hfree : s.session.known? key = none)
      (hroom : s.session.exhausted env.sizes e = false) :
      Commit env op s (s.onSession fun t => { t with staged := t.staged.set key e })
  | restaged (s : Outbox) (fresh : Bool) (row : Row) :
      Commit env op s (s.onSession (restampStaged fresh row.messageId row))
  | dropped (s : Outbox)
      (hop : ∃ payload now association token, op = .enqueue payload now association token) :
      Commit env op s (s.onDb (·.countDropped))
  | inserted (s : Outbox) (i : Insertion) (h : i.Admitted env op s) :
      Commit env op s (s.inserted i.db i.accepted i.row i.payload { i.entry with row := i.row })
  | terminated (s : Outbox) (cause : Cause) (key reason : PyStr) (source : TerminalSource)
      (e : BatchState) (hopen : s.opened = true) (hkey : s.session.entries.get? key = some e)
      (h : Terminates env op key e reason source cause) (hread : cause.Read env s.clockReads) :
      Commit env op s
        (s.terminated cause key reason source (exceeding env (deadWith s.session key)) e)
  | pruned (s : Outbox) (key : PyStr) (e : BatchState) (hopen : s.opened = true)
      (hkey : s.session.entries.get? key = some e) (hdead : e.row.state = .dead) :
      Commit env op s (s.pruned key e)
  | stored (s : Outbox) (ack : Bytes) (key : PyStr) (e : BatchState) (hopen : s.opened = true)
      (hkey : s.session.entries.get? key = some e) (hsent : e.row.attempts ≠ 0)
      (hwaits : e.settled = false) (h : Delivers env op ack key .stored) :
      Commit env op s (s.storedBy ack key e)
  | attempted (s : Outbox) (r : Reservation) (h : r.Chosen env op s) (payload : Bytes)
      (hpayload : s.db.payload r.entry.row.messageId = some payload)
      (hbytes : (s.session.rate.map (·.2)).sum + payload.length ≤ maxRateBytes) :
      Commit env op s
        ({ s with clockReads := s.clockReads + 1 }.attempted (env.clock s.clockReads)
          payload.length r)
  | purged (s : Outbox) (n : ℕ) (h : n < s.clockReads) :
      Commit env op s (s.onSession (purgeRate (env.clock n)))
  | deactivated (s : Outbox) (n : ℕ) (h : n < s.clockReads) :
      Commit env op s (s.onSession (deactivate (env.clock n)))
  | retried (s : Outbox) (key : PyStr) (e : BatchState) (n : ℕ) (h : s.clockReads = n + 1)
      (hop : ∃ ack codes, Delivers env op ack key (.rejected codes))
      (hkey : s.session.entries.get? key = some e) (hsent : e.row.attempts ≠ 0) :
      Commit env op s (s.onSession (·.update key fun e =>
        { e with due := env.clock n + 60000, active := false }))
  | sdkRejected (s : Outbox) (key : PyStr) (hop : op = .submissionFailed key) :
      Commit env op s (s.onSession (·.update key fun e =>
        if e.row.state = .pending then { e with everSent := e.previousSent, active := false }
        else e))
  | gated (s : Outbox) (watermark : ℤ) (hop : op = .openGate watermark) :
      Commit env op s (s.onSession (·.openGate watermark))
  | closed (s : Outbox) : Commit env op s { s with opened := false }
  | reopened (s : Outbox) (hop : op = .reopen ∨ ∃ b r a, op = .restart b r a) :
      Commit env op s { s with opened := false, created := true }
  | restarted (s : Outbox) (maxBytes : ℤ) (maxRecords : ℕ) (accounting : Option (Accounting × ℤ))
      (hop : op = .restart maxBytes maxRecords accounting) :
      Commit env op s { s with
        session := .create maxBytes maxRecords accounting, opened := false
        started := s.journal.length }
  | refreshed (s : Outbox) (b : Batch) (stamp : PyNum) (hclosed : s.opened = false)
      (hb : b ∈ s.db.batches) (hread : readBatch b.payload = .ok (b.messageId, stamp)) :
      Commit env op s (s.onSession (·.update b.messageId fun e => { e with row := b.row stamp }))
  | attached (s : Outbox) (b : Batch) (stamp : PyNum) (e : BatchState) (n : ℕ)
      (hclosed : s.opened = false) (hb : b ∈ s.db.batches)
      (hread : readBatch b.payload = .ok (b.messageId, stamp))
      (habsent : s.session.entries.get? b.messageId = none)
      (hstaged : s.session.staged.get? b.messageId = some e ∨
        s.session.staged.get? b.messageId = none ∧ e = { row := b.row stamp })
      (h : n < s.clockReads) :
      Commit env op s (s.attached (b.row stamp) (e.restored (env.clock n) (b.row stamp)))
  | opened (s : Outbox) (hall : ∀ b ∈ s.db.batches, ∃ e, s.session.entries.get? b.messageId = some e)
      (hdead : s.session.deadCount ≤ env.maxDead) : Commit env op s { s with opened := true }

/-- The steps of an operation. -/
abbrev Steps [JsonSchema] (env : OutboxEnv) (op : OutboxOp) : Outbox → Outbox → Prop :=
  ReflTransGen (Commit env op)

end Effects

/-! ## Rules -/

theorem asPython_eq_ok {α : Type} {x : Except PyExc α} {a : α} : asPython x = .ok a ↔ x = .ok a := by
  cases x <;> simp [asPython]

section Rules

variable {env : OutboxEnv} {op : OutboxOp} {α : Type}

/-- A repository call fails before its body, in it, or at the commit. -/
theorem wp_repository {body : OutboxM α} {Q : α → Outbox → Prop} {E : Outbox → Prop} {s : Outbox}
    (hguard : E { s with transactions := s.transactions + 1 })
    (h : wp body
      (fun a s' => Q a s' ∧ E (.rollback { s with transactions := s.transactions + 1 } s'))
      (fun _ s' => E (.rollback { s with transactions := s.transactions + 1 } s'))
      { s with transactions := s.transactions + 1 }) :
    wp (repository env body) Q (fun _ => E) s := by
  simp only [repository, wp_bind, wp_gets, wp_modify, wp_check]
  refine ⟨fun _ => ?_, fun _ => hguard⟩
  cases env.commits s.transactions with
  | true => exact wp_transaction_commits.mpr (h.mono (fun _ _ h => h.1) fun _ _ h => h)
  | false => exact wp_transaction_fails.mpr (h.mono (fun _ _ h => h.2) fun _ _ h => h)

theorem later_transaction (s : Outbox) : Later s { s with transactions := s.transactions + 1 } :=
  ⟨rfl, le_rfl, le_rfl⟩

/-- A call of the time provider. -/
theorem wp_reading {f : ℕ → Except TimeError α} {Q : α → Outbox → Prop}
    {E : OutboxExc → Outbox → Prop} {s : Outbox}
    (hok : ∀ a, f s.timeReads = .ok a → Q a { s with timeReads := s.timeReads + 1 })
    (herr : ∀ e, E e { s with timeReads := s.timeReads + 1 }) :
    wp (do let n ← countTime; Prog.result (asTime (f n)) : OutboxM α) Q E s := by
  simp only [countTime, wp_bind, wp_gets, wp_modify, wp_pure]
  cases hf : f s.timeReads with
  | ok a => exact hok a hf
  | error e => exact herr _

theorem later_time (s : Outbox) : Later s { s with timeReads := s.timeReads + 1 } :=
  ⟨rfl, Nat.le_succ _, le_rfl⟩

theorem waits_reading {f : ℕ → Except TimeError α} {s : Outbox} :
    wp (do let n ← countTime; Prog.result (asTime (f n)) : OutboxM α)
      (fun a s' => Later s s' ∧ f s.timeReads = .ok a) (fun _ s' => Later s s') s :=
  wp_reading (fun _ h => ⟨later_time s, h⟩) fun _ => later_time s

theorem later_clock (s : Outbox) : Later s { s with clockReads := s.clockReads + 1 } :=
  ⟨rfl, le_rfl, Nat.le_succ _⟩

theorem waits_clock {s : Outbox} :
    wp (sessionClock env) (fun m s' => Later s s' ∧ m = env.clock s.clockReads ∧
      s.clockReads < s'.clockReads) (fun _ s' => Later s s') s := by
  simp only [sessionClock, wp_bind, wp_gets, wp_modify, wp_pure]
  exact ⟨later_clock s, trivial, Nat.lt_succ_self _⟩

/-- An open store that has taken no new entry. -/
structure Shrinks (s s' : Outbox) : Prop where
  opened : s.opened = true → s'.opened = true
  absent : ∀ k, s.session.entries.get? k = none → s'.session.entries.get? k = none
  clock : s.clockReads ≤ s'.clockReads

theorem Shrinks.refl (s : Outbox) : Shrinks s s := ⟨id, fun _ => id, le_rfl⟩

theorem Shrinks.trans {a b c : Outbox} (h : Shrinks a b) (h' : Shrinks b c) : Shrinks a c :=
  ⟨fun ho => h'.opened (h.opened ho), fun k hk => h'.absent k (h.absent k hk),
    h.clock.trans h'.clock⟩

theorem Later.shrinks {s t : Outbox} (h : Later s t) : Shrinks s t := by
  rw [h.frame]
  exact ⟨id, fun _ => id, h.clock⟩

/-! ## Pruning -/

theorem oldestFirst_perm (entries : List (PyStr × BatchState)) :
    (oldestFirst entries).Perm (entries.map (·.1)) :=
  (List.perm_insertionSort _ _).map _

theorem exceeding_subset {entries : List (PyStr × BatchState)} {k : PyStr}
    (h : k ∈ exceeding env entries) : ∃ e, (k, e) ∈ entries := by
  have hk := (oldestFirst_perm entries).mem_iff.mp (List.mem_of_mem_take h)
  obtain ⟨⟨k', e⟩, hmem, rfl⟩ := List.mem_map.mp hk
  exact ⟨e, hmem⟩

theorem exceeding_nodup {entries : List (PyStr × BatchState)} (h : (entries.map (·.1)).Nodup) :
    (exceeding env entries).Nodup :=
  ((oldestFirst_perm entries).nodup_iff.mpr h).sublist (List.take_sublist _ _)

theorem nodup_filter_keys (d : Dict PyStr BatchState) (p : PyStr × BatchState → Bool) :
    ((d.items.filter p).map (·.1)).Nodup :=
  d.nodup.sublist (List.filter_sublist.map _)

/-- The keys that are left, with entries that are `DEAD`. -/
def DeadKeys (keys : List PyStr) (s : Outbox) : Prop :=
  s.opened = true ∧ keys.Nodup ∧
    ∀ k ∈ keys, ∃ e, s.session.entries.get? k = some e ∧ e.row.state = .dead

theorem deadKeys_later {keys : List PyStr} {s t : Outbox} (h : DeadKeys keys s) (hl : Later s t) :
    DeadKeys keys t := by
  rw [hl.frame]
  exact h

theorem deadKeys_pruned {k : PyStr} {keys : List PyStr} {s : Outbox} {e : BatchState}
    (h : DeadKeys (k :: keys) s) : DeadKeys keys (s.pruned k e) := by
  obtain ⟨hopen, hnodup, hdead⟩ := h
  refine ⟨hopen, (List.nodup_cons.mp hnodup).2, fun k' hk' => ?_⟩
  obtain ⟨e', he', hd⟩ := hdead k' (List.mem_cons_of_mem _ hk')
  refine ⟨e', ?_, hd⟩
  have hne : k' ≠ k := fun h => (List.nodup_cons.mp hnodup).1 (h ▸ hk')
  show (s.session.entries.erase k).get? k' = some e'
  rw [Dict.get?_erase, if_neg hne, he']

theorem shrinks_pruned {k : PyStr} {s : Outbox} {e : BatchState} : Shrinks s (s.pruned k e) := by
  refine ⟨id, fun k' hk' => ?_, le_rfl⟩
  show (s.session.entries.erase k).get? k' = none
  rw [Dict.get?_erase]
  split
  · rfl
  · exact hk'

theorem wp_dropPruned {pruned : List PyStr} {s : Outbox} (hnodup : pruned.Nodup)
    (hall : ∀ k ∈ pruned, ∃ e, s.session.entries.get? k = some e) {Q : Unit → Outbox → Prop}
    {E : OutboxExc → Outbox → Prop} (hQ : Q () (s.onSession fun t => pruned.foldl dropOne t)) :
    wp (each pruned dropPruned) Q E s := by
  induction pruned generalizing s with
  | nil => exact hQ
  | cons k rest ih =>
      obtain ⟨hk, hrest⟩ := List.nodup_cons.mp hnodup
      obtain ⟨e, he⟩ := hall k List.mem_cons_self
      simp only [each, dropPruned, wp_bind, wp_get, he, wp_modify]
      have hone : (((s.onSession (·.remove k)).account fun a => a.removed e.facts false true))
          = s.onSession fun t => dropOne t k := by
        simp only [Outbox.onSession, Outbox.account, dropOne, he]
      rw [hone]
      refine ih hrest (fun k' hk' => ?_) hQ
      obtain ⟨e', he'⟩ := hall k' (List.mem_cons_of_mem _ hk')
      have hne : k' ≠ k := fun h => hk (h ▸ hk')
      refine ⟨e', ?_⟩
      simp only [Outbox.onSession, dropOne, he]
      show (s.session.entries.erase k).get? k' = some e'
      rw [Dict.get?_erase, if_neg hne, he']

theorem get?_update (t : OutboxSession) (key k : PyStr) (f : BatchState → BatchState) :
    (t.update key f).entries.get? k = if k = key then (t.entries.get? k).map f
      else t.entries.get? k := by
  unfold OutboxSession.update
  split
  · rename_i e he
    rw [Dict.get?_set]
    split
    · rename_i hk
      rw [hk, he]
      rfl
    · rfl
  · rename_i he
    split
    · rename_i hk
      rw [hk, he]
      rfl
    · rfl

theorem update_some {t : OutboxSession} {key k : PyStr} {f : BatchState → BatchState}
    {e : BatchState} (he : t.entries.get? k = some e) :
    ∃ e', (t.update key f).entries.get? k = some e' := by
  rw [get?_update, he]
  split <;> exact ⟨_, rfl⟩

theorem get?_dropOne (t : OutboxSession) (key k : PyStr) :
    (dropOne t key).entries.get? k = if k = key then none else t.entries.get? k := by
  unfold dropOne
  split
  · rename_i he
    split
    · rename_i hk
      rw [hk, he]
    · rfl
  · show (t.entries.erase key).get? k = _
    rw [Dict.get?_erase]

theorem get?_dropAll (t : OutboxSession) (pruned : List PyStr) (k : PyStr) :
    (pruned.foldl dropOne t).entries.get? k = if k ∈ pruned then none else t.entries.get? k := by
  induction pruned generalizing t with
  | nil => simp
  | cons key rest ih =>
      rw [List.foldl_cons, ih, get?_dropOne]
      by_cases hk : k = key <;> by_cases hr : k ∈ rest <;> simp [hk, hr]

/-! ## The commit guard -/

theorem restampStaged_eq {fresh : Bool} {key : PyStr} {row : Row} {t : OutboxSession}
    {e : BatchState} (h : t.staged.get? key = some e) :
    ∃ e', (restampStaged fresh key row t).staged.get? key = some e' ∧
      { e' with row := row } = { e with row := row } := by
  unfold restampStaged
  rw [h]
  dsimp only
  split
  · refine ⟨{ e with row }, ?_, rfl⟩
    show (t.staged.set key { e with row }).get? key = _
    rw [Dict.get?_set, if_pos rfl]
  · exact ⟨e, h, rfl⟩

theorem entries_restampStaged (fresh : Bool) (key : PyStr) (row : Row) (t : OutboxSession) :
    (restampStaged fresh key row t).entries = t.entries := by
  unfold restampStaged
  split
  · split <;> rfl
  · rfl

theorem restampStaged_frame (fresh : Bool) (key : PyStr) (row : Row) (t : OutboxSession) :
    restampStaged fresh key row t =
      { t with staged := (restampStaged fresh key row t).staged } := by
  unfold restampStaged
  split
  · split <;> rfl
  · rfl

/-- Waiting inside a transaction that has changed the file. -/
theorem later_onDb {s s₁ t : Outbox} {f : Db → Db} (h : Later s s₁) (ht : Later (s₁.onDb f) t) :
    ∃ u, Later s u ∧ t = u.onDb fun _ => f s.db := by
  refine ⟨{ s with
    timeReads := t.timeReads, clockReads := t.clockReads, transactions := t.transactions },
    ⟨rfl, h.time.trans ht.time, h.clock.trans ht.clock⟩, ?_⟩
  rw [ht.frame, h.frame]
  rfl

/-- The commit guard: what it makes of the file and of the staged row. -/
theorem wp_accept {p : TimeProvider} {token : Option TimeToken} {fresh : Bool} {row : Row}
    {s : Outbox} :
    wp (accept p token fresh row)
      (fun a s' => ∃ c t, Later s t ∧ a.2 = some s.timeReads ∧
        p.require s.timeReads token .enqueue = .ok c ∧
        if row.timeTrust = .hubTrusted then
          a.1 = row.restamp c ∧ ∃ db, rememberTime (s.db.updateBatch row.messageId (·.restamp c))
              a.1.toBatchColumns = .ok db ∧
            s' = { t.onSession (restampStaged fresh row.messageId a.1) with db }
        else a.1 = row ∧ s' = t)
      (fun _ s' => ∃ t db, Later s t ∧ (s' = { t with db } ∨ ∃ c,
        s' = { t.onSession (restampStaged fresh row.messageId (row.restamp c)) with db })) s := by
  unfold accept
  simp only [wp_bind, wp_gets]
  refine wp_reading (fun c hc => ?_) fun _ => ⟨_, s.db, later_time s, .inl rfl⟩
  rw [wp_ite]
  refine ⟨fun htrust => ?_, fun htrust => ?_⟩
  · simp only [wp_bind, wp_modify, wp_get, wp_result, wp_pure]
    refine ⟨fun db hdb => ?_, fun e _ => ?_⟩
    · refine ⟨c, _, later_time s, trivial, hc, ?_⟩
      rw [if_pos htrust]
      exact ⟨rfl, db, hdb, rfl⟩
    · exact ⟨_, _, later_time s, .inr ⟨c, rfl⟩⟩
  · refine ⟨c, _, later_time s, rfl, hc, ?_⟩
    rw [if_neg htrust]
    exact ⟨rfl, rfl⟩

variable [JsonSchema] [Footprint]

/-- A program that only waits, on every outcome. -/
theorem Goes.of_waits {x : OutboxM α} {Q : α → Outbox → Prop} {s : Outbox}
    (h : wp x (fun a s' => Later s s' ∧ Q a s') (fun _ s' => Later s s') s) :
    Goes (Commit env op) x Q s :=
  h.mono (fun _ _ h => ⟨.single (.waited h.1), h.2⟩) fun _ _ h => .single (.waited h)

theorem goes_pruneOne {s : Outbox} {key : PyStr} {e : BatchState} (hopen : s.opened = true)
    (hkey : s.session.entries.get? key = some e) (hdead : e.row.state = .dead) :
    Goes (Commit env op) (pruneOne env key) (fun _ s' => ∃ t, Later s t ∧ s' = t.pruned key e) s := by
  have hlater := later_transaction s
  simp only [Goes, pruneOne, wp_bind, wp_get, hkey]
  refine wp_repository (E := Steps env op s) (.single (.waited hlater)) ?_
  simp only [wp_bind, wp_modify]
  refine ⟨⟨?_, _, hlater, rfl⟩, .single (.waited hlater)⟩
  exact (ReflTransGen.single (.waited hlater)).tail (.pruned _ key e hopen hkey hdead)

theorem goes_prune {s : Outbox} (hopen : s.opened = true) :
    Goes (Commit env op) (prune env) (fun _ s' => Shrinks s s') s := by
  refine Goes.bind (P := fun dead s' => s = s' ∧ dead =
    s.session.entries.items.filter fun kv => kv.2.row.state = .dead) (Goes.gets ⟨rfl, rfl⟩) ?_
  rintro _ _ - ⟨rfl, rfl⟩
  refine (Goes.each (I := fun keys s' => DeadKeys keys s' ∧ Shrinks s s') (fun k rest s' hs => ?_)
    ⟨⟨hopen, ?_, ?_⟩, Shrinks.refl s⟩).mono fun _ _ _ h => h.2
  · obtain ⟨hs, hshrinks⟩ := hs
    obtain ⟨e, hkey, hdead⟩ := hs.2.2 k List.mem_cons_self
    refine (goes_pruneOne hs.1 hkey hdead).mono ?_
    rintro _ _ - ⟨t, hl, rfl⟩
    exact ⟨deadKeys_pruned (deadKeys_later hs hl), (hshrinks.trans hl.shrinks).trans shrinks_pruned⟩
  · exact exceeding_nodup (nodup_filter_keys _ _)
  · intro k hk
    obtain ⟨e, hmem⟩ := exceeding_subset hk
    obtain ⟨hitem, hdead⟩ := List.mem_filter.mp hmem
    exact ⟨e, Dict.get?_eq_some.mpr hitem, of_decide_eq_true hdead⟩

/-! ## Termination -/

omit [JsonSchema] in
theorem get?_sessionTerminal (t : OutboxSession) (key k : PyStr) (source : TerminalSource) :
    (sessionTerminal key source t).entries.get? k = if k = key then
      (t.entries.get? k).map fun e => if e.source.isSome then e
        else { e with source := some source, active := false }
      else t.entries.get? k := by
  unfold sessionTerminal
  split
  · rename_i he
    split
    · rename_i hk
      rw [hk, he]
      rfl
    · rfl
  · rename_i e he
    split
    · rename_i hs
      split
      · rename_i hk
        rw [hk, he, Option.map_some, if_pos hs]
      · rfl
    · rename_i hs
      show (t.entries.set key _).get? k = _
      rw [Dict.get?_set]
      split
      · rename_i hk
        rw [hk, he, Option.map_some, if_neg hs]
      · rfl

/-- A rollback leaves what was done to the session: the steps up to there. -/
theorem steps_rollback {s s₁ u v s' : Outbox} (hpath : Steps env op s v) (h : Later s s₁)
    (hu : Later s u) (hv : v.db = u.db ∧ v.journal = u.journal)
    (hs' : { s' with db := v.db, journal := v.journal } = v) :
    Steps env op s (Outbox.rollback s₁ s') := by
  have hdb : s₁.db = v.db := by rw [h.frame, hv.1, hu.frame]
  have hjournal : s₁.journal = v.journal := by rw [h.frame, hv.2, hu.frame]
  rw [Outbox.rollback, hdb, hjournal, hs']
  exact hpath

/-- A termination, when it commits; its guard only waits. -/
theorem goes_terminal {s : Outbox} {guard : OutboxM Cause} {key reason : PyStr}
    {source : TerminalSource} {e : BatchState}
    (hguard : ∀ u, u.clockReads = s.clockReads →
      wp guard (fun c s' => Later u s' ∧ s'.clockReads = u.clockReads ∧
          Terminates env op key e reason source c ∧ c.Read env u.clockReads)
        (fun _ s' => Later u s') u)
    (hopen : s.opened = true) (hkey : s.session.entries.get? key = some e) :
    Goes (Commit env op) (terminal env guard key reason source) (fun _ s' =>
      ∃ t cause, Later s t ∧ t.clockReads = s.clockReads ∧
        s' = t.terminated cause key reason source (exceeding env (deadWith s.session key)) e) s := by
  generalize hpruned : exceeding env (deadWith s.session key) = pruned
  simp only [Goes, terminal, wp_bind, wp_get, hkey, wp_gets, hpruned]
  refine wp_repository (E := Steps env op s) (.single (.waited (later_transaction s))) ?_
  simp only [wp_bind, wp_modify]
  refine (hguard (Outbox.onDb _ { s with transactions := s.transactions + 1 }) rfl).mono
    (fun cause s₁ h => ?_) fun _ s₁ hl => ?_
  -- After the guard, the file is changed and calls were counted.
  · obtain ⟨hl, hreads, h, hread⟩ := h
    obtain ⟨t, ht, rfl⟩ := later_onDb (later_transaction s) hl
    have hreads' : t.clockReads = s.clockReads := hreads
    have hwait : Steps env op s t := .single (.waited ht)
    refine ⟨?_, steps_rollback hwait (later_transaction s) ht ⟨rfl, rfl⟩ rfl⟩
    have hdb : t.db = s.db := by rw [ht.frame]
    have hend : (((t.onDb fun _ => s.db.terminal key reason pruned source).note
        (.terminated e source cause (t.session.listed pruned))).onSession
          (·.update key (·.terminate reason source))).onSession (sessionTerminal key source)
        = (((t.onDb (·.terminal key reason pruned source)).note
          (.terminated e source cause (t.session.listed pruned))).onSession fun u =>
            sessionTerminal key source (u.update key (·.terminate reason source))) := by
      rw [← hdb]
      rfl
    show wp (each pruned dropPruned) _ _ ((((t.onDb fun _ => s.db.terminal key reason pruned
      source).note (.terminated e source cause (t.session.listed pruned))).onSession
        (·.update key (·.terminate reason source))).onSession (sessionTerminal key source))
    rw [hend]
    refine wp_dropPruned ?_ ?_ ⟨?_, t, cause, ht, hreads', rfl⟩
    · rw [← hpruned]
      exact exceeding_nodup (nodup_filter_keys _ _)
    · intro k hk
      rw [← hpruned] at hk
      obtain ⟨e', hmem⟩ := exceeding_subset hk
      have hget : t.session.entries.get? k = some e' := by
        rw [ht.frame]
        exact Dict.get?_eq_some.mpr (List.mem_filter.mp hmem).1
      show ∃ e, (sessionTerminal key source
        (t.session.update key (·.terminate reason source))).entries.get? k = some e
      rw [get?_sessionTerminal, get?_update, hget]
      split <;> exact ⟨_, rfl⟩
    · have hopen' : t.opened = true := by rw [ht.frame]; exact hopen
      have hkey' : t.session.entries.get? key = some e := by rw [ht.frame]; exact hkey
      have hpr : exceeding env (deadWith t.session key) = pruned := by
        rw [ht.frame]
        exact hpruned
      have hstep := Commit.terminated t cause key reason source e hopen' hkey' h
        (hreads' ▸ hread)
      rw [hpr] at hstep
      exact hwait.tail hstep
  · refine .single (.waited ⟨?_, hl.time, hl.clock⟩)
    rw [hl.frame]
    rfl

/-! ## The age scan -/

omit [JsonSchema] in
theorem shrinks_terminated {s : Outbox} {cause : Cause} {key reason : PyStr}
    {source : TerminalSource} {pruned : List PyStr} {e : BatchState} :
    Shrinks s (s.terminated cause key reason source pruned e) := by
  refine ⟨id, fun k hk => ?_, le_rfl⟩
  show (pruned.foldl dropOne (sessionTerminal key source
    (s.session.update key (·.terminate reason source)))).entries.get? k = none
  rw [get?_dropAll, get?_sessionTerminal, get?_update, hk]
  split
  · rfl
  · split <;> rfl

theorem goes_expireEntry {p : TimeProvider} {scan : Scan} (hscan : scan.Of env p) {key : PyStr}
    {s : Outbox} (hopen : s.opened = true) {n : ℕ} (hread : s.clockReads = n + 1)
    (hmono : scan.mono = env.clock n) :
    Goes (Commit env op) (expireEntry env p scan key)
      (fun _ s' => Shrinks s s' ∧ s'.clockReads = s.clockReads) s := by
  unfold expireEntry
  refine Goes.bind (P := fun a s' => s = a ∧ s = s') (Goes.get ⟨rfl, rfl⟩) ?_
  rintro _ _ - ⟨rfl, rfl⟩
  split
  · exact Goes.pure ⟨Shrinks.refl s, rfl⟩
  · rename_i e hkey
    refine Goes.bind (P := fun lower s' => s = s' ∧ lowerAge scan.current e.row = .ok lower)
      (Goes.result fun lower hl => ⟨rfl, asPython_eq_ok.mp hl⟩) ?_
    · rintro lower _ - ⟨rfl, hlower⟩
      refine Goes.ite (fun hexp => ?_) fun _ => Goes.pure ⟨Shrinks.refl s, rfl⟩
      refine Goes.bind (P := fun _ s' => Later s s' ∧ s'.clockReads = s.clockReads)
        (Goes.of_waits (wp_reading (fun _ _ => ⟨later_time s, later_time s, rfl⟩)
          fun _ => later_time s)) ?_
      rintro token t - ⟨ht, hreads⟩
      have hopen' : t.opened = true := by rw [ht.frame]; exact hopen
      have hkey' : t.session.entries.get? key = some e := by rw [ht.frame]; exact hkey
      refine (goes_terminal (fun u hu => ?_) hopen' hkey').mono ?_
      · rw [expiryGuard, wp_bind, wp_gets, wp_bind]
        refine wp_reading (fun c hc => ⟨later_time u, rfl, .expired ?_, n, ?_, hmono⟩)
          fun _ => later_time u
        · exact ⟨⟨p, hscan, token, c, hc⟩, ⟨lower, hlower, hexp⟩, rfl⟩
        · rw [hu, hreads, hread]
      · rintro _ _ - ⟨t', cause, ht', hreads', rfl⟩
        exact ⟨(ht.shrinks.trans ht'.shrinks).trans shrinks_terminated, hreads'.trans hreads⟩

theorem goes_expire {s : Outbox} (hopen : s.opened = true) :
    Goes (Commit env op) (expire env) (fun _ s' => Shrinks s s') s := by
  unfold expire
  split
  · exact Goes.pure (Shrinks.refl s)
  · rename_i p hp
    refine Goes.bind (P := fun n s' => s = s' ∧ n = s.timeReads) (Goes.gets ⟨rfl, rfl⟩) ?_
    rintro _ _ - ⟨rfl, rfl⟩
    refine Goes.bind (P := fun current s' => Later s s' ∧ p.snapshot s.timeReads = .ok current)
      (Goes.of_waits (waits_reading.mono (fun _ _ h => ⟨h.1, h⟩) fun _ _ h => h)) ?_
    rintro current t - ⟨ht, hsnap⟩
    refine Goes.ite (fun hvalid => ?_) fun _ => Goes.pure ht.shrinks
    refine Goes.bind (P := fun mono s' => Shrinks s s' ∧ s'.clockReads = t.clockReads + 1 ∧
        mono = env.clock t.clockReads) ?_ ?_
    · refine Goes.of_waits ?_
      simp only [sessionClock, wp_bind, wp_gets, wp_modify, wp_pure]
      exact ⟨later_clock t, ht.shrinks.trans (later_clock t).shrinks, trivial, trivial⟩
    rintro mono t₁ - ⟨ht₁, hread, hmono⟩
    refine Goes.bind (P := fun _ s' => t₁ = s') (Goes.gets rfl) ?_
    rintro keys _ - rfl
    have hscan : Scan.Of env p ⟨s.timeReads, current, mono⟩ := ⟨hp, hsnap, hvalid⟩
    refine Goes.bind (Goes.each
      (I := fun _ s' => Shrinks s s' ∧ s'.clockReads = t.clockReads + 1)
      (fun k _ s' hs' => ?_) ⟨ht₁, hread⟩) ?_
    · exact (goes_expireEntry hscan (hs'.1.opened hopen) hs'.2 hmono).mono
        fun _ _ _ h => ⟨hs'.1.trans h.1, h.2.trans hs'.2⟩
    · rintro _ t₂ - ht₂
      exact (goes_prune (ht₂.1.opened hopen)).mono fun _ _ _ h => ht₂.1.trans h

/-! ## `enqueue` -/

theorem goes_gate {token : Option TimeToken} {s : Outbox} :
    Goes (Commit env op) (gate env token .enqueue)
      (fun current s' => Later s s' ∧ Gated env token current) s := by
  refine Goes.of_waits ?_
  unfold gate Gated
  cases env.provider with
  | none => exact ⟨Later.refl s, Later.refl s, rfl⟩
  | some p =>
      rw [wp_bind]
      exact waits_reading.mono (fun c _ h => ⟨h.1, h.1, _, c, h.2, rfl⟩) fun _ _ h => h

theorem goes_countRejected {s : Outbox} :
    Goes (Commit env op) countRejected (fun _ s' => s' = s.account fun a =>
      a.add .enqueueRejectedAttempts 1) s :=
  Goes.modify (.accounted s _) rfl

theorem goes_refuseFull {s : Outbox}
    (hop : ∃ payload now association token, op = .enqueue payload now association token) :
    Goes (Commit env op) (refuseFull env) (fun _ _ => True) s := by
  unfold refuseFull
  refine Goes.bind goes_countRejected ?_
  rintro _ _ - rfl
  refine Goes.bind (P := fun _ _ => True) ?_ fun _ _ _ _ => Goes.pure trivial
  generalize s.account _ = t
  have hlater := later_transaction t
  refine wp_repository (E := Steps env op t) (.single (.waited hlater)) ?_
  simp only [wp_modify]
  exact ⟨⟨(ReflTransGen.single (.waited hlater)).tail (.dropped _ hop), trivial⟩,
    .single (.waited hlater)⟩

omit [Footprint] in
theorem Insertion.Prepared.later {i : Insertion} {s t : Outbox} (h : i.Prepared env op s)
    (hl : Later s t) : i.Prepared env op t := by
  rw [hl.frame]
  exact ⟨h.call, h.opened, h.gated, h.valid, h.read, h.absent, h.room, h.order, h.inRange, h.staged⟩

omit [Footprint] in
theorem Insertion.Prepared.restaged {i : Insertion} {s : Outbox} (h : i.Prepared env op s)
    (fresh : Bool) (row : Row) : ∃ e,
      ({ i with entry := e } : Insertion).Prepared env op (s.onSession (restampStaged fresh i.key row)) ∧
        { e with row := row } = { i.entry with row := row } := by
  obtain ⟨e, he, hrow⟩ := restampStaged_eq h.staged
  refine ⟨e, ⟨h.call, h.opened, h.gated, h.valid, h.read, ?_, ?_, h.order, h.inRange, he⟩, hrow⟩
  · show (restampStaged fresh i.key row s.session).entries.get? i.key = none
    rw [entries_restampStaged]
    exact h.absent
  · have hroom := h.room
    simp only [full, OutboxSession.totalSize] at hroom ⊢
    show (decide (env.maxBatches ≤ (restampStaged fresh i.key row s.session).entries.items.length)
      || decide (env.maxBytes < ((restampStaged fresh i.key row s.session).entries.values.map
        (·.row.size)).sum + i.payload.length)) = false
    rw [entries_restampStaged]
    exact hroom

omit [Footprint] in
/-- A prepared batch whose transaction went through. -/
theorem Insertion.Prepared.admitted {i i' : Insertion} {s : Outbox} (h : i.Prepared env op s)
    (hsame : { i' with accepted := i.accepted, row := i.row, db := i.db } = i)
    (hguard : ∃ db, s.db.insertBatch { i.firstRow with payload := i.payload } = some db ∧
      i'.Guarded env (db.setNextOrder (i.order + 1))) : i'.Admitted env op s := by
  rw [← hsame] at h hguard
  refine ⟨⟨h.call, h.opened, h.gated, h.valid, h.read, h.absent, h.room, h.order, h.inRange,
    h.staged⟩, ?_⟩
  exact hguard

/-- The transaction of a prepared batch, before the memory follows it. -/
theorem wp_insert {i : Insertion} {fresh : Bool} {s : Outbox} (h : i.Prepared env op s) :
    wp (insert env i.token fresh i.firstRow i.payload)
      (fun row s' => ∃ t i', Steps env op s t ∧ Insertion.Admitted env op t i' ∧ row = i'.row ∧
        i'.payload = i.payload ∧ { i'.entry with row := row } = { i.entry with row := row } ∧
        s' = ({ t with db := i'.db } : Outbox).note
          (.inserted { row with payload := i.payload } i'.accepted))
      (fun _ s' => Steps env op s s') s := by
  have hlater := later_transaction s
  have hwait : Steps env op s { s with transactions := s.transactions + 1 } :=
    .single (.waited hlater)
  refine wp_repository (E := Steps env op s) hwait ?_
  simp only [wp_bind, wp_get]
  cases hins : s.db.insertBatch { i.firstRow with payload := i.payload } with
  | none => exact hwait
  | some db =>
      simp only [wp_bind, wp_modify]
      cases hp : env.provider with
      | none =>
          let i' : Insertion :=
            { i with accepted := none, row := i.firstRow, db := db.setNextOrder (i.order + 1) }
          have hguard : i'.Guarded env (db.setNextOrder (i.order + 1)) := by
            rw [Insertion.Guarded, hp]
            exact ⟨rfl, rfl, rfl⟩
          have hadm : i'.Admitted env op _ := (h.later hlater).admitted rfl ⟨db, hins, hguard⟩
          exact ⟨⟨_, i', hwait, hadm, rfl, rfl, rfl, rfl⟩, hwait⟩
      | some p =>
          rw [wp_bind]
          refine wp_accept.mono ?_ ?_
          -- Apart from the file, the guard has waited and restamped the staged row.
          · rintro ⟨row, accepted⟩ s' ⟨c, t, ht, hacc, hreq, hrow⟩
            obtain ⟨u, hu, rfl⟩ := later_onDb hlater ht
            have hwait' : Steps env op s u := .single (.waited hu)
            by_cases htrust : i.firstRow.timeTrust = .hubTrusted
            · rw [if_pos htrust] at hrow
              obtain ⟨hrow, db', hdb', rfl⟩ := hrow
              dsimp only at hacc hrow hdb'
              subst hrow
              obtain ⟨e, hprep, he⟩ := (h.later hu).restaged fresh (i.firstRow.restamp c)
              let i' : Insertion :=
                { i with entry := e, accepted := accepted, row := i.firstRow.restamp c, db := db' }
              have hguard : i'.Guarded env (db.setNextOrder (i.order + 1)) := by
                rw [Insertion.Guarded, hp]
                refine ⟨_, c, hacc, hreq, ?_⟩
                rw [if_pos (show i'.firstRow.timeTrust = .hubTrusted from htrust)]
                exact ⟨rfl, hdb'⟩
              have hins' : u.db.insertBatch { i.firstRow with payload := i.payload } = some db := by
                rw [hu.frame]
                exact hins
              have hadm : i'.Admitted env op _ := hprep.admitted rfl ⟨db, hins', hguard⟩
              have hpath := hwait'.tail (.restaged u fresh (i.firstRow.restamp c))
              exact ⟨⟨_, i', hpath, hadm, rfl, rfl, he, rfl⟩,
                steps_rollback hpath hlater hu ⟨rfl, rfl⟩ rfl⟩
            · rw [if_neg htrust] at hrow
              obtain ⟨hrow, rfl⟩ := hrow
              dsimp only at hacc hrow
              subst hrow
              let i' : Insertion := { i with
                accepted := accepted, row := i.firstRow, db := db.setNextOrder (i.order + 1) }
              have hguard : i'.Guarded env (db.setNextOrder (i.order + 1)) := by
                rw [Insertion.Guarded, hp]
                refine ⟨_, c, hacc, hreq, ?_⟩
                rw [if_neg (show ¬ i'.firstRow.timeTrust = .hubTrusted from htrust)]
                exact ⟨rfl, rfl⟩
              have hins' : u.db.insertBatch { i.firstRow with payload := i.payload } = some db := by
                rw [hu.frame]
                exact hins
              have hadm : i'.Admitted env op _ := (h.later hu).admitted rfl ⟨db, hins', hguard⟩
              exact ⟨⟨_, i', hwait', hadm, rfl, rfl, rfl, rfl⟩,
                steps_rollback hwait' hlater hu ⟨rfl, rfl⟩ rfl⟩
          · rintro e s' ⟨t, db', ht, hs'⟩
            obtain ⟨u, hu, rfl⟩ := later_onDb hlater ht
            have hwait' : Steps env op s u := .single (.waited hu)
            rcases hs' with rfl | ⟨c, rfl⟩
            · exact steps_rollback hwait' hlater hu ⟨rfl, rfl⟩ rfl
            · exact steps_rollback (hwait'.tail (.restaged u fresh (i.firstRow.restamp c))) hlater hu
                ⟨rfl, rfl⟩ rfl

theorem goes_commitStaged {i : Insertion} {fresh : Bool} {s : Outbox} (h : i.Prepared env op s) :
    Goes (Commit env op) (commitStaged env i.token fresh i.firstRow i.payload i.entry)
      (fun _ _ => True) s := by
  simp only [Goes, commitStaged, wp_bind, wp_attempt]
  refine (wp_insert h).mono ?_ fun e s' hpath => ?_
  · rintro row s' ⟨t, i', hpath, hadm, hrow, hpayload, hentry, rfl⟩
    have hstep := Commit.inserted t i' hadm
    rw [← hrow, hentry, hpayload] at hstep
    exact ⟨hpath.tail hstep, trivial⟩
  · exact hpath.tail (.accounted s' _)

theorem goes_stageBatch {i : Insertion} {s : Outbox} (hopen : s.opened = true)
    (hcall : op = .enqueue i.payload i.now i.association i.token)
    (habsent : s.session.entries.get? i.key = none) :
    Goes (Commit env op) (stageBatch env i.firstRow i.association)
      (fun r s' => ∀ entry fresh, r = some (entry, fresh) →
        s'.session.staged.get? i.key = some entry ∧
        ∃ t, s' = s.onSession fun u => { u with staged := t }) s := by
  unfold stageBatch
  refine Goes.bind (P := fun t s' => s = s' ∧ t = s.session) (Goes.gets ⟨rfl, rfl⟩) ?_
  rintro _ _ - ⟨rfl, rfl⟩
  refine Goes.bind (P := fun _ s' => s = s') (Goes.check fun _ => rfl) ?_
  rintro _ _ - rfl
  have hkey : i.firstRow.messageId = i.key := rfl
  have hknown : s.session.known? i.key = s.session.staged.get? i.key := by
    rw [OutboxSession.known?, habsent]
    rfl
  rw [hkey, OutboxSession.stage, hknown]
  cases hstaged : s.session.staged.get? i.key with
  -- An earlier call has staged the batch and left it there.
  | some old =>
      refine ⟨.refl, ?_⟩
      rintro entry fresh h
      cases h
      exact ⟨hstaged, s.session.staged, rfl⟩
  | none =>
      dsimp only
      split
      · refine ⟨.refl, ?_⟩
        rintro entry fresh h
        cases h
      · rename_i hroom
        refine ⟨.single (.staged s i.key _ hopen ⟨_, _, _, _, hcall⟩ rfl ⟨rfl, rfl, rfl⟩ (hknown.trans hstaged)
          (Bool.eq_false_iff.mpr hroom)), ?_⟩
        rintro entry fresh h
        cases h
        refine ⟨?_, _, rfl⟩
        show (s.session.staged.set i.key _).get? i.key = _
        rw [Dict.get?_set, if_pos rfl]

/-- What `enqueue` has checked when it comes to insert. -/
structure Admissible (env : OutboxEnv) (op : OutboxOp) (s : Outbox) (i : Insertion) : Prop where
  call : op = .enqueue i.payload i.now i.association i.token
  opened : s.opened = true
  gated : Gated env i.token i.current
  valid : validData env i.payload = .ok true
  read : readBatch i.payload = .ok (i.key, i.stamp)
  absent : s.session.entries.get? i.key = none
  room : full env i.payload s = false

theorem goes_admitBatch {i : Insertion} {s : Outbox} (h : Admissible env op s i) :
    Goes (Commit env op)
      (admitBatch env i.key i.stamp i.payload i.now i.association i.token i.current) (fun _ _ => True) s := by
  unfold admitBatch
  refine Goes.bind (P := fun order s' => s = s' ∧ order = s.db.info.nextOrder ∧
    1 ≤ order ∧ order < maxSafe) ?_ ?_
  · unfold nextOrder
    refine Goes.bind (P := fun order s' => s = s' ∧ order = s.db.info.nextOrder)
      (Goes.gets ⟨rfl, rfl⟩) ?_
    rintro order _ - ⟨rfl, rfl⟩
    exact Goes.bind (P := fun _ s' => s = s' ∧ 1 ≤ s.db.info.nextOrder ∧ s.db.info.nextOrder < maxSafe)
      (Goes.check fun h => ⟨rfl, h⟩) fun _ s' _ h => Goes.pure ⟨h.1, rfl, h.2⟩
  · rintro order _ - ⟨rfl, horder, hrange⟩
    let i₁ : Insertion := { i with order := order }
    refine Goes.bind (goes_stageBatch (i := i₁) h.opened h.call h.absent) ?_
    rintro r s' - hr
    rcases r with _ | ⟨entry, fresh⟩
    · exact Goes.bind goes_countRejected fun _ _ _ _ => Goes.pure trivial
    · obtain ⟨hstaged, t, rfl⟩ := hr entry fresh rfl
      exact goes_commitStaged (i := { i₁ with entry := entry }) ⟨h.call, h.opened, h.gated, h.valid,
        h.read, h.absent, h.room, horder, hrange, hstaged⟩

theorem goes_requireOpen {s : Outbox} :
    Goes (Commit env op) requireOpen (fun _ s' => s = s' ∧ s.opened = true) s := by
  refine Goes.bind (P := fun a s' => s = a ∧ s = s') (Goes.get ⟨rfl, rfl⟩) ?_
  rintro _ _ - ⟨rfl, rfl⟩
  exact Goes.check fun h => ⟨rfl, h⟩

/-- Looking at the state. -/
theorem goes_look {s : Outbox} : Goes (Commit env op) (Prog.get : OutboxM Outbox)
    (fun a s' => s = a ∧ s = s') s :=
  Goes.get ⟨rfl, rfl⟩

theorem goes_python {x : Except PyExc α} {s : Outbox} :
    Goes (Commit env op) (Prog.result (asPython x)) (fun a s' => s = s' ∧ x = .ok a) s :=
  Goes.result fun _ h => ⟨rfl, asPython_eq_ok.mp h⟩

theorem goes_enqueue {payload : Bytes} {now : Option PyNum} {association : Association}
    {token : Option TimeToken} (hop : op = .enqueue payload now association token) (s : Outbox) :
    Goes (Commit env op) (enqueue env payload now association token) (fun _ _ => True) s := by
  unfold enqueue
  refine Goes.bind goes_requireOpen ?_
  rintro _ _ - ⟨rfl, hopen⟩
  refine Goes.bind goes_gate ?_
  rintro current t - ⟨ht, hgate⟩
  refine Goes.bind goes_python ?_
  rintro valid _ - ⟨rfl, hvalid⟩
  refine Goes.bind (P := fun _ s' => t = s' ∧ valid = true) (Goes.check fun h => ⟨rfl, h⟩) ?_
  rintro _ _ - ⟨rfl, rfl⟩
  refine Goes.bind goes_python ?_
  rintro ⟨key, stamp⟩ _ - ⟨rfl, hread⟩
  refine Goes.bind goes_look ?_
  rintro _ _ - ⟨rfl, rfl⟩
  split
  -- The batch is there already.
  · refine Goes.bind goes_look ?_
    rintro _ _ - ⟨rfl, rfl⟩
    exact Goes.bind (P := fun _ _ => True) (Goes.check fun _ => trivial)
      fun _ _ _ _ => Goes.pure trivial
  · rename_i habsent
    refine Goes.bind (goes_expire (ht.shrinks.opened hopen)) ?_
    rintro _ t₁ - ht₁
    refine Goes.bind goes_look ?_
    rintro _ _ - ⟨rfl, rfl⟩
    refine Goes.ite (fun _ => goes_refuseFull ⟨_, _, _, _, hop⟩) fun hroom => ?_
    let i : Insertion :=
      { key, stamp, payload, now, association, token, current, order := 0
        entry := { row := newRow key stamp payload now 0 current }
        accepted := none, row := newRow key stamp payload now 0 current, db := {} }
    exact goes_admitBatch (i := i) ⟨hop, ht₁.opened (ht.shrinks.opened hopen), hgate, hvalid, hread,
      ht₁.absent key habsent, Bool.eq_false_iff.mpr hroom⟩

/-! ## `reserve` -/

omit [JsonSchema] [Footprint] in
/-- The time gate reads no session clock. -/
theorem wp_gate {token : Option TimeToken} {purpose : Purpose} {s : Outbox} :
    wp (gate env token purpose) (fun _ s' => Later s s' ∧ s'.clockReads = s.clockReads)
      (fun _ s' => Later s s') s := by
  unfold gate
  cases env.provider with
  | none => exact ⟨Later.refl s, rfl⟩
  | some p =>
      rw [wp_bind]
      exact wp_reading (fun _ _ => ⟨later_time s, rfl⟩) fun _ => later_time s

theorem goes_waitGate {token : Option TimeToken} {purpose : Purpose} {s : Outbox} :
    Goes (Commit env op) (gate env token purpose) (fun _ s' => Later s s') s :=
  Goes.of_waits (wp_gate.mono (fun _ _ h => ⟨h.1, h.1⟩) fun _ _ h => h)

omit [JsonSchema] [Footprint] in
theorem waits_sendable {token : Option TimeToken} {e : BatchState} {s : Outbox} :
    wp (sendable env token e) (fun _ s' => Later s s') (fun _ s' => Later s s') s := by
  unfold sendable
  cases env.provider with
  | none => exact Later.refl s
  | some p =>
      simp only [wp_bind, wp_get]
      rw [wp_ite]
      refine ⟨fun _ => ?_, fun _ => Later.refl s⟩
      rw [wp_bind]
      refine wp_reading (fun current _ => ?_) fun _ => later_time s
      simp only [wp_bind, wp_result, wp_pure]
      exact ⟨fun _ _ => later_time s, fun _ _ => later_time s⟩

omit [JsonSchema] [Footprint] in
theorem waits_eligible {token : Option TimeToken} {mono : ℚ} {entries : List BatchState}
    {s : Outbox} :
    wp (eligible env token mono entries) (fun _ s' => Later s s') (fun _ s' => Later s s') s := by
  induction entries generalizing s with
  | nil => exact Later.refl s
  | cons e rest ih =>
      rw [eligible, wp_ite]
      refine ⟨fun _ => ?_, fun _ => ih⟩
      rw [wp_bind]
      refine waits_sendable.mono (fun ok t ht => ?_) fun _ _ h => h
      rw [wp_bind]
      exact ih.mono (fun _ _ h => ht.trans h) fun _ _ h => ht.trans h

omit [JsonSchema] [Footprint] in
/-- The same, with the run that gave the result. -/
theorem waits_eligible_run {token : Option TimeToken} {mono : ℚ} {entries : List BatchState}
    {s : Outbox} :
    wp (eligible env token mono entries)
      (fun ready s' => Later s s' ∧ (eligible env token mono entries).run s = (.ok ready, s'))
      (fun _ s' => Later s s') s := by
  have h := @waits_eligible env token mono entries s
  rw [wp_iff_run] at h ⊢
  exact ⟨fun ready s' hr => ⟨h.1 ready s' hr, hr⟩, h.2⟩

omit [JsonSchema] [Footprint] in
theorem purgeRate_idem (mono : ℚ) (t : OutboxSession) :
    purgeRate mono (purgeRate mono t) = purgeRate mono t := by
  simp only [purgeRate, List.dropWhile_idempotent]

omit [JsonSchema] [Footprint] in
theorem mapValues_idem {f : BatchState → BatchState} (h : ∀ e, f (f e) = f e)
    (d : Dict PyStr BatchState) :
    OutboxSession.mapValues f (OutboxSession.mapValues f d) = OutboxSession.mapValues f d := by
  simp only [OutboxSession.mapValues, List.map_map, Function.comp_def, h]

omit [JsonSchema] [Footprint] in
theorem deactivate_idem (mono : ℚ) (t : OutboxSession) :
    deactivate mono (deactivate mono t) = deactivate mono t := by
  simp only [deactivate]
  rw [mapValues_idem]
  intro e
  by_cases h : e.active ∧ e.due ≤ mono
  · rw [if_pos h, if_neg (by simp)]
  · rw [if_neg h, if_neg h]

omit [JsonSchema] [Footprint] in
theorem purgeRate_deactivate (mono : ℚ) (t : OutboxSession) :
    purgeRate mono (deactivate mono t) = deactivate mono (purgeRate mono t) := rfl

theorem goes_attemptSend {token : Option TimeToken} {choice : ℕ → Reservation} {payload : Bytes}
    {s : Outbox} (h : (choice s.clockReads).Chosen env op s)
    (hpayload : s.db.payload (choice s.clockReads).entry.row.messageId = some payload)
    (hbytes : (s.session.rate.map (·.2)).sum + payload.length ≤ maxRateBytes) :
    Goes (Commit env op) (attemptSend env token choice payload) (fun _ _ => True) s := by
  simp only [Goes, attemptSend, wp_bind, wp_get]
  generalize choice s.clockReads = r at h hpayload ⊢
  refine wp_repository (E := Steps env op s) (.single (.waited (later_transaction s))) ?_
  simp only [wp_bind, wp_modify]
  refine wp_gate.mono (fun _ s₁ hl => ?_) fun _ s₁ hl => ?_
  · obtain ⟨hl, hreads⟩ := hl
    obtain ⟨t, ht, rfl⟩ := later_onDb (later_transaction s) hl
    have hback : Steps env op s t := .single (.waited ht)
    refine ⟨?_, steps_rollback hback (later_transaction s) ht ⟨rfl, rfl⟩ rfl⟩
    simp only [sessionClock, wp_bind, wp_gets, wp_modify, wp_pure]
    have hclock : t.clockReads = s.clockReads := hreads
    have hchosen : r.Chosen env op t := by
      rw [ht.frame, hclock]
      exact ⟨h.call, h.opened, h.entries, h.purged, h.free, h.settled, h.unsaturated, h.category,
        h.least, h.first, h.last⟩
    have hstep := Commit.attempted t r hchosen payload (by rw [ht.frame]; exact hpayload)
      (by rw [ht.frame]; exact hbytes)
    have hdb : t.db = s.db := by rw [ht.frame]
    refine ⟨hback.tail ?_, trivial⟩
    rw [Outbox.attempted, Outbox.onDb, hdb] at hstep
    exact hstep
  · obtain ⟨t, ht, rfl⟩ := later_onDb (later_transaction s) hl
    exact steps_rollback (.single (.waited ht)) (later_transaction s) ht ⟨rfl, rfl⟩ rfl

theorem goes_storedPayload {e : BatchState} {s : Outbox} :
    Goes (Commit env op) (storedPayload env e) (fun r s' => s = s' ∧
      ∀ payload, r = some payload → s.db.payload e.row.messageId = some payload ∧
        digest payload = e.row.hash) s := by
  unfold storedPayload
  refine Goes.bind goes_look ?_
  rintro _ _ - ⟨rfl, rfl⟩
  split
  · exact Goes.pure ⟨rfl, fun _ h => by cases h⟩
  · rename_i payload hpayload
    refine Goes.ite (fun hdigest => ?_) fun _ => Goes.pure ⟨rfl, fun _ h => by cases h⟩
    refine Goes.bind goes_python ?_
    rintro valid _ - ⟨rfl, -⟩
    refine Goes.pure ⟨rfl, fun p h => ?_⟩
    split at h
    · cases h
      exact ⟨hpayload, hdigest⟩
    · cases h

theorem goes_sendChosen {token : Option TimeToken} {e : BatchState} {choice : ℕ → Reservation}
    {s : Outbox} (hentry : (choice s.clockReads).entry = e)
    (h : (choice s.clockReads).Chosen env op s) :
    Goes (Commit env op) (sendChosen env token e choice) (fun _ _ => True) s := by
  unfold sendChosen
  refine Goes.bind goes_storedPayload ?_
  rintro r _ - ⟨rfl, hr⟩
  split
  · exact Goes.bind (P := fun _ _ => True) (Goes.modify (.accounted s _) trivial)
      fun _ _ _ _ => Goes.raise _
  · rename_i payload
    refine Goes.bind goes_look ?_
    rintro _ _ - ⟨rfl, rfl⟩
    refine Goes.ite (fun _ => Goes.pure trivial) fun hbytes => ?_
    refine goes_attemptSend h ?_ (not_lt.mp hbytes)
    rw [hentry]
    exact (hr payload rfl).1

theorem goes_select {token : Option TimeToken} {first : ℕ} {s : Outbox}
    (hop : op = .reserve token) (hopen : s.opened = true) (hfirst : first < s.clockReads)
    (hpurged : purgeRate (env.clock first) s.session = s.session)
    (hfree : limited (env.clock first) s.session = false)
    (hsettled : deactivate (env.clock first) s.session = s.session)
    (hroom : saturated s.session = false) :
    Goes (Commit env op) (select env token first (env.clock first)) (fun _ _ => True) s := by
  unfold select
  refine Goes.bind (P := fun entries s' => s = s' ∧ entries = s.session.entries.values)
    (Goes.gets ⟨rfl, rfl⟩) ?_
  rintro _ _ - ⟨rfl, rfl⟩
  generalize hentries : s.session.entries.values = entries
  refine Goes.bind (P := fun ready s' => Later s s' ∧
    (eligible env token (env.clock first) entries).run s = (.ok ready, s'))
    (Goes.of_waits (waits_eligible_run.mono (fun _ _ h => ⟨h.1, h⟩) fun _ _ h => h)) ?_
  rintro ready t - ⟨ht, hrun⟩
  refine Goes.bind goes_look ?_
  rintro _ _ - ⟨rfl, rfl⟩
  dsimp only
  split
  · exact Goes.pure trivial
  · rename_i e hleast
    refine goes_sendChosen rfl ?_
    -- Checking the candidates has only read clocks, so the session is that of the scan.
    have hlt := hfirst.trans_le ht.clock
    have hsession : t.session = s.session := by rw [ht.frame]
    refine ⟨⟨token, hop, s, t, hrun⟩, ?_, ?_, ?_, ?_, ?_, ?_, rfl, hleast, hlt, rfl⟩
    · rw [ht.frame]
      exact hopen
    · rw [hsession]
      exact hentries.symm
    · rw [hsession]
      exact hpurged
    · rw [hsession]
      exact hfree
    · rw [hsession]
      exact hsettled
    · rw [hsession]
      exact hroom

theorem goes_reserve {token : Option TimeToken} (hop : op = .reserve token) (s : Outbox) :
    Goes (Commit env op) (reserve env token) (fun _ _ => True) s := by
  unfold reserve
  refine Goes.bind goes_requireOpen ?_
  rintro _ _ - ⟨rfl, hopen⟩
  refine Goes.bind goes_waitGate ?_
  rintro _ t - ht
  refine Goes.bind (P := fun first s' => t = s' ∧ first = t.clockReads) (Goes.gets ⟨rfl, rfl⟩) ?_
  rintro first _ - ⟨rfl, rfl⟩
  refine Goes.bind (P := fun mono s' => Later t s' ∧ mono = env.clock t.clockReads ∧
      t.clockReads < s'.clockReads)
    (Goes.of_waits (waits_clock.mono (fun _ _ h => ⟨h.1, h⟩) fun _ _ h => h)) ?_
  rintro _ t₁ - ⟨ht₁, rfl, hlt⟩
  refine Goes.bind (goes_expire (ht₁.shrinks.opened (ht.shrinks.opened hopen))) ?_
  rintro _ t₂ - ht₂
  -- The reading from before the scan also purges the window and ends attempts.
  generalize hm : env.clock t.clockReads = mono
  refine Goes.bind (P := fun _ s' => s' = t₂.onSession (purgeRate mono)) (Goes.modify ?_ rfl) ?_
  · rw [← hm]
    exact .purged _ _ (hlt.trans_le ht₂.clock)
  rintro _ _ - rfl
  refine Goes.bind goes_look ?_
  rintro _ _ - ⟨rfl, rfl⟩
  refine Goes.ite (fun _ => Goes.pure trivial) fun hfree => ?_
  have hfirst : t.clockReads < (t₂.onSession (purgeRate mono)).clockReads := hlt.trans_le ht₂.clock
  refine Goes.bind (P := fun _ s' => s' =
    (t₂.onSession (purgeRate mono)).onSession (deactivate mono)) (Goes.modify ?_ rfl) ?_
  · rw [← hm]
    exact .deactivated _ _ (by rw [hm]; exact hfirst)
  rintro _ _ - rfl
  refine Goes.bind goes_look ?_
  rintro _ _ - ⟨rfl, rfl⟩
  refine Goes.ite (fun _ => Goes.pure trivial) fun hroom => ?_
  rw [← hm] at hfree hroom ⊢
  refine goes_select hop (ht₂.opened (ht₁.shrinks.opened (ht.shrinks.opened hopen))) ?_ ?_ ?_ ?_ ?_
  · rw [hm]
    exact hfirst
  · show purgeRate _ (deactivate _ (purgeRate _ t₂.session)) = _
    rw [purgeRate_deactivate, purgeRate_idem]
    rfl
  · exact Bool.eq_false_iff.mpr hfree
  · exact deactivate_idem _ _
  · exact Bool.eq_false_iff.mpr hroom

/-! ## `acknowledge` -/

theorem goes_acknowledgeStored {ack : Bytes} {key : PyStr} {e : BatchState} {s : Outbox}
    (hopen : s.opened = true) (hkey : s.session.entries.get? key = some e)
    (hsent : e.row.attempts ≠ 0) (h : Delivers env op ack key .stored) :
    Goes (Commit env op) (acknowledgeStored env ack key e) (fun _ _ => True) s := by
  unfold acknowledgeStored
  refine Goes.ite (fun _ => Goes.pure trivial) fun hwaits => ?_
  have hlater := later_transaction s
  simp only [Goes, wp_bind]
  refine wp_repository (E := Steps env op s) (.single (.waited hlater)) ?_
  simp only [wp_bind, wp_modify, wp_pure]
  refine ⟨⟨?_, trivial⟩, .single (.waited hlater)⟩
  exact (ReflTransGen.single (.waited hlater)).tail
    (.stored _ ack key e hopen hkey hsent (Bool.eq_false_iff.mpr hwaits) h)

theorem goes_acknowledgeRejected {ack : Bytes} {key : PyStr} {e : BatchState} {codes : List PyStr}
    {s : Outbox} (hopen : s.opened = true) (hkey : s.session.entries.get? key = some e)
    (hsent : e.row.attempts ≠ 0) (h : Delivers env op ack key (.rejected codes)) :
    Goes (Commit env op) (acknowledgeRejected env ack key e codes) (fun _ _ => True) s := by
  unfold acknowledgeRejected
  refine Goes.ite (fun _ => Goes.pure trivial) fun hlive => ?_
  refine Goes.ite (fun _ => ?_) fun hfinal => ?_
  · refine Goes.bind (P := fun mono s' => Later s s' ∧ s'.clockReads = s.clockReads + 1 ∧
        mono = env.clock s.clockReads) ?_ ?_
    · refine Goes.of_waits ?_
      simp only [sessionClock, wp_bind, wp_gets, wp_modify, wp_pure]
      exact ⟨later_clock s, later_clock s, trivial, trivial⟩
    rintro _ t - ⟨ht, hread, rfl⟩
    have hkey' : t.session.entries.get? key = some e := by rw [ht.frame]; exact hkey
    exact Goes.bind (P := fun _ _ => True)
      (Goes.modify (.retried t key e s.clockReads hread ⟨ack, codes, h⟩ hkey' hsent) trivial)
      fun _ _ _ _ => Goes.pure trivial
  · have hpending : e.row.state = .pending := by
      cases hs : e.row.state with
      | pending => rfl
      | dead => exact absurd hs hlive
    have hwhy : Rejection env op ack key e (joinCodes codes) :=
      ⟨⟨codes, h, Bool.eq_false_iff.mpr hfinal, rfl⟩, hpending, hsent⟩
    exact Goes.bind (goes_terminal (fun u _ => ⟨Later.refl u, rfl, .rejected hwhy, trivial⟩) hopen hkey)
      fun _ _ _ _ => Goes.pure trivial

theorem goes_acknowledge {ack : Bytes} (hop : op = .acknowledge ack) (s : Outbox) :
    Goes (Commit env op) (acknowledge env ack) (fun _ _ => True) s := by
  unfold acknowledge
  refine Goes.bind goes_requireOpen ?_
  rintro _ _ - ⟨rfl, hopen⟩
  refine Goes.bind goes_python ?_
  rintro issues _ - ⟨rfl, hissues⟩
  refine Goes.ite (fun hnone => ?_) fun _ => Goes.pure trivial
  subst hnone
  unfold acknowledgeValid
  refine Goes.bind goes_python ?_
  rintro ⟨key, status⟩ _ - ⟨rfl, hread⟩
  have hdelivers : Delivers env op ack key status := ⟨hop, hissues, hread⟩
  refine Goes.bind goes_look ?_
  rintro _ _ - ⟨rfl, rfl⟩
  split
  · exact Goes.pure trivial
  · rename_i e hkey
    refine Goes.ite (fun _ => Goes.pure trivial) fun hsent => ?_
    unfold acknowledgeEntry
    refine Goes.bind goes_storedPayload ?_
    rintro r _ - ⟨rfl, -⟩
    split
    · exact Goes.raise _
    · cases status with
      | stored => exact goes_acknowledgeStored hopen hkey hsent hdelivers
      | rejected codes => exact goes_acknowledgeRejected hopen hkey hsent hdelivers

/-! ## Opening -/

omit [JsonSchema] [Footprint] in
theorem mem_rows {db : Db} {b : Batch} : b ∈ db.rows ↔ b ∈ db.batches :=
  (List.perm_insertionSort _ _).mem_iff

/-- A row that the checks let through. -/
structure Checked (env : OutboxEnv) (b : Batch) (row : Row) : Prop where
  order : 1 ≤ b.localOrder ∧ b.localOrder < maxSafe
  hash : digest b.payload = b.hash
  valid : validData env b.payload = .ok true
  read : ∃ stamp, readBatch b.payload = .ok (b.messageId, stamp) ∧ row = b.row stamp
  trusted : row.timeTrust = .hubTrusted → trustedMetadata row = true

theorem goes_checkRow {b : Batch} {s : Outbox} :
    Goes (Commit env op) (checkRow env b) (fun row s' => s = s' ∧ Checked env b row) s := by
  unfold checkRow
  refine Goes.bind (P := fun _ s' => s = s' ∧ 1 ≤ b.localOrder ∧ b.localOrder < maxSafe)
    (Goes.check fun h => ⟨rfl, h⟩) ?_
  rintro _ _ - ⟨rfl, horder⟩
  refine Goes.bind (P := fun _ s' => s = s' ∧ digest b.payload = b.hash)
    (Goes.check fun h => ⟨rfl, h⟩) ?_
  rintro _ _ - ⟨rfl, hhash⟩
  refine Goes.bind goes_python ?_
  rintro valid _ - ⟨rfl, hvalid⟩
  refine Goes.bind (P := fun _ s' => s = s' ∧ valid = true) (Goes.check fun h => ⟨rfl, h⟩) ?_
  rintro _ _ - ⟨rfl, rfl⟩
  refine Goes.bind goes_python ?_
  rintro ⟨key, stamp⟩ _ - ⟨rfl, hread⟩
  refine Goes.bind (P := fun _ s' => s = s' ∧ key = b.messageId) (Goes.check fun h => ⟨rfl, h⟩) ?_
  rintro _ _ - ⟨rfl, rfl⟩
  refine Goes.bind (P := fun _ s' => s = s' ∧ ((b.row stamp).timeTrust = .hubTrusted →
    trustedMetadata (b.row stamp) = true)) (Goes.check fun h => ⟨rfl, h⟩) ?_
  rintro _ _ - ⟨rfl, htrusted⟩
  exact Goes.pure ⟨rfl, horder, hhash, hvalid, ⟨stamp, hread, rfl⟩, htrusted⟩

/-- Opening has come so far: these rows have entries. -/
structure Attached (s₀ s : Outbox) (done : List Batch) : Prop where
  db : s.db = s₀.db
  closed : s.opened = false
  all : ∀ b ∈ done, ∃ e, s.session.entries.get? b.messageId = some e

omit [JsonSchema] [Footprint] in
theorem stage_fst {sizes : ObjectSizes} {t : OutboxSession} {key : PyStr} {new e : BatchState}
    (habsent : t.entries.get? key = none) (h : (t.stage sizes key new).1 = some e) :
    t.staged.get? key = some e ∨ t.staged.get? key = none ∧ e = new := by
  have hknown : t.known? key = t.staged.get? key := by
    rw [OutboxSession.known?, habsent]
    rfl
  rw [OutboxSession.stage, hknown] at h
  cases hstaged : t.staged.get? key with
  | some old =>
      rw [hstaged] at h
      exact .inl h
  | none =>
      rw [hstaged] at h
      dsimp only at h
      split at h
      · cases h
      · cases h
        exact .inr ⟨rfl, rfl⟩

theorem goes_attachRow {b : Batch} {row : Row} {s₀ s : Outbox} {done : List Batch}
    (h : Attached s₀ s done) (hb : b ∈ s₀.db.batches) (hrow : Checked env b row) :
    Goes (Commit env op) (attachRow env row)
      (fun _ s' => Attached s₀ s' (b :: done)) s := by
  obtain ⟨stamp, hread, rfl⟩ := hrow.read
  have hb' : b ∈ s.db.batches := by rw [h.db]; exact hb
  unfold attachRow
  refine Goes.bind goes_look ?_
  rintro _ _ - ⟨rfl, rfl⟩
  split
  · rename_i e he
    refine Goes.bind (P := fun _ s' => s = s') (Goes.check fun _ => rfl) ?_
    rintro _ _ - rfl
    refine Goes.modify (.refreshed s b stamp h.closed hb' hread) ⟨h.db, h.closed, fun b' hb' => ?_⟩
    show ∃ e, (s.session.update b.messageId _).entries.get? b'.messageId = some e
    have he' : s.session.entries.get? b.messageId = some e := he
    -- The entry of `b` is updated in place, so no other entry is lost.
    rcases List.mem_cons.mp hb' with rfl | hmem
    · exact update_some he'
    · obtain ⟨e', hmem'⟩ := h.all b' hmem
      exact update_some hmem'
  · rename_i hnone
    have habsent : s.session.entries.get? b.messageId = none := hnone
    refine Goes.bind (P := fun staged s' => s = s' ∧
      staged = s.session.stage env.sizes b.messageId { row := b.row stamp }) (Goes.gets ⟨rfl, rfl⟩) ?_
    rintro staged _ - ⟨rfl, hstage⟩
    split
    · exact Goes.raise _
    · rename_i e hsome
      refine Goes.bind (P := fun mono s' => Later s s' ∧ mono = env.clock s.clockReads ∧
          s.clockReads < s'.clockReads)
        (Goes.of_waits (waits_clock.mono (fun _ _ h => ⟨h.1, h⟩) fun _ _ h => h)) ?_
      rintro _ t - ⟨ht, rfl, hlt⟩
      -- What is staged under the id if there is something, and else a new entry.
      have hentry : s.session.staged.get? b.messageId = some e ∨
          s.session.staged.get? b.messageId = none ∧ e = { row := b.row stamp } := by
        rw [hstage] at hsome
        exact stage_fst habsent hsome
      have hstep := @Commit.attached _ _ env op t b stamp e s.clockReads
        (by rw [ht.frame]; exact h.closed) (by rw [ht.frame]; exact hb') hread
        (by rw [ht.frame]; exact habsent) (by rw [ht.frame]; exact hentry) hlt
      simp only [Goes, wp_bind, wp_modify]
      refine ⟨.single hstep, ?_⟩
      refine ⟨?_, ?_, fun b' hb' => ?_⟩
      · rw [ht.frame]
        exact h.db
      · rw [ht.frame]
        exact h.closed
      · show ∃ e', (t.session.entries.set b.messageId _).get? b'.messageId = some e'
        rw [Dict.get?_set]
        split
        · exact ⟨_, rfl⟩
        · rename_i hne
          rcases List.mem_cons.mp hb' with rfl | hmem
          · exact absurd rfl hne
          · rw [ht.frame]
            exact h.all b' hmem

theorem goes_attachRows {count size : ℕ} {rows done : List Batch} {s₀ s : Outbox}
    (h : Attached s₀ s done) (hrows : ∀ b ∈ rows, b ∈ s₀.db.batches) :
    Goes (Commit env op) (attachRows env count size rows)
      (fun _ s' => ∃ done', Attached s₀ s' done' ∧ ∀ b, b ∈ rows ∨ b ∈ done → b ∈ done') s := by
  induction rows generalizing count size done s with
  | nil => exact Goes.pure ⟨done, h, fun b hb => hb.resolve_left List.not_mem_nil⟩
  | cons b rest ih =>
      unfold attachRows
      refine Goes.bind goes_checkRow ?_
      rintro row _ - ⟨rfl, hrow⟩
      refine Goes.bind (P := fun _ s' => s = s') (Goes.check fun _ => rfl) ?_
      rintro _ _ - rfl
      refine Goes.bind (goes_attachRow h (hrows b List.mem_cons_self) hrow) ?_
      rintro _ s₁ - h₁
      refine (ih h₁ fun b' hb' => hrows b' (List.mem_cons_of_mem _ hb')).mono ?_
      rintro _ _ - ⟨done', h', hall⟩
      refine ⟨done', h', fun b' hb' => hall b' ?_⟩
      rcases hb' with hb' | hb'
      · rcases List.mem_cons.mp hb' with rfl | hmem
        · exact .inr List.mem_cons_self
        · exact .inl hmem
      · exact .inr (List.mem_cons_of_mem _ hb')

theorem goes_openStore (hop : op = .reopen ∨ ∃ b r a, op = .restart b r a) (s : Outbox) :
    Goes (Commit env op) (openStore env) (fun _ _ => True) s := by
  unfold openStore
  refine Goes.bind (P := fun _ _ => True) (Goes.gets trivial) ?_
  rintro existed s - -
  refine Goes.bind (Goes.modify (.reopened s hop) (Q := fun _ s' =>
    s' = { s with opened := false, created := true }) rfl) ?_
  rintro _ _ - rfl
  refine Goes.bind (P := fun _ s' => s'.opened = false)
    (Goes.ite (fun _ => Goes.modify (.accounted _ _) rfl) fun _ => Goes.pure rfl) ?_
  rintro _ s₁ - hclosed
  refine Goes.bind (P := fun _ s' => Later s₁ s') ?_ ?_
  · have hlater := later_transaction s₁
    exact wp_repository (E := Steps env op s₁) (.single (.waited hlater))
      ⟨⟨.single (.waited hlater), hlater⟩, .single (.waited hlater)⟩
  rintro _ s₂ - hl
  refine Goes.bind (P := fun rows s' => s₂ = s' ∧ rows = s₂.db.rows) (Goes.gets ⟨rfl, rfl⟩) ?_
  rintro _ _ - ⟨rfl, rfl⟩
  -- `Attached` carries the loop: the table stays, and the rows done have their entries.
  have hstart : Attached s₂ s₂ [] := by
    refine ⟨rfl, ?_, fun b hb => absurd hb List.not_mem_nil⟩
    rw [hl.frame]
    exact hclosed
  refine Goes.bind (goes_attachRows hstart fun b hb => mem_rows.mp hb) ?_
  rintro _ s₃ - ⟨done, h₃, hdone⟩
  refine Goes.bind (P := fun _ s' => s₃ = s') (Goes.gets rfl) ?_
  rintro keys _ - rfl
  refine Goes.bind (P := fun _ s' => s₃ = s') (Goes.check fun _ => rfl) ?_
  rintro _ _ - rfl
  refine Goes.bind goes_look ?_
  rintro _ _ - ⟨rfl, rfl⟩
  refine Goes.bind (P := fun _ s' => s₃ = s' ∧ s₃.session.deadCount ≤ env.maxDead)
    (Goes.check fun h => ⟨rfl, h⟩) ?_
  rintro _ _ - ⟨rfl, hdead⟩
  refine Goes.modify (.opened s₃ (fun b hb => ?_) hdead) trivial
  rw [h₃.db] at hb
  exact h₃.all b (hdone b (.inl (mem_rows.mpr hb)))

/-! ## Operations -/

/-- An operation only makes the steps of `Commit`. -/
theorem exec_goes (op : OutboxOp) (s : Outbox) :
    Goes (Commit env op) (op.exec env) (fun _ _ => True) s := by
  cases op with
  | enqueue payload now association token =>
      exact Goes.bind (goes_enqueue rfl s) fun _ _ _ _ => Goes.pure trivial
  | reserve token => exact Goes.bind (goes_reserve rfl s) fun _ _ _ _ => Goes.pure trivial
  | submissionFailed key =>
      exact Goes.bind (P := fun _ _ => True) (Goes.modify (.sdkRejected s key rfl) trivial)
        fun _ _ _ _ => Goes.pure trivial
  | acknowledge ack => exact Goes.bind (goes_acknowledge rfl s) fun _ _ _ _ => Goes.pure trivial
  | openGate watermark =>
      exact Goes.bind (P := fun _ _ => True) (Goes.modify (.gated s watermark rfl) trivial)
        fun _ _ _ _ => Goes.pure trivial
  | resetInflight => exact Goes.pure trivial
  | close =>
      exact Goes.bind (P := fun _ _ => True) (Goes.modify (.closed s) trivial)
        fun _ _ _ _ => Goes.pure trivial
  | reopen => exact Goes.bind (goes_openStore (.inl rfl) s) fun _ _ _ _ => Goes.pure trivial
  | restart maxBytes maxRecords accounting =>
      refine Goes.bind (P := fun _ _ => True) ?_ fun _ _ _ _ => Goes.pure trivial
      unfold restartIn
      exact Goes.bind (P := fun _ _ => True)
        (Goes.modify (.restarted s maxBytes maxRecords accounting rfl) trivial)
        fun _ s' _ _ => goes_openStore (.inr ⟨_, _, _, rfl⟩) s'

end Rules

end PlcnextIot.Storage
