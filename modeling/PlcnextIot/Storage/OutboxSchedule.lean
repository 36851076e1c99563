/-
  PlcnextIot.Storage.OutboxSchedule

  The send schedule of a process: how often it sends, how many attempts are
  active, when a batch is sent again, and which batch goes first.

  `commit_kinds` says what a step can do to the schedule: it is a reservation,
  the start of a process, or `Quiet`.  The limits are kept by the three.
-/

import PlcnextIot.Effect.Spacing
import PlcnextIot.Storage.OutboxOrder

namespace PlcnextIot.Storage

open PlcnextIot.Python PlcnextIot.Contracts PlcnextIot.Config PlcnextIot.Reporting
open PlcnextIot.Core PlcnextIot.Effect PlcnextIot.Effect.Prog Relation

/-! ## Reservations -/

/-- The reservation of a change. -/
def Change.reservation? : Change → Option Reservation
  | .attempted r => some r
  | _ => none

/-- The reservations of some changes, in order. -/
def reserved (journal : List Change) : List Reservation := journal.filterMap Change.reservation?

theorem reserved_append (j j' : List Change) : reserved (j ++ j') = reserved j ++ reserved j' :=
  List.filterMap_append

/-- The reservations of the present process. -/
def reservations (s : Outbox) : List Reservation := reserved (s.journal.drop s.started)

/-- When a reservation was made. -/
def Reservation.time (env : OutboxEnv) (r : Reservation) : ℚ := env.clock r.last

/-- How long its batch then waits. -/
def Reservation.wait (r : Reservation) : ℚ := if r.entry.nextAttempt = 1 then 30000 else 60000

/-- When the reservations of the process were made. -/
def sendTimes (env : OutboxEnv) (s : Outbox) : List ℚ := (reservations s).map (·.time env)

/-- A process begins. -/
def Outbox.renewed (maxBytes : ℤ) (maxRecords : ℕ) (accounting : Option (Accounting × ℤ))
    (s : Outbox) : Outbox :=
  { s with
    session := .create maxBytes maxRecords accounting, opened := false
    started := s.journal.length }

section Steps

variable {env : OutboxEnv} {op : OutboxOp}

/-! ## What a step can do -/

/-- The call answers an attempt of the key: the SDK or the receiver rejects it. -/
def OutboxOp.Answers (op : OutboxOp) (key : PyStr) : Prop :=
  op = .submissionFailed key ∨
    ∃ ack codes, op = .acknowledge ack ∧ readAck ack = .ok (key, .rejected codes)

/-- The entry of a key keeps its deadline, and an attempt stays open until the
    deadline, an answer or the end of the batch. -/
structure Kept (env : OutboxEnv) (op : OutboxOp) (s' : Outbox) (k : PyStr) (e e' : BatchState) :
    Prop where
  due : e'.due = e.due
  active : e'.active = true → e.active = true
  sent : e'.row.attempts = e.row.attempts
  category : e'.category = e.category ∨ ∃ w, op = .openGate w
  still : e.active = true → e'.active = true ∨ (∃ n < s'.clockReads, e.due ≤ env.clock n) ∨
    e'.row.state = .dead ∨ op.Answers k
  dead : e.row.state = .dead → e'.row.state = .dead

theorem Kept.refl {s' : Outbox} {k : PyStr} (e : BatchState) : Kept env op s' k e e :=
  ⟨rfl, id, rfl, .inl rfl, .inl, id⟩

/-- What a step without a reservation makes of the entry of a key. -/
inductive Turn (env : OutboxEnv) (op : OutboxOp) (s' : Outbox) (k : PyStr) :
    Option BatchState → Option BatchState → Prop
  | absent : Turn env op s' k none none
  | taken {e' : BatchState} (hidle : e'.active = false)
      (hlate : e'.row.attempts ≠ 0 → ∃ n < s'.clockReads, e'.due ≤ env.clock n + 60000) :
      Turn env op s' k none (some e')
  | gone {e : BatchState} (h : ∀ b ∈ s'.db.batches, b.messageId ≠ k) :
      Turn env op s' k (some e) none
  | kept {e e' : BatchState} (h : Kept env op s' k e e') : Turn env op s' k (some e) (some e')
  | delayed {e e' : BatchState} {n : ℕ} (hsent : e.row.attempts ≠ 0) (hlast : s'.clockReads = n + 1)
      (hdue : e'.due = env.clock n + 60000) (hidle : e'.active = false) (hanswer : op.Answers k)
      (hdead : e.row.state = .dead → e'.row.state = .dead) : Turn env op s' k (some e) (some e')

theorem Turn.same {s' : Outbox} {k : PyStr} (o : Option BatchState) : Turn env op s' k o o := by
  cases o with
  | none => exact .absent
  | some e => exact .kept (.refl e)

/-- A step without a reservation, within a process. -/
structure Quiet (env : OutboxEnv) (op : OutboxOp) (s s' : Outbox) : Prop where
  started : s'.started = s.started
  journal : ∃ more, s'.journal = s.journal ++ more ∧ reserved more = []
  clock : s.clockReads ≤ s'.clockReads
  limits : s'.session.nextSend = s.session.nextSend ∧ s'.session.preferNew = s.session.preferNew
  rate : ∃ old, s.session.rate = old ++ s'.session.rate ∧
    ∀ x ∈ old, ∃ n < s.clockReads, x.1 + 1000 ≤ env.clock n
  next : s.db.info.nextOrder ≤ s'.db.info.nextOrder
  rows : ∀ b' ∈ s'.db.batches, (∃ b ∈ s.db.batches, b.fixed = b'.fixed ∧ b.attempts = b'.attempts) ∨
    s.db.info.nextOrder ≤ b'.localOrder ∧ b'.attempts = 0
  turns : ∀ k, Turn env op s' k (s.session.entries.get? k) (s'.session.entries.get? k)

/-- Neither the file nor the schedule changes, apart from the entries. -/
theorem Quiet.of_turns {s s' : Outbox} (hstarted : s'.started = s.started)
    (hjournal : s'.journal = s.journal) (hclock : s.clockReads ≤ s'.clockReads)
    (hlimits : s'.session.nextSend = s.session.nextSend ∧
      s'.session.preferNew = s.session.preferNew ∧ s'.session.rate = s.session.rate)
    (hdb : s'.db.batches = s.db.batches ∧ s'.db.info.nextOrder = s.db.info.nextOrder)
    (hturns : ∀ k, Turn env op s' k (s.session.entries.get? k) (s'.session.entries.get? k)) :
    Quiet env op s s' where
  started := hstarted
  journal := ⟨[], by rw [hjournal, List.append_nil], rfl⟩
  clock := hclock
  limits := ⟨hlimits.1, hlimits.2.1⟩
  rate := ⟨[], by rw [hlimits.2.2]; rfl, fun _ h => absurd h List.not_mem_nil⟩
  next := hdb.2.ge
  rows b hb := .inl ⟨b, hdb.1 ▸ hb, rfl, rfl⟩
  turns := hturns

theorem Quiet.of_entries {s s' : Outbox} (hstarted : s'.started = s.started)
    (hjournal : s'.journal = s.journal) (hclock : s.clockReads ≤ s'.clockReads)
    (hlimits : s'.session.nextSend = s.session.nextSend ∧
      s'.session.preferNew = s.session.preferNew ∧ s'.session.rate = s.session.rate)
    (hdb : s'.db.batches = s.db.batches ∧ s'.db.info.nextOrder = s.db.info.nextOrder)
    (hentries : s'.session.entries = s.session.entries) : Quiet env op s s' :=
  .of_turns hstarted hjournal hclock hlimits hdb fun k => by rw [hentries]; exact .same _

theorem update_frame (t : OutboxSession) (key : PyStr) (f : BatchState → BatchState) :
    t.update key f = { t with entries := (t.update key f).entries } := by
  unfold OutboxSession.update
  split <;> rfl

theorem staged_update (t : OutboxSession) (key : PyStr) (f : BatchState → BatchState) :
    (t.update key f).staged = t.staged := congrArg (·.staged) (update_frame t key f)

/-- An entry is updated, not its deadline. -/
theorem Quiet.of_update {s : Outbox} {key : PyStr} {f : BatchState → BatchState}
    (h : ∀ e, s.session.entries.get? key = some e → ∀ s' : Outbox, Kept env op s' key e (f e)) :
    Quiet env op s (s.onSession (·.update key f)) := by
  have hframe := update_frame s.session key f
  refine .of_turns rfl rfl le_rfl ⟨?_, ?_, ?_⟩ ⟨rfl, rfl⟩ fun k => ?_
  · exact congrArg (·.nextSend) hframe
  · exact congrArg (·.preferNew) hframe
  · exact congrArg (·.rate) hframe
  · show Turn env op _ k _ ((s.session.update key f).entries.get? k)
    rw [get?_update]
    by_cases hk : k = key
    · subst hk
      rw [if_pos rfl]
      cases he : s.session.entries.get? k with
      | none => exact .absent
      | some e => exact .kept (h e he _)
    · rw [if_neg hk]
      exact .same _

/-- An entry goes with its row. -/
theorem Quiet.of_remove {s s' : Outbox} {key : PyStr} {c : Change}
    (hstarted : s'.started = s.started) (hjournal : s'.journal = s.journal ++ [c])
    (hc : c.reservation? = none) (hclock : s'.clockReads = s.clockReads)
    (hlimits : s'.session.nextSend = s.session.nextSend ∧
      s'.session.preferNew = s.session.preferNew ∧ s'.session.rate = s.session.rate)
    (hrows : s'.db.batches = s.db.batches.filter (·.messageId ≠ key))
    (hnext : s'.db.info.nextOrder = s.db.info.nextOrder)
    (hentries : s'.session.entries = s.session.entries.erase key) : Quiet env op s s' := by
  refine ⟨hstarted, ⟨[c], hjournal, ?_⟩, hclock.ge, ⟨hlimits.1, hlimits.2.1⟩, ⟨[], ?_, ?_⟩, hnext.ge,
    fun b hb => ?_, fun k => ?_⟩
  · simp [reserved, hc]
  · rw [hlimits.2.2]
    rfl
  · exact fun _ h => absurd h List.not_mem_nil
  · rw [hrows] at hb
    exact .inl ⟨b, (List.mem_filter.mp hb).1, rfl, rfl⟩
  · rw [hentries, Dict.get?_erase]
    by_cases hk : k = key
    · rw [if_pos hk]
      cases s.session.entries.get? k with
      | none => exact .absent
      | some e =>
          refine .gone fun b hb hbk => ?_
          rw [hrows] at hb
          exact of_decide_eq_true (List.mem_filter.mp hb).2 (hbk.trans hk)
    · rw [if_neg hk]
      exact .same _

/-! ## The limits -/

/-- The batch of this key and order, while it is in the table, is not due before. -/
def Held (s : Outbox) (key : PyStr) (order : ℤ) (due : ℚ) : Prop :=
  order < s.db.info.nextOrder ∧ ∀ b ∈ s.db.batches, b.messageId = key → b.localOrder = order →
    ∃ e, s.session.entries.get? key = some e ∧ due ≤ e.due

/-- Two reservations of one batch. -/
def Reservation.SameBatch (a b : Reservation) : Prop :=
  a.entry.row.messageId = b.entry.row.messageId ∧ a.entry.row.localOrder = b.entry.row.localOrder

/-- Both classes have an eligible entry. -/
def Reservation.Both (r : Reservation) : Prop := ∀ c, candidates r.entries r.ready c ≠ []

/-- The choice of a reservation: among the entries that `eligible` returned, one of
    least order of its class, which has at most six active entries. -/
structure Reservation.Fair (env : OutboxEnv) (r : Reservation) : Prop where
  eligible : ∃ token s₀ s₁,
    (eligible env token (env.clock r.first) r.entries).run s₀ = (.ok r.ready, s₁)
  class_free : activeOf r.entries r.category < 7
  chosen : r.entry ∈ r.ready ∧ r.entry.category = r.category
  oldest : ∀ e ∈ candidates r.entries r.ready r.category,
    r.entry.row.localOrder ≤ e.row.localOrder

/-- The limits of a process. -/
structure Paced (env : OutboxEnv) (s : Outbox) : Prop where
  begun : s.started ≤ s.journal.length
  quarter : Spaced 1 250 (sendTimes env s)
  second : Spaced 4 1000 (sendTimes env s)
  next : ∀ t ∈ sendTimes env s, t + 250 ≤ s.session.nextSend
  rate : ∃ old, sendTimes env s = old ++ s.session.rate.map (·.1) ∧
    ∀ t ∈ old, ∃ n < s.clockReads, t + 1000 ≤ env.clock n
  prefer : ∀ r, (reservations s).getLast? = some r →
    s.session.preferNew = decide (r.category ≠ .new)
  classes : (reservations s).IsChain fun a b => a.Both → b.Both → a.category ≠ b.category
  fair : ∀ r ∈ reservations s, r.Fair env
  late : ∀ k e, s.session.entries.get? k = some e → e.row.attempts ≠ 0 →
    ∃ n < s.clockReads, e.due ≤ env.clock n + 60000
  held : ∀ r ∈ reservations s,
    Held s r.entry.row.messageId r.entry.row.localOrder (r.time env + r.wait)
  again : (reservations s).Pairwise fun a b => a.SameBatch b → a.time env + a.wait ≤ b.time env
  active : s.session.entries.values.countP (·.active) ≤ 8

/-- A process begins with no reservation. -/
theorem paced_renewed (s : Outbox) (maxBytes : ℤ) (maxRecords : ℕ)
    (accounting : Option (Accounting × ℤ)) : Paced env (s.renewed maxBytes maxRecords accounting) := by
  have hnone : reservations (s.renewed maxBytes maxRecords accounting) = [] := by
    show reserved (s.journal.drop s.journal.length) = []
    rw [List.drop_length]
    rfl
  have htimes : sendTimes env (s.renewed maxBytes maxRecords accounting) = [] := by
    rw [sendTimes, hnone]
    rfl
  refine ⟨le_rfl, ?_, ?_, ?_, ⟨[], ?_, ?_⟩, ?_, ?_, ?_, ?_, ?_, ?_, Nat.zero_le _⟩
  · rw [htimes]
    exact .nil
  · rw [htimes]
    exact .nil
  · rw [htimes]
    exact fun _ h => absurd h List.not_mem_nil
  · rw [htimes]
    rfl
  · exact fun _ h => absurd h List.not_mem_nil
  · rw [hnone]
    exact fun _ h => by cases h
  · rw [hnone]
    exact .nil
  · rw [hnone]
    exact fun _ h => absurd h List.not_mem_nil
  · exact fun k e he => by cases he
  · rw [hnone]
    exact fun _ h => absurd h List.not_mem_nil
  · rw [hnone]
    exact .nil

section Quiet

variable {s s' : Outbox}

theorem Quiet.reservations_eq (hq : Quiet env op s s') (hbegun : s.started ≤ s.journal.length) :
    reservations s' = reservations s := by
  obtain ⟨more, hmore, hnone⟩ := hq.journal
  rw [reservations, hq.started, hmore, List.drop_append_of_le_length hbegun, reserved_append, hnone,
    List.append_nil]
  rfl

/-- A step without a reservation does not bring a batch forward. -/
theorem Quiet.held (hq : Quiet env op s s') (hmono : Monotone env.clock)
    (hlate : ∀ k e, s.session.entries.get? k = some e → e.row.attempts ≠ 0 →
      ∃ n < s.clockReads, e.due ≤ env.clock n + 60000) {key : PyStr} {order : ℤ} {due : ℚ}
    (h : Held s key order due) : Held s' key order due := by
  obtain ⟨hnext, hrows⟩ := h
  refine ⟨hnext.trans_le hq.next, fun b' hb' hkey horder => ?_⟩
  rcases hq.rows b' hb' with ⟨b, hb, hfix, -⟩ | ⟨hnew, -⟩
  · obtain ⟨e, he, hdue⟩ := hrows b hb ((messageId_of_fixed hfix).trans hkey)
      ((localOrder_of_fixed hfix).trans horder)
    have hturn := hq.turns key
    rw [he] at hturn
    generalize hget : s'.session.entries.get? key = o at hturn
    cases hturn with
    | gone hgone => exact absurd hkey (hgone b' hb')
    | kept hkept => exact ⟨_, rfl, hdue.trans hkept.due.ge⟩
    | delayed hsent hlast hnew =>
        obtain ⟨m, hm, hle⟩ := hlate key e he hsent
        refine ⟨_, rfl, hdue.trans (hle.trans ?_)⟩
        rw [hnew]
        have := hmono (Nat.lt_succ_iff.mp (hlast ▸ hm.trans_le hq.clock))
        linarith
  · omega

theorem paced_quiet (hq : Quiet env op s s') (hmono : Monotone env.clock) (h : Paced env s) :
    Paced env s' := by
  -- No reservation is added, so only what is said of the entries may change.
  have hsame := hq.reservations_eq h.begun
  have htimes : sendTimes env s' = sendTimes env s := by rw [sendTimes, hsame, sendTimes]
  refine ⟨?_, ?_, ?_, ?_, ?_, ?_, ?_, ?_, ?_, ?_, ?_, ?_⟩
  · obtain ⟨more, hmore, -⟩ := hq.journal
    rw [hq.started, hmore, List.length_append]
    exact h.begun.trans (Nat.le_add_right _ _)
  · rw [htimes]
    exact h.quarter
  · rw [htimes]
    exact h.second
  · rw [htimes, hq.limits.1]
    exact h.next
  · obtain ⟨old, hold, hage⟩ := h.rate
    obtain ⟨gone, hgone, hage'⟩ := hq.rate
    refine ⟨old ++ gone.map (·.1), ?_, fun t ht => ?_⟩
    · rw [htimes, hold, hgone, List.map_append, List.append_assoc]
    · rcases List.mem_append.mp ht with ht | ht
      · obtain ⟨n, hn, hle⟩ := hage t ht
        exact ⟨n, hn.trans_le hq.clock, hle⟩
      · obtain ⟨x, hx, rfl⟩ := List.mem_map.mp ht
        obtain ⟨n, hn, hle⟩ := hage' x hx
        exact ⟨n, hn.trans_le hq.clock, hle⟩
  · rw [hsame, hq.limits.2]
    exact h.prefer
  · rw [hsame]
    exact h.classes
  · rw [hsame]
    exact h.fair
  · intro k e' he' hsent
    have hturn := hq.turns k
    rw [he'] at hturn
    generalize hget : s.session.entries.get? k = o at hturn
    cases hturn with
    -- A batch that was sent before comes due behind a reading taken so far.
    | taken hidle hlate => exact hlate hsent
    | kept hkept =>
        obtain ⟨n, hn, hle⟩ := h.late k _ hget (hkept.sent ▸ hsent)
        exact ⟨n, hn.trans_le hq.clock, hkept.due ▸ hle⟩
    | delayed hold hlast hdue hidle => exact ⟨_, hlast ▸ Nat.lt_succ_self _, hdue.le⟩
  · rw [hsame]
    exact fun r hr => hq.held hmono h.late (h.held r hr)
  · rw [hsame]
    exact h.again
  · refine (Dict.countP_values_le (l := []) fun k e' he' hactive => .inr ?_).trans
      ((Nat.zero_add _).le.trans h.active)
    have hturn := hq.turns k
    rw [he'] at hturn
    generalize hget : s.session.entries.get? k = o at hturn
    cases hturn with
    | taken hidle hlate => rw [hidle] at hactive; cases hactive
    | kept hkept => exact ⟨_, rfl, hkept.active hactive⟩
    | delayed hold hlast hdue hidle => rw [hidle] at hactive; cases hactive

end Quiet

end Steps

/-! ## The choice of a reservation -/

section Choice

variable {env : OutboxEnv}

/-- What is eligible is idle and due. -/
theorem wp_eligible {token : Option TimeToken} {mono : ℚ} {entries : List BatchState} {s : Outbox} :
    wp (eligible env token mono entries)
      (fun ready _ => ∀ e ∈ ready, e ∈ entries ∧ e.ready mono = true) (fun _ _ => True) s := by
  induction entries generalizing s with
  | nil => exact fun _ h => absurd h List.not_mem_nil
  | cons e rest ih =>
      rw [eligible, wp_ite]
      refine ⟨fun hready => ?_, fun _ => ?_⟩
      · rw [wp_bind]
        refine wp.mono (wp_of_forall (Q := fun _ _ => True) (E := fun _ _ => True)
          (fun _ _ => trivial) fun _ _ => trivial) (fun ok t _ => ?_) fun _ _ h => h
        rw [wp_bind]
        refine ih.mono (fun more u hmore => ?_) fun _ _ h => h
        intro f hf
        have hcons : f = e ∨ f ∈ more := by
          cases ok with
          | true => exact List.mem_cons.mp hf
          | false => exact .inr hf
        rcases hcons with rfl | hf
        · exact ⟨List.mem_cons_self, hready⟩
        · exact ⟨List.mem_cons_of_mem _ (hmore f hf).1, (hmore f hf).2⟩
      · exact ih.mono (fun more u hmore f hf => ⟨List.mem_cons_of_mem _ (hmore f hf).1,
          (hmore f hf).2⟩) fun _ _ h => h

theorem mem_candidates {entries ready : List BatchState} {c : Category} {e : BatchState} :
    e ∈ candidates entries ready c ↔ activeOf entries c < 7 ∧ e ∈ ready ∧ e.category = c := by
  unfold candidates
  split
  · simp_all
  · simp_all

theorem leastOrder_eq_some {l : List BatchState} {e : BatchState} (h : leastOrder l = some e) :
    e ∈ l ∧ ∀ f ∈ l, e.row.localOrder ≤ f.row.localOrder := by
  induction l generalizing e with
  | nil => cases h
  | cons a rest ih =>
      rw [leastOrder] at h
      cases hrest : leastOrder rest with
      | none =>
          rw [hrest] at h
          cases h
          -- A list with an element has a least one.
          have hnil : rest = [] := by
            cases rest with
            | nil => rfl
            | cons b more =>
                rw [leastOrder] at hrest
                split at hrest
                · cases hrest
                · split at hrest <;> cases hrest
          rw [hnil]
          refine ⟨List.mem_cons_self, fun f hf => ?_⟩
          rw [List.mem_singleton.mp hf]
      | some b =>
          rw [hrest] at h
          obtain ⟨hb, hleast⟩ := ih hrest
          dsimp only at h
          split at h
          · rename_i hlt
            cases h
            refine ⟨List.mem_cons_of_mem _ hb, fun f hf => ?_⟩
            rcases List.mem_cons.mp hf with rfl | hf
            · exact hlt.le
            · exact hleast f hf
          · rename_i hle
            cases h
            refine ⟨List.mem_cons_self, fun f hf => ?_⟩
            rcases List.mem_cons.mp hf with rfl | hf
            · exact le_rfl
            · exact (not_lt.mp hle).trans (hleast f hf)

/-- With candidates of both classes, the preferred class goes first. -/
theorem pickCategory_both {prefer : Bool} {entries ready : List BatchState}
    (h : ∀ c, candidates entries ready c ≠ []) :
    pickCategory prefer entries ready = if prefer then .new else .history := by
  unfold pickCategory
  dsimp only
  rw [if_neg]
  rw [List.isEmpty_iff]
  exact h _

end Choice

/-! ## Steps -/

/-- The state after a reservation. -/
def Outbox.reserve [Footprint] (env : OutboxEnv) (size : ℕ) (r : Reservation) (s : Outbox) : Outbox :=
  ({ s with clockReads := s.clockReads + 1 } : Outbox).attempted (env.clock s.clockReads) size r

section Schedule

variable [JsonSchema] [Footprint] {env : OutboxEnv} {op : OutboxOp}

omit [JsonSchema] in
theorem terminateSession_frame (t : OutboxSession) (key reason : PyStr) (source : TerminalSource)
    (pruned : List PyStr) :
    ((terminateSession key reason source pruned t).nextSend = t.nextSend ∧
      (terminateSession key reason source pruned t).preferNew = t.preferNew ∧
      (terminateSession key reason source pruned t).rate = t.rate) := by
  have hdrop : ∀ (u : OutboxSession) (k : PyStr), (dropOne u k).nextSend = u.nextSend ∧
      (dropOne u k).preferNew = u.preferNew ∧ (dropOne u k).rate = u.rate := fun u k => by
    unfold dropOne
    split <;> exact ⟨rfl, rfl, rfl⟩
  unfold terminateSession
  induction pruned using List.reverseRecOn with
  | nil =>
      have hupdate := update_frame t key (·.terminate reason source)
      have hend : ∀ u : OutboxSession, (sessionTerminal key source u).nextSend = u.nextSend ∧
          (sessionTerminal key source u).preferNew = u.preferNew ∧
          (sessionTerminal key source u).rate = u.rate := fun u => by
        unfold sessionTerminal
        split
        · exact ⟨rfl, rfl, rfl⟩
        · split <;> exact ⟨rfl, rfl, rfl⟩
      obtain ⟨h1, h2, h3⟩ := hend (t.update key (·.terminate reason source))
      exact ⟨h1.trans (congrArg (·.nextSend) hupdate), h2.trans (congrArg (·.preferNew) hupdate),
        h3.trans (congrArg (·.rate) hupdate)⟩
  | append_singleton keys k ih =>
      rw [List.foldl_append]
      obtain ⟨h1, h2, h3⟩ := hdrop (keys.foldl dropOne
        (sessionTerminal key source (t.update key (·.terminate reason source)))) k
      exact ⟨h1.trans ih.1, h2.trans ih.2.1, h3.trans ih.2.2⟩

/-- What is staged was never sent. -/
def StagedIdle (s : Outbox) : Prop :=
  ∀ k e, s.session.staged.get? k = some e → e.active = false

omit [Footprint] in
theorem quiet_inserted {s : Outbox} {i : Insertion} (hi : i.Admitted env op s)
    (hidle : StagedIdle s) :
    Quiet env op s (s.inserted i.db i.accepted i.row i.payload { i.entry with row := i.row }) := by
  have hins := hi.inserts
  obtain ⟨utc, error, hrow⟩ := hins.row
  refine ⟨rfl, ⟨_, rfl, rfl⟩, le_rfl, ⟨rfl, rfl⟩, ⟨[], rfl, fun _ h => absurd h List.not_mem_nil⟩,
    (hins.grows hi.order).next, fun b hb => ?_, fun k => ?_⟩
  · have hb : b ∈ i.db.batches := hb
    rw [hins.batches] at hb
    rcases List.mem_append.mp hb with hb | hb
    · exact .inl ⟨b, hb, rfl, rfl⟩
    · rw [List.mem_singleton.mp hb, Insertion.batch, hrow]
      exact .inr ⟨hi.order.ge, rfl⟩
  · show Turn env op _ k _ ((s.session.entries.set i.row.messageId _).get? k)
    rw [Dict.get?_set]
    have hkey : i.row.messageId = i.key := by rw [hrow]; rfl
    by_cases hk : k = i.row.messageId
    · rw [if_pos hk, hk, hkey, hi.absent]
      have hnew : i.entry.active = false := hidle _ _ hi.staged
      refine .taken hnew fun hsent => absurd ?_ hsent
      rw [hrow]
      rfl
    · rw [if_neg hk]
      exact .same _

omit [JsonSchema] in
theorem quiet_terminated {s : Outbox} {cause : Cause} {key reason : PyStr}
    {source : TerminalSource} {e : BatchState} {pruned : List PyStr} :
    Quiet env op s (s.terminated cause key reason source pruned e) := by
  obtain ⟨hsend, hprefer, hrate⟩ := terminateSession_frame s.session key reason source pruned
  have hrows : (s.terminated cause key reason source pruned e).db.batches = _ :=
    batches_terminal s.db key reason pruned source
  refine ⟨rfl, ⟨_, rfl, rfl⟩, le_rfl, ⟨hsend, hprefer⟩, ⟨[], hrate.symm, ?_⟩,
    (nextOrder_terminal s.db key reason pruned source).ge, fun b hb => ?_, fun k => ?_⟩
  · exact fun _ h => absurd h List.not_mem_nil
  · rw [hrows] at hb
    obtain ⟨a, ha, rfl⟩ := List.mem_map.mp (List.mem_filter.mp hb).1
    refine .inl ⟨a, ha, (Batch.terminate_fixed key reason source a).symm, ?_⟩
    unfold Batch.terminate
    split <;> rfl
  · show Turn env op _ k _ ((terminateSession key reason source pruned s.session).entries.get? k)
    rw [get?_terminateSession]
    by_cases hin : k ∈ pruned
    · rw [if_pos hin]
      cases s.session.entries.get? k with
      | none => exact .absent
      | some e' =>
          -- Pruned entries have lost their rows as well.
          refine .gone fun b hb hbk => ?_
          rw [hrows] at hb
          exact of_decide_eq_true (List.mem_filter.mp hb).2 (hbk ▸ hin)
    · rw [if_neg hin]
      by_cases hk : k = key
      · rw [if_pos hk]
        cases s.session.entries.get? k with
        | none => exact .absent
        | some e' =>
            rw [Option.map_some]
            split
            · exact .kept ⟨rfl, id, rfl, .inl rfl, .inl, fun _ => rfl⟩
            · exact .kept ⟨rfl, fun h => (by cases h), rfl, .inl rfl, fun _ => .inr (.inr (.inl rfl)),
                fun _ => rfl⟩
      · rw [if_neg hk]
        exact .same _

theorem quiet_attached {s : Outbox} (h : Sound env s) {b : Batch} {stamp : PyNum} {e : BatchState}
    {n : ℕ} (hb : b ∈ s.db.batches) (habsent : s.session.entries.get? b.messageId = none)
    (hstaged : s.session.staged.get? b.messageId = some e ∨
      s.session.staged.get? b.messageId = none ∧ e = { row := b.row stamp })
    (hn : n < s.clockReads) :
    Quiet env op s (s.attached (b.row stamp) (e.restored (env.clock n) (b.row stamp))) := by
  refine .of_turns rfl rfl le_rfl ⟨rfl, rfl, rfl⟩ ⟨rfl, rfl⟩ fun k => ?_
  show Turn env op _ k _ ((s.session.entries.set b.messageId _).get? k)
  rw [Dict.get?_set]
  by_cases hk : k = b.messageId
  · rw [if_pos hk, hk, habsent]
    -- What is staged is not durable.
    have he : e = { row := b.row stamp } := by
      rcases hstaged with hstaged | ⟨-, he⟩
      · exact absurd rfl ((h.memory.staged _ _ hstaged).2.2 b hb)
      · exact he
    subst he
    refine .taken rfl fun hsent => ⟨n, hn, ?_⟩
    show env.clock n + (if b.attempts = 0 then 0 else 60000) ≤ _
    split <;> linarith
  · rw [if_neg hk]
    exact .same _

/-- A step is a reservation, the start of a process, or neither. -/
theorem commit_kinds {s s' : Outbox} (hstep : Commit env op s s') (h : Sound env s)
    (hidle : StagedIdle s) :
    (∃ r payload, r.Chosen env op s ∧ s.db.payload r.entry.row.messageId = some payload ∧
      s' = s.reserve env payload.length r) ∨
    (∃ maxBytes maxRecords accounting, op = .restart maxBytes maxRecords accounting ∧
      s' = s.renewed maxBytes maxRecords accounting) ∨
    Quiet env op s s' := by
  cases hstep with
  | attempted r hr payload hpayload hbytes => exact .inl ⟨r, payload, hr, hpayload, rfl⟩
  | restarted maxBytes maxRecords accounting hop => exact .inr (.inl ⟨_, _, _, hop, rfl⟩)
  | waited hl =>
      rw [hl.frame]
      exact .inr (.inr (.of_entries rfl rfl hl.clock ⟨rfl, rfl, rfl⟩ ⟨rfl, rfl⟩ rfl))
  | restaged fresh row =>
      have hframe := restampStaged_frame fresh row.messageId row s.session
      refine .inr (.inr (.of_entries rfl rfl le_rfl ⟨?_, ?_, ?_⟩ ⟨rfl, rfl⟩ ?_))
      · exact congrArg (·.nextSend) hframe
      · exact congrArg (·.preferNew) hframe
      · exact congrArg (·.rate) hframe
      · exact congrArg (·.entries) hframe
  | inserted i hi => exact .inr (.inr (quiet_inserted hi hidle))
  | terminated cause key reason source e hopen hkey hwhy hread =>
      exact .inr (.inr quiet_terminated)
  | pruned key e hopen hkey hdead =>
      exact .inr (.inr (.of_remove rfl rfl rfl rfl ⟨rfl, rfl, rfl⟩ rfl rfl rfl))
  | stored ack key e hopen hkey hsent hwaits hack =>
      exact .inr (.inr (.of_remove rfl rfl rfl rfl ⟨rfl, rfl, rfl⟩ rfl rfl rfl))
  | purged n hn =>
      refine .inr (.inr ⟨rfl, ⟨[], (List.append_nil _).symm, rfl⟩, le_rfl, ⟨rfl, rfl⟩,
        ⟨s.session.rate.takeWhile fun sent => 1000 ≤ env.clock n - sent.1, ?_, fun x hx => ?_⟩, le_rfl,
        fun b hb => .inl ⟨b, hb, rfl, rfl⟩, fun k => .same _⟩)
      · exact List.takeWhile_append_dropWhile.symm
      · have hold := List.mem_takeWhile_imp hx
        -- What is purged was sent a second before the reading.
        rw [decide_eq_true_eq] at hold
        exact ⟨n, hn, by linarith⟩
  | deactivated n hn =>
      refine .inr (.inr (.of_turns rfl rfl le_rfl ⟨rfl, rfl, rfl⟩ ⟨rfl, rfl⟩ fun k => ?_))
      show Turn env op _ k _ ((OutboxSession.mapValues _ s.session.entries).get? k)
      rw [get?_mapValues]
      cases s.session.entries.get? k with
      | none => exact .absent
      | some e =>
          rw [Option.map_some]
          split
          · rename_i hidle
            exact .kept ⟨rfl, fun h => (by cases h), rfl, .inl rfl,
              fun _ => .inr (.inl ⟨n, hn, hidle.2⟩), id⟩
          · exact .same _
  | retried key e n hn hop hkey hsent =>
      have hframe := update_frame s.session key fun e =>
        { e with due := env.clock n + 60000, active := false }
      refine .inr (.inr (.of_turns rfl rfl le_rfl ⟨?_, ?_, ?_⟩ ⟨rfl, rfl⟩ fun k => ?_))
      · exact congrArg (·.nextSend) hframe
      · exact congrArg (·.preferNew) hframe
      · exact congrArg (·.rate) hframe
      · show Turn env op _ k _ ((s.session.update key _).entries.get? k)
        rw [get?_update]
        by_cases hk : k = key
        · obtain ⟨ack, codes, hack, -, hread⟩ := hop
          rw [if_pos hk, hk, hkey]
          -- A refusal that may be retried, or an answer that could not be stored.
          exact .delayed hsent hn rfl rfl (.inr ⟨ack, codes, hack, hread⟩) id
        · rw [if_neg hk]
          exact .same _
  | sdkRejected key hop =>
      refine .inr (.inr (.of_update fun e _ s' => ?_))
      split
      · exact ⟨rfl, fun h => (by cases h), rfl, .inl rfl, fun _ => .inr (.inr (.inr (.inl hop))), id⟩
      · exact .refl e
  | gated watermark hop =>
      refine .inr (.inr (.of_turns rfl rfl le_rfl ⟨rfl, rfl, rfl⟩ ⟨rfl, rfl⟩ fun k => ?_))
      show Turn env op _ k _ ((OutboxSession.mapValues _ s.session.entries).get? k)
      rw [get?_mapValues]
      cases s.session.entries.get? k with
      | none => exact .absent
      | some e => exact .kept ⟨rfl, id, rfl, .inr ⟨watermark, hop⟩, .inl, id⟩
  | refreshed b stamp hclosed hb hread =>
      refine .inr (.inr (.of_update fun e he s' => ?_))
      -- Entry and row agree, so reading the row again changes nothing that counts.
      have hagrees := of_unique h.table h.memory he hb rfl
      exact ⟨rfl, id, hagrees.attempts.symm, .inl rfl, .inl, fun hd => hagrees.state.symm.trans hd⟩
  | attached b stamp e n hclosed hb hread habsent hstaged hn =>
      exact .inr (.inr (quiet_attached h hb habsent hstaged hn))
  | accounted | staged | dropped | closed | reopened | opened =>
      exact .inr (.inr (.of_entries rfl rfl le_rfl ⟨rfl, rfl, rfl⟩ ⟨rfl, rfl⟩ rfl))

theorem stagedIdle_step {s s' : Outbox} (hstep : Commit env op s s') (h : StagedIdle s) :
    StagedIdle s' := by
  cases hstep with
  | waited hl =>
      rw [hl.frame]
      exact h
  | staged key e hopen hop hkey hnew hfree hroom =>
      intro k e' he'
      have he' : (s.session.staged.set key e).get? k = some e' := he'
      rw [Dict.get?_set] at he'
      split at he'
      · cases he'
        exact hnew.idle
      · exact h k e' he'
  | restaged fresh row =>
      intro k e' he'
      have he' : (restampStaged fresh row.messageId row s.session).staged.get? k = some e' := he'
      unfold restampStaged at he'
      split at he'
      · rename_i e he
        split at he'
        · rw [Dict.get?_set] at he'
          split at he'
          · cases he'
            exact h _ e he
          · exact h k e' he'
        · exact h k e' he'
      · exact h k e' he'
  | inserted i hi =>
      intro k e' he'
      have he' : (s.session.staged.erase i.row.messageId).get? k = some e' := he'
      rw [Dict.get?_erase] at he'
      split at he'
      · cases he'
      · exact h k e' he'
  | attached b stamp e n hclosed hb hread habsent hstaged hn =>
      intro k e' he'
      have he' : (s.session.staged.erase b.messageId).get? k = some e' := he'
      rw [Dict.get?_erase] at he'
      split at he'
      · cases he'
      · exact h k e' he'
  | terminated cause key reason source e hopen hkey hwhy hread =>
      intro k e' he'
      refine h k e' ?_
      rw [← he']
      exact congrArg (fun d => Dict.get? d k) (staged_terminateSession _ _ _ _ _).symm
  | gated watermark hop =>
      intro k e' he'
      have he' : (OutboxSession.mapValues _ s.session.staged).get? k = some e' := he'
      rw [get?_mapValues] at he'
      obtain ⟨e, he, rfl⟩ := Option.map_eq_some_iff.mp he'
      exact h k e he
  | attempted r hr payload hpayload hbytes =>
      intro k e' he'
      have he' : (s.session.update r.entry.row.messageId _).staged.get? k = some e' := he'
      rw [staged_update] at he'
      exact h k e' he'
  | retried key e n hn hop hkey hsent =>
      intro k e' he'
      have he' : (s.session.update key _).staged.get? k = some e' := he'
      rw [staged_update] at he'
      exact h k e' he'
  | sdkRejected key hop =>
      intro k e' he'
      have he' : (s.session.update key _).staged.get? k = some e' := he'
      rw [staged_update] at he'
      exact h k e' he'
  | refreshed b stamp hclosed hb hread =>
      intro k e' he'
      have he' : (s.session.update b.messageId _).staged.get? k = some e' := he'
      rw [staged_update] at he'
      exact h k e' he'
  | restarted maxBytes maxRecords accounting hop => exact fun k e he => (by cases he)
  | accounted | dropped | pruned | stored | purged | deactivated | closed | reopened | opened =>
      exact h

/-- What a reservation has found. -/
structure Reservation.Found (env : OutboxEnv) (s : Outbox) (r : Reservation) : Prop where
  fair : r.Fair env
  entry : s.session.entries.get? r.entry.row.messageId = some r.entry
  ready : r.entry.ready (env.clock r.first) = true

omit [Footprint] in
theorem Reservation.Chosen.found {s : Outbox} {r : Reservation} (hr : r.Chosen env op s)
    (h : Sound env s) : r.Found env s := by
  obtain ⟨token, -, s₀, s₁, hrun⟩ := hr.call
  obtain ⟨hmem, hleast⟩ := leastOrder_eq_some hr.least
  obtain ⟨hfree, hready, hclass⟩ := mem_candidates.mp hmem
  obtain ⟨hentry, hdue⟩ := (wp_eligible (s := s₀)).of_ok hrun r.entry hready
  rw [hr.entries] at hentry
  obtain ⟨k, hk⟩ := Dict.mem_values.mp hentry
  refine ⟨⟨⟨token, s₀, s₁, hrun⟩, hfree, ⟨hready, hclass⟩, hleast⟩, ?_, hdue⟩
  rw [messageId_of_entry h hk]
  exact hk

section Reserved

variable {s : Outbox} {r : Reservation} {size : ℕ}

omit [JsonSchema] in
theorem reservations_reserve (hbegun : s.started ≤ s.journal.length) :
    reservations (s.reserve env size r) = reservations s ++ [r] := by
  show reserved ((s.journal ++ [Change.attempted r]).drop s.started) = _
  rw [List.drop_append_of_le_length hbegun, reserved_append]
  rfl

omit [JsonSchema] in
theorem get?_reserve (k : PyStr) :
    (s.reserve env size r).session.entries.get? k =
      if k = r.entry.row.messageId then
        (s.session.entries.get? k).map (·.sent (env.clock s.clockReads) r.entry.nextAttempt)
      else s.session.entries.get? k :=
  get?_update _ _ _ _

omit [JsonSchema] [Footprint] in
/-- The deadline that an attempt sets. -/
theorem due_sent (r : Reservation) (mono : ℚ) :
    (r.entry.sent mono r.entry.nextAttempt).due = mono + r.wait := rfl

omit [JsonSchema] [Footprint] in
theorem wait_bounds (r : Reservation) : 0 ≤ r.wait ∧ r.wait ≤ 60000 := by
  unfold Reservation.wait
  split <;> decide

omit [JsonSchema] in
theorem held_reserve (hfound : r.Found env s) (hmono : Monotone env.clock)
    (hfirst : r.first ≤ s.clockReads) {key : PyStr} {order : ℤ} {due : ℚ} (h : Held s key order due) :
    Held (s.reserve env size r) key order due := by
  refine ⟨h.1, fun b' hb' hkey horder => ?_⟩
  obtain ⟨b, hb, rfl⟩ := List.mem_map.mp hb'
  have hsame : (b.messageId = key → b.localOrder = order →
      ∃ e, s.session.entries.get? key = some e ∧ due ≤ e.due) := h.2 b hb
  have hold : ∃ e, s.session.entries.get? key = some e ∧ due ≤ e.due := by
    split at hkey <;> split at horder <;> exact hsame hkey horder
  obtain ⟨e, he, hdue⟩ := hold
  rw [get?_reserve, he]
  by_cases hk : key = r.entry.row.messageId
  · rw [if_pos hk]
    refine ⟨_, rfl, ?_⟩
    have hentry : e = r.entry := by
      have := hfound.entry
      rw [← hk, he] at this
      exact Option.some.inj this
    -- The entry was due, and its deadline only moves on.
    have hready := hfound.ready
    simp only [BatchState.ready, Bool.and_eq_true, decide_eq_true_eq] at hready
    have hclock := hmono hfirst
    have hwait := (wait_bounds r).1
    rw [hentry, due_sent]
    rw [hentry] at hdue
    linarith
  · rw [if_neg hk]
    exact ⟨e, rfl, hdue⟩

theorem paced_reserve (h : Sound env s) (hr : r.Chosen env op s) (hmono : Monotone env.clock)
    (hp : Paced env s) : Paced env (s.reserve env size r) := by
  have hfound := hr.found h
  have hsame : reservations (s.reserve env size r) = reservations s ++ [r] :=
    reservations_reserve hp.begun
  have htime : r.time env = env.clock s.clockReads := by rw [Reservation.time, hr.last]
  have htimes : sendTimes env (s.reserve env size r) = sendTimes env s ++ [env.clock s.clockReads] := by
    rw [sendTimes, hsame, List.map_append, List.map_singleton, htime, sendTimes]
  have hclock : env.clock r.first ≤ env.clock s.clockReads := hmono hr.first.le
  have hfree := hr.free
  simp only [limited, Bool.or_eq_false_iff, decide_eq_false_iff_not, not_lt, not_le] at hfree
  have hrate : (s.reserve env size r).session.rate
      = s.session.rate ++ [(env.clock s.clockReads, size)] :=
    congrArg (· ++ [(env.clock s.clockReads, size)])
      (congrArg (·.rate) (update_frame s.session r.entry.row.messageId _))
  obtain ⟨old, hold, hage⟩ := hp.rate
  have holdest : ∀ t ∈ old, t + 1000 ≤ env.clock s.clockReads := fun t ht => by
    obtain ⟨n, hn, hle⟩ := hage t ht
    exact hle.trans (hmono hn.le)
  have hready := hfound.ready
  simp only [BatchState.ready, Bool.and_eq_true, Bool.not_eq_true', decide_eq_true_eq] at hready
  obtain ⟨⟨-, hidle⟩, hdue⟩ := hready
  refine ⟨?_, ?_, ?_, ?_, ⟨old, ?_, ?_⟩, ?_, ?_, ?_, ?_, ?_, ?_, ?_⟩
  · show s.started ≤ (s.journal ++ [_]).length
    rw [List.length_append]
    exact hp.begun.trans (Nat.le_add_right _ _)
  · rw [htimes]
    -- `nextSend` is 250 ms behind the last send at least.
    refine hp.quarter.snoc fun pre x mid hsplit _ => ?_
    have hx := hp.next x (hsplit ▸ List.mem_append_right _ List.mem_cons_self)
    linarith
  · rw [htimes]
    -- Of the last second only the window is left, and that has room.
    refine hp.second.snoc_recent hold holdest ?_
    rw [List.length_map]
    exact hfree.2
  · rw [htimes]
    intro t ht
    show t + 250 ≤ env.clock s.clockReads + 250
    rcases List.mem_append.mp ht with ht | ht
    · have := hp.next t ht
      linarith
    · rw [List.mem_singleton.mp ht]
  · rw [htimes, hrate, hold, List.map_append, List.append_assoc]
    rfl
  · intro t ht
    obtain ⟨n, hn, hle⟩ := hage t ht
    exact ⟨n, hn.trans (Nat.lt_succ_self _), hle⟩
  · rw [hsame, List.getLast?_append]
    intro r' hr'
    cases hr'
    rfl
  · rw [hsame, List.isChain_append]
    refine ⟨hp.classes, .singleton r, fun a ha b hb ha' hb' => ?_⟩
    cases hb
    rw [hr.category, pickCategory_both hb', hp.prefer a ha]
    -- The class sent last is not the preferred one.
    cases a.category <;> decide
  · rw [hsame]
    intro r' hr'
    rcases List.mem_append.mp hr' with hr' | hr'
    · exact hp.fair r' hr'
    · rw [List.mem_singleton.mp hr']
      exact hfound.fair
  · intro k e' he' hsent
    rw [get?_reserve] at he'
    split at he'
    -- The batch itself waits from the second reading on.
    · rename_i hk
      rw [hk, hfound.entry] at he'
      cases he'
      refine ⟨s.clockReads, Nat.lt_succ_self _, ?_⟩
      rw [due_sent]
      have := (wait_bounds r).2
      linarith
    · obtain ⟨n, hn, hle⟩ := hp.late k e' he' hsent
      exact ⟨n, hn.trans (Nat.lt_succ_self _), hle⟩
  · rw [hsame]
    intro r' hr'
    rcases List.mem_append.mp hr' with hr' | hr'
    · exact held_reserve hfound hmono hr.first.le (hp.held r' hr')
    · rw [List.mem_singleton.mp hr', htime]
      obtain ⟨b, hb, hbk, hagrees⟩ := h.memory.entries _ _ hfound.entry
      refine ⟨?_, fun b' hb' hkey horder => ?_⟩
      · rw [hagrees.localOrder]
        exact (h.table.orders b hb).2
      · rw [get?_reserve, if_pos rfl, hfound.entry]
        exact ⟨_, rfl, (due_sent r _).ge⟩
  · rw [hsame, List.pairwise_append]
    refine ⟨hp.again, List.pairwise_singleton _ _, fun a ha b hb hbatch => ?_⟩
    rw [List.mem_singleton.mp hb] at hbatch ⊢
    -- An earlier attempt on the row has set the time this one was due.
    obtain ⟨row, hrow, hkey, hagrees⟩ := h.memory.entries _ _ hfound.entry
    obtain ⟨e, he, hle⟩ := (hp.held a ha).2 row hrow (hkey.trans hbatch.1.symm)
      (hagrees.localOrder.symm.trans hbatch.2.symm)
    rw [hbatch.1, hfound.entry] at he
    cases he
    rw [htime]
    exact hle.trans (hdue.trans hclock)
  · have hroom := hr.unsaturated
    simp only [saturated, decide_eq_false_iff_not, not_le] at hroom
    refine (Dict.countP_values_le (d := s.session.entries) (p := (·.active))
      -- One attempt more than before, and there was room for it.
      (l := [r.entry.row.messageId]) fun k e' he' hactive => ?_).trans ?_
    · rw [get?_reserve] at he'
      split at he'
      · rename_i hk
        exact .inl (hk ▸ List.mem_cons_self)
      · exact .inr ⟨e', he', hactive⟩
    · rw [List.length_singleton]
      omega

end Reserved

/-! ## Runs -/

/-- What a process keeps of its schedule. -/
structure Scheduling (env : OutboxEnv) (s : Outbox) : Prop where
  sound : Sound env s
  staged : StagedIdle s
  paced : Paced env s

theorem scheduling_step {s s' : Outbox} (hmono : Monotone env.clock) (hstep : Commit env op s s')
    (h : Scheduling env s) : Scheduling env s' := by
  refine ⟨sound_step hstep h.sound, stagedIdle_step hstep h.staged, ?_⟩
  rcases commit_kinds hstep h.sound h.staged with
    ⟨r, payload, hr, -, rfl⟩ | ⟨maxBytes, maxRecords, accounting, -, rfl⟩ | hquiet
  · exact paced_reserve h.sound hr hmono h.paced
  · exact paced_renewed s maxBytes maxRecords accounting
  · exact paced_quiet hquiet hmono h.paced

theorem scheduling_path {s s' : Outbox} (hmono : Monotone env.clock) (hpath : Steps env op s s')
    (h : Scheduling env s) : Scheduling env s' :=
  path_keeps (I := Scheduling env) (fun _ _ => scheduling_step hmono) hpath h

/-- A new process opens the file after it has begun. -/
theorem restart_path (s : Outbox) (maxBytes : ℤ) (maxRecords : ℕ)
    (accounting : Option (Accounting × ℤ)) :
    Steps env (.restart maxBytes maxRecords accounting) (s.renewed maxBytes maxRecords accounting)
      (perform (OutboxOp.exec env) s (.restart maxBytes maxRecords accounting)).after := by
  have hgoes := @goes_openStore env (.restart maxBytes maxRecords accounting) _ _
    (.inr ⟨_, _, _, rfl⟩) (s.renewed maxBytes maxRecords accounting)
  have hrun : wp (OutboxOp.exec env (.restart maxBytes maxRecords accounting))
      (fun _ => Steps env (.restart maxBytes maxRecords accounting)
        (s.renewed maxBytes maxRecords accounting))
      (fun _ => Steps env (.restart maxBytes maxRecords accounting)
        (s.renewed maxBytes maxRecords accounting)) s := by
    simp only [OutboxOp.exec, restartIn, wp_bind, wp_modify, wp_pure]
    exact wp.mono hgoes (fun _ _ h => h.1) fun _ _ h => h
  exact hrun.final

theorem scheduling_restart {s : Outbox} (hmono : Monotone env.clock) (h : Sound env s)
    (maxBytes : ℤ) (maxRecords : ℕ) (accounting : Option (Accounting × ℤ)) :
    Scheduling env
      (perform (OutboxOp.exec env) s (.restart maxBytes maxRecords accounting)).after := by
  refine scheduling_path hmono (restart_path s maxBytes maxRecords accounting) ⟨?_, ?_, ?_⟩
  · exact sound_step (.restarted s maxBytes maxRecords accounting rfl) h
  · exact fun k e he => by cases he
  · exact paced_renewed s maxBytes maxRecords accounting

theorem scheduling_run {s : Outbox} (hmono : Monotone env.clock) (h : Scheduling env s)
    (ops : List OutboxOp) : Scheduling env (runCalls (OutboxOp.exec env) s ops) :=
  runCalls_keeps exec_goes
    (fun _ _ _ _ hstep => scheduling_step hmono hstep) h

end Schedule

end PlcnextIot.Storage
