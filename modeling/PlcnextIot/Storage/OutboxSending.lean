/-
  PlcnextIot.Storage.OutboxSending

  What a process sends and when: which attempt of a batch is the first, what a
  single call can do to the schedule, and the schedule over a whole run.
-/

import PlcnextIot.Storage.OutboxIntegrity
import PlcnextIot.Storage.OutboxSchedule

namespace PlcnextIot.Storage

open PlcnextIot.Python PlcnextIot.Contracts PlcnextIot.Config PlcnextIot.Reporting
open PlcnextIot.Core PlcnextIot.Effect PlcnextIot.Effect.Prog Relation

/-! ## Attempts -/

/-- An attempt of this batch. -/
def Reservation.Of (r : Reservation) (b : Batch) : Prop :=
  r.entry.row.messageId = b.messageId ∧ r.entry.row.localOrder = b.localOrder

theorem Reservation.Of.fixed {r : Reservation} {a b : Batch} (h : r.Of a) (hfixed : a.fixed = b.fixed) :
    r.Of b :=
  ⟨h.1.trans (messageId_of_fixed hfixed), h.2.trans (localOrder_of_fixed hfixed)⟩

/-- The attempts that the journal and the table count. -/
structure Tries (s : Outbox) : Prop where
  counted : ∀ b ∈ s.db.batches, 0 ≤ b.attempts ∧
    (b.attempts = 0 ↔ ∀ r ∈ reserved s.journal, ¬ r.Of b)
  below : ∀ r ∈ reserved s.journal, r.entry.row.localOrder < s.db.info.nextOrder
  first : ∀ past r rest, reserved s.journal = past ++ r :: rest →
    (r.entry.nextAttempt = 1 ↔ ∀ r' ∈ past, ¬ r'.SameBatch r)

theorem saturate_eq_one {n : ℤ} : saturate (n + 1) = 1 ↔ n = 0 := by
  have hmax : maxSafe = 9007199254740991 := rfl
  unfold saturate
  omega

theorem saturate_pos {n : ℤ} (h : 0 ≤ n) : saturate (n + 1) ≠ 0 := by
  have hmax : maxSafe = 9007199254740991 := rfl
  unfold saturate
  omega

section Attempts

variable [JsonSchema] [Footprint] {env : OutboxEnv} {op : OutboxOp} {s s' : Outbox}

omit [JsonSchema] [Footprint] in
theorem tries_quiet (hq : Quiet env op s s') (h : Tries s) : Tries s' := by
  have hsame : reserved s'.journal = reserved s.journal := by
    obtain ⟨more, hmore, hnone⟩ := hq.journal
    rw [hmore, reserved_append, hnone, List.append_nil]
  refine ⟨fun b' hb' => ?_, ?_, ?_⟩
  · rw [hsame]
    rcases hq.rows b' hb' with ⟨b, hb, hfix, hattempts⟩ | ⟨hnew, hattempts⟩
    · obtain ⟨hpos, hcount⟩ := h.counted b hb
      rw [← hattempts]
      exact ⟨hpos, hcount.trans ⟨fun hno r hr hof => hno r hr (hof.fixed hfix.symm),
        fun hno r hr hof => hno r hr (hof.fixed hfix)⟩⟩
    · refine ⟨hattempts.ge, fun _ r hr hof => ?_, fun _ => hattempts⟩
      have := h.below r hr
      have := hof.2
      omega
  · rw [hsame]
    exact fun r hr => (h.below r hr).trans_le hq.next
  · rw [hsame]
    exact h.first

theorem tries_reserve {r : Reservation} {size : ℕ} (hs : Sound env s) (hfound : r.Found env s)
    (h : Tries s) : Tries (s.reserve env size r) := by
  have hsame : reserved (s.reserve env size r).journal = reserved s.journal ++ [r] := by
    show reserved (s.journal ++ [Change.attempted r]) = _
    rw [reserved_append]
    rfl
  obtain ⟨row, hrow, hkey, hagrees⟩ := hs.memory.entries _ _ hfound.entry
  obtain ⟨hpos, hcount⟩ := h.counted row hrow
  have hof : r.Of row := ⟨hkey.symm, hagrees.localOrder⟩
  have hattempts : r.entry.nextAttempt = saturate (row.attempts + 1) := by
    rw [BatchState.nextAttempt, hagrees.attempts]
  refine ⟨fun b' hb' => ?_, ?_, ?_⟩
  · rw [hsame]
    obtain ⟨b, hb, rfl⟩ := List.mem_map.mp hb'
    by_cases hk : b.messageId = r.entry.row.messageId
    · -- The row of the entry has been attempted.
      have hb : b = row := hs.table.unique hb hrow (hk.trans hkey.symm)
      rw [if_pos hk, hb]
      show 0 ≤ r.entry.nextAttempt ∧ (r.entry.nextAttempt = 0 ↔ _)
      rw [hattempts]
      refine ⟨?_, fun hzero => absurd hzero (saturate_pos hpos), fun hno => ?_⟩
      · have hmax : maxSafe = 9007199254740991 := rfl
        unfold saturate
        omega
      · exact absurd hof (hno r (List.mem_append_right _ (.head _)))
    · rw [if_neg hk]
      obtain ⟨hpos', hcount'⟩ := h.counted b hb
      refine ⟨hpos', hcount'.trans ⟨fun hno r' hr' hof' => ?_, fun hno r' hr' =>
        hno r' (List.mem_append_left _ hr')⟩⟩
      rcases List.mem_append.mp hr' with hr' | hr'
      · exact hno r' hr' hof'
      · rw [List.mem_singleton.mp hr'] at hof'
        exact hk hof'.1.symm
  · rw [hsame]
    intro r' hr'
    rcases List.mem_append.mp hr' with hr' | hr'
    · exact h.below r' hr'
    · rw [List.mem_singleton.mp hr', hof.2]
      exact (hs.table.orders row hrow).2
  · rw [hsame]
    intro past r' rest hsplit
    rcases List.eq_nil_or_concat' rest with rfl | ⟨rest', x, rfl⟩
    · obtain ⟨hpast, hr'⟩ := List.append_inj' hsplit rfl
      cases hr'
      rw [hattempts, saturate_eq_one, hcount, hpast]
      exact ⟨fun hno r' hr' hbatch => hno r' hr' ⟨hbatch.1.trans hof.1, hbatch.2.trans hof.2⟩,
        fun hno r' hr' hof' => hno r' hr' ⟨hof'.1.trans hof.1.symm, hof'.2.trans hof.2.symm⟩⟩
    · refine h.first past r' rest' ?_
      have hsplit' : reserved s.journal ++ [r] = (past ++ r' :: rest') ++ [x] := by
        rw [hsplit]
        simp
      exact (List.append_inj' hsplit' rfl).1

omit [JsonSchema] [Footprint] in
theorem tries_fresh {maxBytes : ℤ} {maxRecords : ℕ} {accounting : Option (Accounting × ℤ)} :
    Tries (.fresh maxBytes maxRecords accounting) := by
  refine ⟨fun b hb => absurd hb List.not_mem_nil, fun r hr => absurd hr List.not_mem_nil, ?_⟩
  intro past r rest hsplit
  have hnil : ([] : List Reservation) = past ++ r :: rest := hsplit
  simp at hnil

theorem tries_step (hstep : Commit env op s s') (hs : Sound env s) (hidle : StagedIdle s)
    (h : Tries s) : Tries s' := by
  rcases commit_kinds hstep hs hidle with
    ⟨r, payload, hr, -, rfl⟩ | ⟨maxBytes, maxRecords, accounting, -, rfl⟩ | hquiet
  · exact tries_reserve hs (hr.found hs) h
  · exact ⟨h.counted, h.below, h.first⟩
  · exact tries_quiet hquiet h

theorem tries_run {s : Outbox} (hs : Sound env s) (hidle : StagedIdle s) (h : Tries s)
    (ops : List OutboxOp) :
    StagedIdle (runCalls (OutboxOp.exec env) s ops) ∧ Tries (runCalls (OutboxOp.exec env) s ops) :=
  (runCalls_keeps (I := fun s => Sound env s ∧ StagedIdle s ∧ Tries s)
    exec_goes (fun _ _ _ _ hstep hab => ⟨sound_step hstep hab.1, stagedIdle_step hstep hab.2.1,
      tries_step hstep hab.1 hab.2.1 hab.2.2⟩) ⟨hs, hidle, h⟩).2

end Attempts

/-! ## Calls -/

/-- The call begins no process. -/
def OutboxOp.Stays (op : OutboxOp) : Prop :=
  ∀ maxBytes maxRecords accounting, op ≠ .restart maxBytes maxRecords accounting

section Calls

variable [JsonSchema] [Footprint] {env : OutboxEnv} {op : OutboxOp} {s s' : Outbox}

/-- Within a process, no call brings a batch forward. -/
theorem held_step (hmono : Monotone env.clock) (hstays : op.Stays) (hstep : Commit env op s s')
    (h : Scheduling env s) {key : PyStr} {order : ℤ} {due : ℚ} (hheld : Held s key order due) :
    Held s' key order due := by
  rcases commit_kinds hstep h.sound h.staged with
    ⟨r, payload, hr, -, rfl⟩ | ⟨maxBytes, maxRecords, accounting, hop, -⟩ | hquiet
  · exact held_reserve (hr.found h.sound) hmono hr.first.le hheld
  · exact absurd hop (hstays _ _ _)
  · exact hquiet.held hmono h.paced.late hheld

theorem started_step (hstays : op.Stays) (hstep : Commit env op s s') : s'.started = s.started := by
  cases hstep with
  | restarted maxBytes maxRecords accounting hop => exact absurd hop (hstays _ _ _)
  | waited hl => rw [hl.frame]
  | _ => rfl

/-- No call but `reserve` makes a reservation. -/
theorem reserved_step (hop : ∀ token, op ≠ .reserve token) (hstep : Commit env op s s') :
    reserved s'.journal = reserved s.journal := by
  have hnote : ∀ c : Change, c.reservation? = none →
      reserved (s.journal ++ [c]) = reserved s.journal := fun c hc => by
    rw [reserved_append]
    simp [reserved, hc]
  cases hstep with
  | waited hl => rw [hl.frame]
  | attempted r hr payload hpayload hbytes =>
      obtain ⟨token, htoken, -⟩ := hr.call
      exact absurd htoken (hop token)
  | inserted => exact hnote _ rfl
  | terminated => exact hnote _ rfl
  | pruned => exact hnote _ rfl
  | stored => exact hnote _ rfl
  | _ => rfl

/-- No call but the opening of a gate takes a class above seven active attempts. -/
theorem activeOf_step (hop : ∀ w, op ≠ .openGate w) (hstep : Commit env op s s')
    (h : Scheduling env s) (c : Category) : activeOf s'.session.entries.values c
      ≤ max 7 (activeOf s.session.entries.values c) := by
  rcases commit_kinds hstep h.sound h.staged with
    ⟨r, payload, hr, -, rfl⟩ | ⟨maxBytes, maxRecords, accounting, -, rfl⟩ | hquiet
  · have hfound := hr.found h.sound
    have hfree := hfound.fair.class_free
    rw [hr.entries] at hfree
    by_cases hc : c = r.category
    -- The class of the reservation had at most six.
    · refine le_trans ?_ (le_max_left _ _)
      refine (Dict.countP_values_le (d := s.session.entries)
        (p := fun e => e.active && e.category == c) (l := [r.entry.row.messageId])
        fun k e' he' hactive => ?_).trans ?_
      · rw [get?_reserve] at he'
        split at he'
        · rename_i hk
          exact .inl (hk ▸ List.mem_cons_self)
        · exact .inr ⟨e', he', hactive⟩
      · rw [List.length_singleton]
        rw [← hc] at hfree
        show 1 + activeOf s.session.entries.values c ≤ 7
        omega
    -- Another class gains nothing.
    · refine le_trans ?_ (le_max_right _ _)
      refine (Dict.countP_values_le (d := s.session.entries)
        (p := fun e => e.active && e.category == c) (l := [])
        fun k e' he' hactive => .inr ?_).trans (Nat.zero_add _).le
      rw [get?_reserve] at he'
      split at he'
      · rename_i hk
        rw [hk, hfound.entry] at he'
        cases he'
        rw [Bool.and_eq_true, beq_iff_eq] at hactive
        exact absurd (hactive.2.symm.trans hfound.fair.chosen.2) hc
      · exact ⟨e', he', hactive⟩
  · exact Nat.zero_le _
  · refine le_trans ?_ (le_max_right _ _)
    refine (Dict.countP_values_le (d := s.session.entries)
      (p := fun e => e.active && e.category == c) (l := [])
      fun k e' he' hactive => .inr ?_).trans (Nat.zero_add _).le
    rw [Bool.and_eq_true] at hactive
    have hturn := hquiet.turns k
    rw [he'] at hturn
    generalize hget : s.session.entries.get? k = o at hturn
    cases hturn with
    | taken hidle hlate => rw [hidle] at hactive; cases hactive.1
    | kept hkept =>
        refine ⟨_, rfl, ?_⟩
        rw [Bool.and_eq_true, ← hkept.category.resolve_right fun hgate => hgate.elim hop]
        exact ⟨hkept.active hactive.1, hactive.2⟩
    | delayed hold hlast hdue hidle => rw [hidle] at hactive; cases hactive.1

/-! ## What `reserve` returns -/

/-- A reservation is made exactly when a payload is returned. -/
def Sends (s s' : Outbox) : Option Bytes → Prop
  | none => reserved s'.journal = reserved s.journal
  | some payload => ∃ r, reserved s'.journal = reserved s.journal ++ [r] ∧
    digest payload = r.entry.row.hash

omit [JsonSchema] [Footprint] in
theorem Sends.of_eq {s₀ : Outbox} (h : reserved s.journal = reserved s₀.journal) {p : Option Bytes}
    (hsends : Sends s s' p) : Sends s₀ s' p := by
  cases p with
  | none => exact hsends.trans h
  | some payload =>
      obtain ⟨r, hr, hdigest⟩ := hsends
      exact ⟨r, hr.trans (by rw [h]), hdigest⟩

omit [JsonSchema] [Footprint] in
theorem reserved_later (h : Later s s') : reserved s'.journal = reserved s.journal := by
  rw [h.frame]

omit [JsonSchema] [Footprint] in
theorem reserved_spared (h : Spared s s') : reserved s'.journal = reserved s.journal := by
  obtain ⟨more, hmore, hscan, -⟩ := h.journal
  rw [hmore, reserved_append]
  have hnone : reserved more = [] := List.filterMap_eq_nil_iff.mpr fun c hc => by
    have := hscan c hc
    cases c with
    | attempted r => cases this
    | _ => rfl
  rw [hnone, List.append_nil]

omit [JsonSchema] [Footprint] in
theorem wp_attemptSend {token : Option TimeToken} {choice : ℕ → Reservation} {payload : Bytes} :
    wp (attemptSend env token choice payload)
      (fun p s' => p = some payload ∧
        reserved s'.journal = reserved s.journal ++ [choice s.clockReads])
      (fun _ s' => reserved s'.journal = reserved s.journal) s := by
  simp only [attemptSend, wp_bind, wp_get]
  refine wp_repository (E := fun s' => reserved s'.journal = reserved s.journal) rfl ?_
  simp only [wp_bind, wp_modify]
  refine wp_gate.mono (fun _ s₁ hl => ⟨?_, rfl⟩) fun _ _ _ => rfl
  simp only [sessionClock, wp_bind, wp_gets, wp_modify, wp_pure]
  refine ⟨trivial, ?_⟩
  have hsame : reserved s₁.journal = reserved s.journal := by
    rw [reserved_later hl.1]
    rfl
  show reserved (s₁.journal ++ [Change.attempted _]) = _
  rw [reserved_append, hsame]
  rfl

omit [Footprint] in
theorem wp_storedPayload {e : BatchState} :
    wp (storedPayload env e)
      (fun found s' => s' = s ∧ ∀ payload, found = some payload → digest payload = e.row.hash)
      (fun _ s' => s' = s) s := by
  unfold storedPayload
  rw [wp_bind, wp_get]
  cases hfound : s.db.payload e.row.messageId with
  | none => exact ⟨rfl, fun _ h => by cases h⟩
  | some payload =>
      dsimp only
      rw [wp_ite]
      refine ⟨fun hdigest => ?_, fun _ => ⟨rfl, fun _ h => by cases h⟩⟩
      simp only [wp_bind, wp_result, wp_pure]
      refine ⟨fun valid _ => ⟨trivial, fun p h => ?_⟩, fun _ _ => trivial⟩
      split at h
      · cases h
        exact hdigest
      · cases h

omit [Footprint] in
theorem wp_sendChosen {token : Option TimeToken} {e : BatchState} {choice : ℕ → Reservation}
    (hentry : ∀ n, (choice n).entry = e) :
    wp (sendChosen env token e choice) (fun p s' => Sends s s' p)
      (fun _ s' => reserved s'.journal = reserved s.journal) s := by
  rw [sendChosen, wp_bind]
  refine wp_storedPayload.mono (fun found s₁ h => ?_) fun _ s₁ h => by rw [h]
  obtain ⟨rfl, hfound⟩ := h
  split
  · simp only [wp_bind, wp_modify, wp_raise]
    rfl
  · rename_i payload
    rw [wp_bind, wp_get, wp_ite]
    refine ⟨fun _ => rfl, fun _ => wp_attemptSend.mono (fun p s' h => ?_) fun _ _ h => h⟩
    obtain ⟨rfl, hr⟩ := h
    exact ⟨_, hr, by rw [hentry]; exact hfound payload rfl⟩

omit [Footprint] in
theorem wp_select {token : Option TimeToken} {first : ℕ} {mono : ℚ} :
    wp (select env token first mono) (fun p s' => Sends s s' p)
      (fun _ s' => reserved s'.journal = reserved s.journal) s := by
  unfold select
  rw [wp_bind, wp_gets, wp_bind]
  refine waits_eligible.mono (fun ready t ht => ?_) fun _ _ h => reserved_later h
  have hsame := reserved_later ht
  rw [wp_bind, wp_get]
  dsimp only
  split
  · exact hsame
  · refine wp.mono (wp_sendChosen ?_) (fun _ _ h => h.of_eq hsame) fun _ _ h => h.trans hsame
    exact fun _ => rfl

theorem wp_reserve {token : Option TimeToken} :
    wp (reserve env token) (fun p s' => Sends s s' p)
      (fun _ s' => reserved s'.journal = reserved s.journal) s := by
  unfold reserve
  rw [wp_bind, requireOpen, wp_bind, wp_get, wp_check]
  refine ⟨fun hopen => ?_, fun _ => rfl⟩
  rw [wp_bind]
  refine wp_gate.mono (fun _ t ht => ?_) fun _ _ h => reserved_later h
  have hopened : ({ t with clockReads := t.clockReads + 1 } : Outbox).opened = true := by
    rw [ht.1.frame]
    exact hopen
  simp only [wp_bind, wp_gets, sessionClock, wp_modify, wp_pure, wp_get]
  refine (spared_expire hopened).mono (fun _ t₁ ht₁ => ?_) fun _ t₁ ht₁ => ?_
  · have hsame : reserved t₁.journal = reserved s.journal :=
      (reserved_spared ht₁.1).trans (reserved_later (ht.1.trans (later_clock t)))
    simp only [wp_ite, wp_bind, wp_modify, wp_get, wp_pure]
    refine ⟨fun _ => hsame, fun _ => ⟨fun _ => hsame, fun _ => ?_⟩⟩
    exact wp_select.mono (fun _ _ h => h.of_eq hsame) fun _ _ h => h.trans hsame
  · exact (reserved_spared ht₁).trans (reserved_later (ht.1.trans (later_clock t)))

end Calls

/-! ## The schedule of a process -/

instance (a b : Reservation) : Decidable (a.SameBatch b) := inferInstanceAs (Decidable (_ ∧ _))

/-- What holds of the schedule in every state of a process. -/
structure Scheduled [JsonSchema] [Footprint] (env : OutboxEnv) (s : Outbox) : Prop where
  /-- No second has more than four reservations. -/
  window : ∀ a, (sendTimes env s).countP (fun t => a ≤ t ∧ t < a + 1000) ≤ 4
  apart : (sendTimes env s).IsChain fun t t' => t + 250 ≤ t'
  active : s.session.entries.values.countP (·.active) ≤ 8
  /-- A batch waits 30 s after its first attempt, and 60 s after every other one. -/
  again : (reservations s).Pairwise fun a b => a.SameBatch b → a.time env + a.wait ≤ b.time env
  first : ∀ past r rest, reserved s.journal = past ++ r :: rest →
    r.wait = if ∀ r' ∈ past, ¬ r'.SameBatch r then 30000 else 60000
  classes : (reservations s).IsChain fun a b => a.Both → b.Both → a.category ≠ b.category
  fair : ∀ r ∈ reservations s, r.Fair env
  /-- A call makes a reservation exactly when it is a `reserve` that returns a payload. -/
  calls : ∀ op : OutboxOp, op.Stays →
    (∃ payload r, (perform (OutboxOp.exec env) s op).result = .ok (.payload (some payload)) ∧
      reservations (perform (OutboxOp.exec env) s op).after = reservations s ++ [r] ∧
      digest payload = r.entry.row.hash) ∨
    ((∀ payload, (perform (OutboxOp.exec env) s op).result ≠ .ok (.payload (some payload))) ∧
      reservations (perform (OutboxOp.exec env) s op).after = reservations s)
  /-- No `reserve` takes a class above seven active attempts. -/
  seven : ∀ token c,
    activeOf (perform (OutboxOp.exec env) s (.reserve token)).after.session.entries.values c
      ≤ max 7 (activeOf s.session.entries.values c)

section Runs

variable [JsonSchema] [Footprint] {env : OutboxEnv} {s : Outbox}

omit [JsonSchema] [Footprint] in
theorem wait_eq (h : Tries s) {past rest : List Reservation} {r : Reservation}
    (hsplit : reserved s.journal = past ++ r :: rest) :
    r.wait = if ∀ r' ∈ past, ¬ r'.SameBatch r then 30000 else 60000 := by
  have hfirst := h.first past r rest hsplit
  unfold Reservation.wait
  by_cases hno : ∀ r' ∈ past, ¬ r'.SameBatch r
  · rw [if_pos hno, if_pos (hfirst.mpr hno)]
  · rw [if_neg hno, if_neg fun h => hno (hfirst.mp h)]

/-- Within a process, what the journal gains are reservations of the process. -/
theorem reservations_of (h : Scheduling env s) {op : OutboxOp} (hstays : op.Stays)
    {l : List Reservation}
    (hmore : reserved (perform (OutboxOp.exec env) s op).after.journal = reserved s.journal ++ l) :
    reservations (perform (OutboxOp.exec env) s op).after = reservations s ++ l := by
  have hstarted : (perform (OutboxOp.exec env) s op).after.started = s.started :=
    path_keeps (I := fun s' : Outbox => s'.started = s.started)
      (fun _ _ hstep h => (started_step hstays hstep).trans h) (exec_goes op s).path rfl
  obtain ⟨changes, hchanges, -⟩ := onward_run h.sound [op]
  have hjournal : (perform (OutboxOp.exec env) s op).after.journal = s.journal ++ changes := hchanges
  rw [hjournal, reserved_append] at hmore
  rw [reservations, hstarted, hjournal, List.drop_append_of_le_length h.paced.begun, reserved_append,
    List.append_cancel_left hmore]
  rfl

/-- Only `reserve` returns a payload. -/
theorem result_ne_payload {op : OutboxOp} (hop : ∀ token, op ≠ .reserve token) (p : Option Bytes) :
    (perform (OutboxOp.exec env) s op).result ≠ .ok (.payload p) := by
  have hrun : wp (OutboxOp.exec env op) (fun out _ => out ≠ .payload p) (fun _ _ => True) s := by
    cases op with
    | reserve token => exact absurd rfl (hop token)
    | resetInflight => exact fun h => by cases h
    | _ =>
        simp only [OutboxOp.exec, wp_bind, wp_pure]
        exact wp_of_forall (fun _ _ h => by cases h) fun _ _ => trivial
  exact fun h => (perform_spec hrun).1 _ h rfl

theorem calls_of (h : Scheduling env s) {op : OutboxOp} (hstays : op.Stays) :
    (∃ payload r, (perform (OutboxOp.exec env) s op).result = .ok (.payload (some payload)) ∧
      reservations (perform (OutboxOp.exec env) s op).after = reservations s ++ [r] ∧
      digest payload = r.entry.row.hash) ∨
    ((∀ payload, (perform (OutboxOp.exec env) s op).result ≠ .ok (.payload (some payload))) ∧
      reservations (perform (OutboxOp.exec env) s op).after = reservations s) := by
  by_cases hop : ∃ token, op = .reserve token
  · obtain ⟨token, rfl⟩ := hop
    have hrun : wp (OutboxOp.exec env (.reserve token))
        (fun out s' => ∃ p, out = .payload p ∧ Sends s s' p)
        (fun _ s' => reserved s'.journal = reserved s.journal) s := by
      simp only [OutboxOp.exec, wp_bind, wp_pure]
      exact wp_reserve.mono (fun p _ h => ⟨p, rfl, h⟩) fun _ _ h => h
    obtain ⟨hok, herror⟩ := perform_spec hrun
    have hnone := reservations_of h hstays (l := [])
    rw [List.append_nil, List.append_nil] at hnone
    cases hresult : (perform (OutboxOp.exec env) s (.reserve token)).result with
    | error e => exact .inr ⟨fun _ h => (by cases h), hnone (herror e hresult)⟩
    | ok out =>
        obtain ⟨p, rfl, hsends⟩ := hok out hresult
        cases p with
        | none => exact .inr ⟨fun _ h => (by cases h), hnone hsends⟩
        | some payload =>
            obtain ⟨r, hr, hdigest⟩ := hsends
            exact .inl ⟨payload, r, rfl, reservations_of h hstays hr, hdigest⟩
  · have hno : ∀ token, op ≠ .reserve token := fun token h => hop ⟨token, h⟩
    refine .inr ⟨fun payload => result_ne_payload hno (some payload), ?_⟩
    have hnone := reservations_of h hstays (l := [])
    rw [List.append_nil, List.append_nil] at hnone
    exact hnone (path_keeps (I := fun s' : Outbox => reserved s'.journal = reserved s.journal)
      (fun _ _ hstep h => (reserved_step hno hstep).trans h) (exec_goes op s).path rfl)

theorem seven_of (hmono : Monotone env.clock) (h : Scheduling env s) (token : Option TimeToken)
    (c : Category) :
    activeOf (perform (OutboxOp.exec env) s (.reserve token)).after.session.entries.values c
      ≤ max 7 (activeOf s.session.entries.values c) := by
  have hop : ∀ w, OutboxOp.reserve token ≠ .openGate w := fun w h => by cases h
  refine (path_keeps (I := fun s' : Outbox => Scheduling env s' ∧
    activeOf s'.session.entries.values c ≤ max 7 (activeOf s.session.entries.values c))
    (fun a b hstep hab => ⟨scheduling_step hmono hstep hab.1, ?_⟩) (exec_goes (.reserve token) s).path
    ⟨h, le_max_right _ _⟩).2
  have := activeOf_step hop hstep hab.1 c
  have := hab.2
  omega

theorem scheduled_of (hmono : Monotone env.clock) (h : Scheduling env s) (ht : Tries s) :
    Scheduled env s where
  window := h.paced.second.window (by decide)
  apart := h.paced.quarter.isChain
  active := h.paced.active
  again := h.paced.again
  first _ _ _ hsplit := wait_eq ht hsplit
  classes := h.paced.classes
  fair := h.paced.fair
  calls _ hstays := calls_of h hstays
  seven := seven_of hmono h

theorem held_run (hmono : Monotone env.clock) (h : Scheduling env s) {key : PyStr} {order : ℤ} {due : ℚ}
    (hheld : Held s key order due) {ops : List OutboxOp} (hstays : ∀ op ∈ ops, op.Stays) :
    Held (runCalls (OutboxOp.exec env) s ops) key order due :=
  (runCalls_keeps (I := fun s => Scheduling env s ∧ Held s key order due)
    exec_goes (fun _ hop _ _ hstep hab => ⟨scheduling_step hmono hstep hab.1,
      held_step hmono (hstays _ hop) hstep hab.1 hab.2⟩) ⟨h, hheld⟩).2

/-- The deadline of a batch between two states of a process. -/
theorem due_le (hmono : Monotone env.clock) (h : Scheduling env s) {ops : List OutboxOp}
    (hstays : ∀ op ∈ ops, op.Stays) {key : PyStr} {e e' : BatchState}
    (he : s.session.entries.get? key = some e)
    (he' : (runCalls (OutboxOp.exec env) s ops).session.entries.get? key = some e')
    (hsame : e.row.localOrder = e'.row.localOrder) : e.due ≤ e'.due := by
  obtain ⟨b, hb, -, hagrees⟩ := h.sound.memory.entries key e he
  have hheld : Held s key e.row.localOrder e.due := by
    refine ⟨?_, fun _ _ _ _ => ⟨e, he, le_rfl⟩⟩
    rw [hagrees.localOrder]
    exact (h.sound.table.orders b hb).2
  obtain ⟨b', hb', hkey', hagrees'⟩ := (scheduling_run hmono h ops).sound.memory.entries key e' he'
  obtain ⟨e'', he'', hle⟩ := (held_run hmono h hheld hstays).2 b' hb' hkey'
    (hagrees'.localOrder.symm.trans hsame.symm)
  rw [he'] at he''
  cases he''
  exact hle

omit [Footprint] in
/-- The session clock of the file's past does not matter. -/
theorem Sound.of_clock {earlier : ℕ → ℚ} (h : Sound { env with clock := earlier } s) : Sound env s := by
  have hgenuine : ∀ b ∈ s.db.batches, Genuine env b := fun b hb =>
    have hb := h.table.genuine b hb
    ⟨hb.hash, hb.valid, hb.read⟩
  exact ⟨⟨h.table.keyed, h.table.orders, h.table.next, hgenuine, h.table.sourced, h.table.count,
    h.table.bytes, h.table.deads⟩, h.memory, h.covers⟩

/-- The send schedule of a process, on whatever file it finds: in every state,
    and for the deadlines between two states. -/
theorem send_schedule (env : OutboxEnv) (earlier : ℕ → ℚ) (hmono : Monotone env.clock)
    (maxBytes : ℤ) (maxRecords : ℕ) (accounting : Option (Accounting × ℤ))
    (before mid after : List OutboxOp) (hstays : ∀ op ∈ after, op.Stays) :
    let s₀ := runCalls (OutboxOp.exec { env with clock := earlier })
      (.fresh maxBytes maxRecords accounting) before
    let s := runCalls (OutboxOp.exec env) s₀ (.restart maxBytes maxRecords accounting :: mid)
    let s' := runCalls (OutboxOp.exec env) s after
    Scheduled env s' ∧ ∀ key e e', s.session.entries.get? key = some e →
      s'.session.entries.get? key = some e' → e.row.localOrder = e'.row.localOrder →
      e.due ≤ e'.due := by
  intro s₀ s s'
  have hfresh := sound_fresh { env with clock := earlier } maxBytes maxRecords accounting
  have hs₀ : Sound { env with clock := earlier } s₀ := sound_run hfresh before
  have hsound : Sound env s₀ := hs₀.of_clock
  have htries : StagedIdle s₀ ∧ Tries s₀ :=
    tries_run hfresh (fun k e he => by cases he) tries_fresh before
  have hs : Scheduling env s :=
    scheduling_run hmono (scheduling_restart hmono hsound maxBytes maxRecords accounting) mid
  have htries' : Tries s' := by
    have hmid : StagedIdle s ∧ Tries s := tries_run hsound htries.1 htries.2 _
    exact (tries_run hs.sound hmid.1 hmid.2 after).2
  exact ⟨scheduled_of hmono (scheduling_run hmono hs after) htries',
    fun key e e' he he' hsame => due_le hmono hs hstays he he' hsame⟩

end Runs

section Scripted

attribute [local instance] JsonSchema.atRoot Footprint.ample

/-- A store whose clock is read every quarter of a second and a little more, but for half a
    minute in between. -/
def uneven : OutboxEnv :=
  .scripted 2 Nat.two_pos none fun n => if n < 7 then 250 * n + n / 8 else 30000 + 250 * n

theorem uneven_clock : Monotone uneven.clock := fun m n h => by
  have hle : (m : ℚ) ≤ n := by exact_mod_cast h
  show (if m < 7 then 250 * (m : ℚ) + m / 8 else 30000 + 250 * m)
    ≤ if n < 7 then 250 * (n : ℚ) + n / 8 else 30000 + 250 * n
  split_ifs with hm hn hn
  · linarith
  · have : (m : ℚ) < 7 := by exact_mod_cast hm
    linarith
  · omega
  · linarith

/-- Two batches, to be sent again when they are not answered. -/
def sendAgain : List OutboxOp := List.replicate 6 (.reserve none)

theorem stays_sendAgain : ∀ op ∈ sendAgain, op.Stays := fun op hop => by
  rw [(List.mem_replicate.mp hop).2]
  exact fun _ _ _ h => by cases h

/-- The file that a process finds. -/
def unused : Outbox :=
  runCalls (OutboxOp.exec { uneven with clock := fun _ => 7 }) (.fresh 4194304 10000 none) []

/-- The batches of the process. -/
def enqueueTwo : List OutboxOp :=
  enqueueOne ++ [.enqueue (scriptedBatch (py "n")) none {} none]

/-- A run that sends, and the limits on it. -/
theorem send_schedule_uneven :
    let s := runCalls (OutboxOp.exec uneven)
      (runCalls (OutboxOp.exec uneven) unused (.restart 4194304 10000 none :: enqueueTwo)) sendAgain
    Scheduled uneven s ∧
      (reservations s).map (fun r => (r.entry.row.messageId, r.time uneven, r.wait))
        = [(py "m", 250 + 1 / 8, 30000), (py "n", 750 + 3 / 8, 30000), (py "m", 32000, 60000)] := by
  intro s
  refine ⟨(send_schedule uneven (fun _ => 7) uneven_clock 4194304 10000 none [] enqueueTwo sendAgain
    stays_sendAgain).1, ?_⟩
  decide +kernel

/-- A message id comes back half a second after its first attempt, because its
    batch was stored and then enqueued again. -/
theorem send_schedule_reused :
    let s := runCalls (OutboxOp.exec untimed) (.fresh 4194304 10000 none)
      (.restart 4194304 10000 none :: enqueueOne ++ .reserve none ::
        .acknowledge (scriptedAck (py "m")) :: enqueueOne ++ [.reserve none])
    (reservations s).map (fun r => (r.entry.row.messageId, r.time untimed))
      = [(py "m", 250), (py "m", 750)] := by
  decide +kernel

end Scripted

end PlcnextIot.Storage
