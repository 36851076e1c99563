/-
  PlcnextIot.Storage.Delivery

  The Outbox and the receiver over a network that loses, repeats, delays and reorders
  what is sent.

  A batch that `reserve` returned stays on the way for good, and so does every answer of
  the receiver: an arrival takes any of them, as often as it likes.  A loss is a message
  that never arrives.  Each side may be restarted between two calls, and the transactions
  of either side fail as they will.
-/

import PlcnextIot.Config.Content
import PlcnextIot.Storage.OutboxSending
import PlcnextIot.Storage.Receiver

namespace PlcnextIot.Storage

open PlcnextIot.Python PlcnextIot.Contracts PlcnextIot.Config PlcnextIot.Messaging
open PlcnextIot.Reporting PlcnextIot.Core PlcnextIot.Effect PlcnextIot.Effect.Prog Relation

/-! ## The link -/

/-- The two stores, and what was ever sent to either. -/
structure Link where
  outbox : Outbox
  receiver : Receiver := {}
  data : List Bytes := []
  acks : List Bytes := []

/-- The batch that a call hands over to be published. -/
def published : Except OutboxExc OutboxOutcome → List Bytes
  | .ok (.payload (some payload)) => [payload]
  | _ => []

/-- The answer of the receiver, if it gives one. -/
def answered : Except ReceiverExc (Option Bytes) → List Bytes
  | .ok (some bytes) => [bytes]
  | _ => []

/-- What can happen next. -/
inductive LinkOp where
  /-- A call of the Outbox; acknowledgements come over the network. -/
  | sender (op : OutboxOp) (own : ∀ ack, op ≠ .acknowledge ack)
  | ackArrives (i : ℕ)
  | dataArrives (i : ℕ) (now : ℤ) (fate : Fate)
  | installConfig (payload : Bytes) (fate : Fate)

section Model

variable [JsonSchema] [Footprint]

/-- A call of the Outbox. -/
def Link.call (env : OutboxEnv) (op : OutboxOp) (l : Link) : Link :=
  let step := perform (OutboxOp.exec env) l.outbox op
  { l with outbox := step.after, data := l.data ++ published step.result }

/-- A batch reaches the receiver. -/
def Link.receive (renv : ReceiverEnv) (payload : Bytes) (now : ℤ) (fate : Fate) (l : Link) : Link :=
  let (result, receiver) := (Storage.receive renv payload now fate).run l.receiver
  { l with receiver, acks := l.acks ++ answered result }

def Link.step (env : OutboxEnv) (renv : ReceiverEnv) (l : Link) : LinkOp → Link
  | .sender op _ => l.call env op
  | .ackArrives i => l.acks[i]?.elim l fun ack => l.call env (.acknowledge ack)
  | .dataArrives i now fate => l.data[i]?.elim l fun payload => l.receive renv payload now fate
  | .installConfig payload fate =>
    { l with receiver := ((Storage.installConfig renv payload fate).run l.receiver).2 }

def Link.run (env : OutboxEnv) (renv : ReceiverEnv) (l : Link) (ops : List LinkOp) : Link :=
  ops.foldl (Link.step env renv) l

end Model

/-- What holds before an arrival and after the arrival of any message holds after it. -/
theorem arrival {P : Link → Prop} {l : Link} {messages : List Bytes} {i : ℕ} {f : Bytes → Link}
    (hl : P l) (hf : ∀ message ∈ messages, P (f message)) : P (messages[i]?.elim l f) := by
  cases hi : messages[i]? with
  | none => exact hl
  | some message => exact hf message (List.mem_of_getElem? hi)

/-! ## What `reserve` hands over -/

section Handed

variable [JsonSchema] [Footprint] {env : OutboxEnv} {s : Outbox}

/-- The payload is one of the table. -/
def Outbox.Keeps (s : Outbox) (payload : Bytes) : Prop := ∃ b ∈ s.db.batches, b.payload = payload

omit [JsonSchema] [Footprint] in
theorem keeps_updateBatch {payload : Bytes} {key : PyStr} {f : BatchColumns → BatchColumns} {db : Db}
    (h : ∃ b ∈ db.batches, b.payload = payload) :
    ∃ b ∈ (db.updateBatch key f).batches, b.payload = payload := by
  obtain ⟨b, hb, rfl⟩ := h
  refine ⟨_, List.mem_map.mpr ⟨b, hb, rfl⟩, ?_⟩
  split <;> rfl

omit [JsonSchema] [Footprint] in
theorem keeps_attemptSend {token : Option TimeToken} {choice : ℕ → Reservation} {payload : Bytes}
    (h : s.Keeps payload) :
    wp (attemptSend env token choice payload)
      (fun p s' => p = some payload ∧ s'.Keeps payload) (fun _ _ => True) s := by
  simp only [attemptSend, wp_bind, wp_get]
  apply wp_repository (E := fun _ => True) trivial
  simp only [wp_bind, wp_modify]
  refine wp_gate.mono (fun _ s₁ hl => ⟨?_, trivial⟩) fun _ _ _ => trivial
  simp only [sessionClock, wp_bind, wp_gets, wp_modify, wp_pure]
  refine ⟨trivial, ?_⟩
  show ∃ b ∈ s₁.db.batches, b.payload = payload
  rw [hl.1.frame]
  exact keeps_updateBatch h

omit [Footprint] in
theorem keeps_storedPayload {e : BatchState} :
    wp (storedPayload env e)
      (fun found s' => s' = s ∧ ∀ payload, found = some payload → s.Keeps payload)
      (fun _ _ => True) s := by
  unfold storedPayload
  rw [wp_bind, wp_get]
  cases hfound : s.db.payload e.row.messageId with
  | none => exact ⟨rfl, nofun⟩
  | some payload =>
      have hkeeps : s.Keeps payload := by
        obtain ⟨b, hb, hpayload⟩ := Option.map_eq_some_iff.mp hfound
        exact ⟨b, List.mem_of_find?_eq_some hb, hpayload⟩
      dsimp only
      rw [wp_ite]
      refine ⟨fun _ => ?_, fun _ => ⟨rfl, nofun⟩⟩
      simp only [wp_bind, wp_result, wp_pure]
      refine ⟨fun valid _ => ⟨trivial, fun p hp => ?_⟩, fun _ _ => trivial⟩
      split at hp
      · cases hp
        exact hkeeps
      · cases hp

/-- What a call returns is still in the table. -/
def Handed (s' : Outbox) (p : Option Bytes) : Prop := ∀ payload, p = some payload → s'.Keeps payload

omit [Footprint] in
theorem handed_select {token : Option TimeToken} {first : ℕ} {mono : ℚ} :
    wp (select env token first mono) (fun p s' => Handed s' p) (fun _ _ => True) s := by
  unfold select
  rw [wp_bind, wp_gets, wp_bind]
  refine waits_eligible.mono (fun ready t _ => ?_) fun _ _ _ => trivial
  rw [wp_bind, wp_get]
  dsimp only
  split
  · exact nofun
  · rw [sendChosen, wp_bind]
    refine keeps_storedPayload.mono ?_ fun _ _ _ => trivial
    rintro found s₁ ⟨rfl, hfound⟩
    cases found with
    | none =>
        simp only [wp_bind, wp_modify, wp_raise]
    | some payload =>
        dsimp only
        rw [wp_bind, wp_get, wp_ite]
        refine ⟨fun _ => nofun, fun _ => ?_⟩
        refine (keeps_attemptSend (hfound payload rfl)).mono ?_ fun _ _ _ => trivial
        rintro p s₂ ⟨rfl, hkeeps⟩ other hother
        cases hother
        exact hkeeps

theorem handed_reserve {token : Option TimeToken} :
    wp (reserve env token) (fun p s' => Handed s' p) (fun _ _ => True) s := by
  unfold reserve
  rw [wp_bind, requireOpen, wp_bind, wp_get, wp_check]
  refine ⟨fun _ => ?_, fun _ => trivial⟩
  rw [wp_bind]
  refine wp_gate.mono (fun _ t _ => ?_) fun _ _ _ => trivial
  simp only [wp_bind, wp_gets, sessionClock, wp_modify, wp_pure, wp_get]
  apply wp_of_forall _ fun _ _ => trivial
  intro _ t₁
  simp only [wp_ite, wp_bind, wp_modify, wp_get, wp_pure]
  exact ⟨fun _ _ hp => (by cases hp), fun _ => ⟨fun _ _ hp => (by cases hp), fun _ => handed_select⟩⟩

/-- Whatever is published is a batch of the table. -/
theorem published_keeps (op : OutboxOp) : ∀ payload ∈ published (perform (OutboxOp.exec env) s op).result,
    (perform (OutboxOp.exec env) s op).after.Keeps payload := by
  intro payload hpayload
  by_cases hop : ∃ token, op = .reserve token
  · obtain ⟨token, rfl⟩ := hop
    have hrun : wp (OutboxOp.exec env (.reserve token))
        (fun out s' => ∃ p, out = .payload p ∧ Handed s' p) (fun _ _ => True) s := by
      simp only [OutboxOp.exec, wp_bind, wp_pure]
      exact handed_reserve.mono (fun p _ h => ⟨p, rfl, h⟩) fun _ _ h => h
    cases hresult : (perform (OutboxOp.exec env) s (.reserve token)).result with
    | error e =>
        rw [hresult] at hpayload
        cases hpayload
    | ok out =>
        obtain ⟨p, rfl, hhanded⟩ := (perform_spec hrun).1 out hresult
        rw [hresult] at hpayload
        cases p with
        | none => cases hpayload
        | some sent =>
            rw [List.mem_singleton.mp hpayload]
            exact hhanded sent rfl
  · -- No other call returns a payload.
    have hno : ∀ p, (perform (OutboxOp.exec env) s op).result ≠ .ok (.payload p) :=
      result_ne_payload fun token h => hop ⟨token, h⟩
    unfold published at hpayload
    split at hpayload
    · rename_i sent hresult
      exact absurd hresult (hno (some sent))
    · cases hpayload

end Handed

/-! ## The invariant -/

section Invariant

variable [JsonSchema] [Footprint] {env : OutboxEnv} {renv : ReceiverEnv} {l : Link}

/-- Every message on the way has its cause in the store it came from. -/
structure Link.Sound (env : OutboxEnv) (renv : ReceiverEnv) (l : Link) : Prop where
  outbox : Storage.Sound env l.outbox
  ledger : Ledger env (· ∈ l.acks) l.outbox.journal l.outbox.db
  receiver : l.receiver.Sound renv
  /-- What was sent had been inserted. -/
  sent : ∀ payload ∈ l.data, ∃ b ∈ insertions l.outbox.journal, b.payload = payload
  /-- What was stored had been sent. -/
  stored : ∀ r ∈ l.receiver.receipts, r.payload ∈ l.data
  /-- An answer that says `STORED` has its receipt. -/
  truthful : ∀ ack ∈ l.acks, ∀ messageId, readAck ack = .ok (messageId, .stored) →
    ∃ r ∈ l.receiver.receipts, r.messageId = messageId

omit [Footprint] in
theorem Acknowledged.mono {delivered delivered' : Bytes → Prop} {e : BatchState} {ack : Bytes}
    (h : Acknowledged env delivered e ack)
    (hmore : ∀ ack, delivered ack → delivered' ack) : Acknowledged env delivered' e ack :=
  ⟨hmore _ h.delivered, h.valid, h.read, h.sent, h.waiting⟩

omit [Footprint] in
theorem Change.Justified.mono {delivered delivered' : Bytes → Prop} {c : Change}
    (h : c.Justified env delivered) (hmore : ∀ ack, delivered ack → delivered' ack) :
    c.Justified env delivered' := by
  cases c with
  | inserted b accepted => exact h
  | attempted r => trivial
  | terminated e source cause old =>
      obtain ⟨hpending, hcaused, hold⟩ := h
      refine ⟨hpending, ?_, hold⟩
      cases hcaused with
      | aged hexpiry => exact .aged hexpiry
      | rejected hin hvalid hread hcodes hsent => exact .rejected (hmore _ hin) hvalid hread hcodes hsent
  | stored e ack => exact Acknowledged.mono h hmore
  | pruned e => exact h

omit [Footprint] in
/-- More answers on the way justify no less. -/
theorem Ledger.mono {delivered delivered' : Bytes → Prop} {journal : List Change} {db : Db}
    (h : Ledger env delivered journal db) (hmore : ∀ ack, delivered ack → delivered' ack) :
    Ledger env delivered' journal db :=
  ⟨fun c hc => (h.justified c hc).mono hmore, h.increasing, h.below, h.origin, h.fate⟩

omit [Footprint] in
theorem Link.sound_fresh (env : OutboxEnv) (renv : ReceiverEnv) (maxBytes : ℤ) (maxRecords : ℕ)
    (accounting : Option (Accounting × ℤ)) :
    Link.Sound env renv { outbox := .fresh maxBytes maxRecords accounting } where
  outbox := Storage.sound_fresh env maxBytes maxRecords accounting
  ledger := ledger_empty
  receiver := .empty renv
  sent := nofun
  stored := nofun
  truthful := nofun

/-- The journal of a call continues the one before. -/
theorem insertions_mono (h : Storage.Sound env l.outbox) (op : OutboxOp) {b : Batch}
    (hb : b ∈ insertions l.outbox.journal) :
    b ∈ insertions (perform (OutboxOp.exec env) l.outbox op).after.journal := by
  obtain ⟨changes, hchanges, -⟩ := onward_run h [op]
  have hjournal : (perform (OutboxOp.exec env) l.outbox op).after.journal
      = l.outbox.journal ++ changes := hchanges
  obtain ⟨accepted, hin⟩ := mem_insertions.mp hb
  rw [hjournal]
  exact mem_insertions.mpr ⟨accepted, List.mem_append_left _ hin⟩

/-- A call of the Outbox, acknowledging only what is on the way. -/
theorem Link.Sound.call (h : l.Sound env renv) {op : OutboxOp}
    (hacks : ∀ ack, op = .acknowledge ack → ack ∈ l.acks) : (l.call env op).Sound env renv := by
  have hledger : Ledger env (· ∈ l.acks) (perform (OutboxOp.exec env) l.outbox op).after.journal
      (perform (OutboxOp.exec env) l.outbox op).after.db := by
    have hacks' : ∀ ack, .acknowledge ack ∈ [op] → ack ∈ l.acks := fun ack hack =>
      hacks ack (List.mem_singleton.mp hack).symm
    exact ledger_run h.outbox h.ledger hacks'
  refine ⟨sound_run h.outbox [op], hledger, h.receiver, ?_, ?_, h.truthful⟩
  · intro payload hpayload
    rcases List.mem_append.mp hpayload with hold | hnew
    · obtain ⟨b, hb, hb'⟩ := h.sent payload hold
      exact ⟨b, insertions_mono h.outbox op hb, hb'⟩
    · -- what was published is in the table, and so in the journal
      obtain ⟨b, hb, hb'⟩ := published_keeps op payload hnew
      obtain ⟨b₀, hb₀, hfixed⟩ := hledger.origin b hb
      exact ⟨b₀, hb₀, (payload_of_fixed hfixed).trans hb'⟩
  · intro r hr
    exact List.mem_append_left _ (h.stored r hr)

omit [JsonSchema] [Footprint] in
/-- An answer that reads as `STORED` is one, for the message it names. -/
theorem stored_answer {now : ℤ} {messageId key : PyStr} {code : Option String} {bytes : Bytes}
    (hnow : (Json.int now).Loaded) (hbytes : Messaging.encode (answer renv now messageId code) = .ok bytes)
    (hread : readAck bytes = .ok (key, .stored)) : key = messageId ∧ code = none := by
  unfold readAck at hread
  split at hread
  · cases hread
  rename_i ack hdecode
  have hack := decode_encode (answer_loaded hnow code) hbytes hdecode
  subst hack
  have hid : strItem (answer renv now messageId code) "messageId" = .ok messageId := rfl
  rw [hid] at hread
  cases code with
  | none =>
      cases hread
      exact ⟨rfl, rfl⟩
  | some code =>
      -- a refusal has another status
      have hstatus : strItem (answer renv now messageId (some code)) "status" = .ok (py "REJECTED") := rfl
      have hne : py "REJECTED" ≠ py "STORED" := by decide
      rw [hstatus] at hread
      obtain ⟨named, -, hread⟩ := bind_eq_ok hread
      obtain ⟨status, hfound, hread⟩ := bind_eq_ok hread
      cases hfound
      rw [if_neg hne] at hread
      obtain ⟨errors, -, hread⟩ := bind_eq_ok hread
      obtain ⟨codes, -, hread⟩ := bind_eq_ok hread
      cases hread

omit [Footprint] in
/-- What the receiver makes of an arrival. -/
theorem receive_result (renv : ReceiverEnv) (payload : Bytes) (now : ℤ) (fate : Fate) (s : Receiver) :
    Receives renv payload now s ((Storage.receive renv payload now fate).run s).2 ∧
      ∀ bytes ∈ answered ((Storage.receive renv payload now fate).run s).1,
        ∃ messageId, Answers renv now messageId payload
          ((Storage.receive renv payload now fate).run s).2 bytes := by
  obtain ⟨hok, herror⟩ := (wp_iff_run _).mp (receive_spec (s := s) renv payload now fate)
  rcases hrun : (Storage.receive renv payload now fate).run s with ⟨result, s'⟩
  cases result with
  | error e => exact ⟨herror e s' hrun, nofun⟩
  | ok out =>
      obtain ⟨hreceives, hanswers⟩ := hok out s' hrun
      refine ⟨hreceives, fun bytes hbytes => ?_⟩
      cases out with
      | none => cases hbytes
      | some sent =>
          obtain ⟨messageId, -, -, hanswer⟩ := hanswers sent rfl
          rw [List.mem_singleton.mp hbytes]
          exact ⟨messageId, hanswer⟩

omit [Footprint] in
/-- Only what arrives is stored. -/
theorem receipts_of_receives {payload : Bytes} {now : ℤ} {s s' : Receiver}
    (h : Receives renv payload now s s') {r : Receipt} (hr : r ∈ s'.receipts) :
    r ∈ s.receipts ∨ r.payload = payload := by
  cases h with
  | unread hs => exact .inl (hs ▸ hr)
  | taken hidentity hvalid hwire htakes =>
      cases htakes with
      | nothing => exact .inl hr
      | receipt =>
          rcases List.mem_append.mp hr with hr | hr
          · exact .inl hr
          · rw [List.mem_singleton.mp hr]
            exact .inr rfl

omit [Footprint] in
theorem receipts_of_installs {payload : Bytes} {s s' : Receiver} (h : Installs renv payload s s') :
    s'.receipts = s.receipts := by
  cases h with
  | nothing => rfl
  | config => rfl

omit [Footprint] in
theorem Link.Sound.receive (h : l.Sound env renv) {payload : Bytes} (hpayload : payload ∈ l.data)
    {now : ℤ} (hnow : (Json.int now).Loaded) (fate : Fate) :
    (l.receive renv payload now fate).Sound env renv := by
  obtain ⟨hreceives, hanswers⟩ := receive_result renv payload now fate l.receiver
  have hgrows := Receiver.Grows.of_receives hreceives
  refine ⟨h.outbox, h.ledger.mono fun ack => List.mem_append_left _, h.receiver.receives hreceives,
    h.sent, ?_, ?_⟩
  · intro r hr
    rcases receipts_of_receives hreceives hr with hold | hnew
    · exact h.stored r hold
    · exact hnew ▸ hpayload
  · intro ack hack messageId hread
    rcases List.mem_append.mp hack with hold | hnew
    · obtain ⟨r, hr, hid⟩ := h.truthful ack hold messageId hread
      exact ⟨r, hgrows.receipts.subset hr, hid⟩
    · obtain ⟨named, code, hbytes, hholds⟩ := hanswers ack hnew
      obtain ⟨rfl, rfl⟩ := stored_answer hnow hbytes hread
      obtain ⟨r, hr, hid, -⟩ := hholds rfl
      exact ⟨r, hr, hid⟩

/-- The clock of an arrival is one whose reading can be written out. -/
def LinkOp.Timed : LinkOp → Prop
  | .dataArrives _ now _ => (Json.int now).Loaded
  | _ => True

theorem Link.Sound.step (h : l.Sound env renv) {op : LinkOp} (htimed : op.Timed) :
    (l.step env renv op).Sound env renv := by
  cases op with
  | sender op own => exact h.call fun ack hack => absurd hack (own ack)
  | ackArrives i =>
      apply arrival h
      intro ack hack
      apply h.call
      intro other hother
      cases hother
      exact hack
  | dataArrives i now fate =>
      apply arrival h
      exact fun payload hpayload => h.receive hpayload htimed fate
  | installConfig payload fate =>
      have hinstalls : Installs renv payload l.receiver
          ((Storage.installConfig renv payload fate).run l.receiver).2 :=
        (installConfig_spec fate).final
      have hgrows := Receiver.Grows.of_installs hinstalls
      refine ⟨h.outbox, h.ledger, h.receiver.installs hinstalls, h.sent, ?_, ?_⟩
      · intro r hr
        apply h.stored
        rwa [← receipts_of_installs hinstalls]
      · intro ack hack messageId hread
        obtain ⟨r, hr, hid⟩ := h.truthful ack hack messageId hread
        exact ⟨r, hgrows.receipts.subset hr, hid⟩

end Invariant

/-! ## Runs -/

section Runs

variable [JsonSchema] [Footprint] {env : OutboxEnv} {renv : ReceiverEnv}

/-- The batches that the process offers to the Outbox. -/
def offered (ops : List LinkOp) : List Bytes :=
  ops.filterMap fun
    | .sender (.enqueue payload _ _ _) _ => some payload
    | _ => none

/-- Every message id is used for one payload. -/
def OneEach (payloads : List Bytes) : Prop :=
  ∀ p ∈ payloads, ∀ q ∈ payloads, ∀ messageId stamp stamp', readBatch p = .ok (messageId, stamp) →
    readBatch q = .ok (messageId, stamp') → p = q

theorem Link.sound_run {l : Link} (h : l.Sound env renv) {ops : List LinkOp}
    (htimed : ∀ op ∈ ops, op.Timed) : (l.run env renv ops).Sound env renv := by
  induction ops generalizing l with
  | nil => exact h
  | cons op rest ih =>
      apply ih (h.step (htimed op List.mem_cons_self))
      exact fun other hother => htimed other (List.mem_cons_of_mem op hother)

/-- A batch that is inserted was given to the call; one that is stored has an entry. -/
def Change.Noted (op : OutboxOp) (s : Outbox) : Change → Prop
  | .inserted b _ => ∃ now association token, op = .enqueue b.payload now association token
  | .stored e _ => ∃ key, s.session.entries.get? key = some e
  | _ => True

theorem journal_step {op : OutboxOp} {s s' : Outbox} (hstep : Commit env op s s') :
    s'.journal = s.journal ∨ ∃ c, s'.journal = s.journal ++ [c] ∧ c.Noted op s := by
  cases hstep with
  | waited hl =>
      rw [hl.frame]
      exact .inl rfl
  | inserted i hi => exact .inr ⟨.inserted i.batch i.accepted, rfl, _, _, _, hi.call⟩
  | stored ack key e hopen hkey => exact .inr ⟨.stored e ack, rfl, key, hkey⟩
  | terminated cause key reason source e => exact .inr ⟨.terminated e source cause _, rfl, trivial⟩
  | pruned key e => exact .inr ⟨.pruned e, rfl, trivial⟩
  | attempted r => exact .inr ⟨.attempted r, rfl, trivial⟩
  | _ => exact .inl rfl

/-- Where the batches of a journal come from, and those it removes. -/
structure Traced (payloads : List Bytes) (s : Outbox) : Prop where
  inserted : ∀ b ∈ insertions s.journal, b.payload ∈ payloads
  removed : ∀ e ack, .stored e ack ∈ s.journal → ∃ b ∈ insertions s.journal, e.Of b

theorem traced_step {delivered : Bytes → Prop} {payloads : List Bytes} {op : OutboxOp} {s s' : Outbox}
    (hop : ∀ payload now association token, op = .enqueue payload now association token →
      payload ∈ payloads)
    (hsound : Storage.Sound env s) (hledger : Ledger env delivered s.journal s.db)
    (hstep : Commit env op s s') (h : Traced payloads s) : Traced payloads s' := by
  rcases journal_step hstep with hsame | ⟨c, hmore, hnoted⟩
  · exact ⟨by rw [hsame]; exact h.inserted, by rw [hsame]; exact h.removed⟩
  have hmono : ∀ b ∈ insertions s.journal, b ∈ insertions s'.journal := fun b hb => by
    obtain ⟨accepted, hin⟩ := mem_insertions.mp hb
    rw [hmore]
    exact mem_insertions.mpr ⟨accepted, List.mem_append_left _ hin⟩
  refine ⟨fun b hb => ?_, fun e ack hin => ?_⟩
  · obtain ⟨accepted, hin⟩ := mem_insertions.mp hb
    rw [hmore] at hin
    rcases List.mem_append.mp hin with hin | hin
    · exact h.inserted b (mem_insertions.mpr ⟨accepted, hin⟩)
    · rw [← List.mem_singleton.mp hin] at hnoted
      obtain ⟨now, association, token, hcall⟩ := hnoted
      exact hop _ _ _ _ hcall
  · rw [hmore] at hin
    rcases List.mem_append.mp hin with hin | hin
    · obtain ⟨b, hb, hof⟩ := h.removed e ack hin
      exact ⟨b, hmono b hb, hof⟩
    · -- the entry is that of a row, and the row was inserted
      rw [← List.mem_singleton.mp hin] at hnoted
      obtain ⟨key, hkey⟩ := hnoted
      obtain ⟨b, hb, -, hagrees⟩ := hsound.memory.entries key e hkey
      obtain ⟨b₀, hb₀, hfixed⟩ := hledger.origin b hb
      exact ⟨b₀, hmono b₀ hb₀, hagrees.of.fixed hfixed.symm⟩

omit [JsonSchema] [Footprint] in
theorem traced_fresh (payloads : List Bytes) (maxBytes : ℤ) (maxRecords : ℕ)
    (accounting : Option (Accounting × ℤ)) :
    Traced payloads (.fresh maxBytes maxRecords accounting) := by
  constructor
  · exact fun b hb => absurd hb List.not_mem_nil
  · exact fun e ack hin => absurd hin List.not_mem_nil

theorem Link.traced_call {l : Link} (h : l.Sound env renv) {payloads : List Bytes} {op : OutboxOp}
    (hop : ∀ payload now association token, op = .enqueue payload now association token →
      payload ∈ payloads)
    (hacks : ∀ ack, op = .acknowledge ack → ack ∈ l.acks) (ht : Traced payloads l.outbox) :
    Traced payloads (l.call env op).outbox := by
  refine (path_keeps (I := fun s => Storage.Sound env s ∧ Ledger env (· ∈ l.acks) s.journal s.db ∧
    Traced payloads s) (fun a b hstep hab => ?_) (exec_goes op l.outbox).path
    ⟨h.outbox, h.ledger, ht⟩).2.2
  obtain ⟨hsound, hledger, htraced⟩ := hab
  exact ⟨sound_step hstep hsound, ledger_step hstep hsound hacks hledger,
    traced_step hop hsound hledger hstep htraced⟩

theorem Link.traced_step {l : Link} (h : l.Sound env renv) {payloads : List Bytes} {op : LinkOp}
    (hop : ∀ payload ∈ offered [op], payload ∈ payloads) (ht : Traced payloads l.outbox) :
    Traced payloads (l.step env renv op).outbox := by
  cases op with
  | sender op own =>
      refine traced_call h (fun payload now association token hcall => ?_)
        (fun ack hack => absurd hack (own ack)) ht
      subst hcall
      exact hop payload (List.mem_singleton_self _)
  | ackArrives i =>
      apply arrival (P := fun l' => Traced payloads l'.outbox) ht
      intro ack hack
      refine traced_call h nofun (fun other hother => ?_) ht
      cases hother
      exact hack
  | dataArrives i now fate =>
      exact arrival (P := fun l' => Traced payloads l'.outbox) ht fun _ _ => ht
  | installConfig payload fate => exact ht

theorem Link.traced_run {l : Link} (h : l.Sound env renv) {payloads : List Bytes} {ops : List LinkOp}
    (htimed : ∀ op ∈ ops, op.Timed) (hops : ∀ payload ∈ offered ops, payload ∈ payloads)
    (ht : Traced payloads l.outbox) : Traced payloads (l.run env renv ops).outbox := by
  induction ops generalizing l with
  | nil => exact ht
  | cons op rest ih =>
      have hsplit : offered (op :: rest) = offered [op] ++ offered rest :=
        List.filterMap_append (l := [op])
      rw [hsplit] at hops
      apply ih (h.step (htimed op List.mem_cons_self))
      · exact fun other hother => htimed other (List.mem_cons_of_mem op hother)
      · exact fun payload hin => hops payload (List.mem_append_right _ hin)
      · exact traced_step h (fun payload hin => hops payload (List.mem_append_left _ hin)) ht

/-- The receiver only adds to its tables. -/
theorem Link.grows_run (l : Link) (ops : List LinkOp) :
    l.receiver.Grows (l.run env renv ops).receiver := by
  induction ops generalizing l with
  | nil => exact .refl _
  | cons op rest ih =>
      refine Receiver.Grows.trans ?_ (ih _)
      cases op with
      | sender op own => exact .refl _
      | ackArrives i =>
          exact arrival (P := fun l' => l.receiver.Grows l'.receiver) (.refl _) fun _ _ => .refl _
      | dataArrives i now fate =>
          apply arrival (P := fun l' => l.receiver.Grows l'.receiver) (.refl _)
          exact fun payload _ => .of_receives (receive_result renv payload now fate l.receiver).1
      | installConfig payload fate => exact .of_installs (installConfig_spec fate).final

omit [Footprint] in
/-- A message id is read alike on both sides. -/
theorem messageId_of_payload {b : Batch} {r : Receipt} {configs : List InstalledConfig}
    (hb : Genuine env b) (hr : r.Genuine renv configs) (hsame : b.payload = r.payload) :
    b.messageId = r.messageId := by
  obtain ⟨stamp, hread⟩ := hb.read
  obtain ⟨version, wire, row, snapshot, hidentity, -⟩ := hr.accepted
  obtain ⟨-, value, hvalue, hid⟩ := identity_eq_some hidentity
  rw [hsame, readBatch] at hread
  split at hread
  · cases hread
  rename_i message hmessage
  -- both read the same JSON text
  have hvalue' : message = value := by
    simp only [decodeMessage, hvalue] at hmessage
    split at hmessage
    · exact (Option.some.inj hmessage).symm
    · cases hmessage
  subst hvalue'
  obtain ⟨found, hfound, hread⟩ := bind_eq_ok hread
  obtain ⟨time, -, hread⟩ := bind_eq_ok hread
  obtain ⟨number, -, hread⟩ := bind_eq_ok hread
  cases hread
  rw [strItem_eq_ok, hid] at hfound
  exact (Json.str.inj (Option.some.inj hfound)).symm

/-- End to end: a batch that left the Outbox as `STORED` has a receipt with its bytes,
    whatever happens on the way; no message has two receipts, and no receipt changes. -/
theorem delivered (env : OutboxEnv) (renv : ReceiverEnv) (maxBytes : ℤ) (maxRecords : ℕ)
    (accounting : Option (Accounting × ℤ)) (before after : List LinkOp)
    (htimed : ∀ op ∈ before ++ after, op.Timed) (hone : OneEach (offered before)) :
    let l := Link.run env renv { outbox := .fresh maxBytes maxRecords accounting } before
    let l' := l.run env renv after
    (∀ e ack, .stored e ack ∈ l.outbox.journal → ∃ b ∈ insertions l.outbox.journal, e.Of b ∧
      b.payload ∈ offered before ∧
      ∃ r ∈ l.receiver.receipts, r.messageId = b.messageId ∧ r.payload = b.payload) ∧
    Keyed Receipt.messageId l'.receiver.receipts ∧
    l.receiver.receipts <+: l'.receiver.receipts := by
  intro l l'
  have hfresh := Link.sound_fresh env renv maxBytes maxRecords accounting
  have hbefore : ∀ op ∈ before, op.Timed := fun op hop => htimed op (List.mem_append_left _ hop)
  have hafter : ∀ op ∈ after, op.Timed := fun op hop => htimed op (List.mem_append_right _ hop)
  have hl : l.Sound env renv := Link.sound_run hfresh hbefore
  have ht : Traced (offered before) l.outbox :=
    Link.traced_run hfresh hbefore (fun _ h => h)
      (traced_fresh _ maxBytes maxRecords accounting)
  refine ⟨fun e ack hin => ?_, (Link.sound_run hl hafter).receiver.messageIds,
    (Link.grows_run l after).receipts⟩
  obtain ⟨b, hb, hof⟩ := ht.removed e ack hin
  have hack : Acknowledged env (· ∈ l.acks) e ack := hl.ledger.justified _ hin
  obtain ⟨r, hr, hid⟩ := hl.truthful ack hack.delivered _ hack.read
  refine ⟨b, hb, hof, ht.inserted b hb, r, hr, hid.trans hof.messageId, ?_⟩
  -- The payload of the receipt was sent, hence inserted, under the same id.
  obtain ⟨b', hb', hpayload⟩ := hl.sent _ (hl.stored r hr)
  obtain ⟨accepted, hin⟩ := mem_insertions.mp hb
  obtain ⟨accepted', hin'⟩ := mem_insertions.mp hb'
  obtain ⟨stamp, hread⟩ := (hl.ledger.justified _ hin).1.read
  have hgenuine' := (hl.ledger.justified _ hin').1
  obtain ⟨stamp', hread'⟩ := hgenuine'.read
  have hsame := messageId_of_payload hgenuine' (hl.receiver.receipts r hr) hpayload
  rw [hsame, hid, hof.messageId] at hread'
  rw [← hpayload]
  exact hone _ (ht.inserted b' hb') _ (ht.inserted b hb) _ _ _ hread' hread

end Runs

section Scripted

attribute [local instance] JsonSchema.atRoot Footprint.ample

/-- The first answer comes late, after the batch was sent again. -/
def deliverOne : List LinkOp :=
  [.installConfig scriptedConfig .commits, .sender (.restart 4194304 10000 none) nofun,
    .sender (.enqueue (scriptedBatch (py "m")) none {} none) nofun, .sender (.reserve none) nofun,
    .dataArrives 0 1000 .commits, .sender (.restart 4194304 10000 none) nofun,
    .dataArrives 0 1001 .fails, .ackArrives 0]

theorem timed_deliverOne : ∀ op ∈ deliverOne ++ [], op.Timed := by
  have hnow : ∀ now ∈ [1000, 1001], (digitsText now).length ≤ maxIntDigits := by decide
  intro op hop
  simp only [deliverOne, List.append_nil, List.mem_cons, List.not_mem_nil, or_false] at hop
  rcases hop with rfl | rfl | rfl | rfl | rfl | rfl | rfl | rfl
  all_goals first | trivial | exact hnow _ (by decide)

/-- The message that a change removes as stored. -/
def Change.storedId? : Change → Option PyStr
  | .stored e _ => some e.row.messageId
  | _ => none

/-- The stores after it. -/
def deliveredOne : Link :=
  Link.run untimed .scripted { outbox := .fresh 4194304 10000 none } deliverOne

/-- The batch has left the Outbox, and its bytes are with the receiver. -/
theorem delivered_one : deliveredOne.outbox.db.batches = [] ∧
    ∃ r ∈ deliveredOne.receiver.receipts, r.messageId = py "m" ∧
      r.payload = scriptedBatch (py "m") := by
  have hrun : deliveredOne.outbox.db.batches = [] ∧
      ∃ c ∈ deliveredOne.outbox.journal, c.storedId? = some (py "m") := by decide +kernel
  have hoffered : offered deliverOne = [scriptedBatch (py "m")] := rfl
  have hone : OneEach (offered deliverOne) := by
    intro p hp q hq _ _ _ _ _
    rw [hoffered, List.mem_singleton] at hp hq
    rw [hp, hq]
  have hlink : Link.run untimed .scripted { outbox := .fresh 4194304 10000 none } deliverOne
      = deliveredOne := rfl
  have hdelivered := (delivered untimed .scripted 4194304 10000 none deliverOne []
    timed_deliverOne hone).1
  rw [hlink] at hdelivered
  obtain ⟨hempty, c, hc, hid⟩ := hrun
  refine ⟨hempty, ?_⟩
  cases c with
  | stored e ack =>
      obtain ⟨b, -, hof, hin, r, hr, hrid, hpayload⟩ := hdelivered e ack hc
      have hmessage : e.row.messageId = py "m" := Option.some.inj hid
      refine ⟨r, hr, ?_, ?_⟩
      · rw [hrid, ← hof.messageId, hmessage]
      · rw [hoffered, List.mem_singleton] at hin
        rw [hpayload, hin]
  | _ => cases hid

end Scripted

end PlcnextIot.Storage
