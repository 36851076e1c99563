/-
  PlcnextIot.Reporting.Handover

  What `prepare`, `committed`, `abandon` and `configure` do to an engine.

  A batch takes the first events of one class, and they stay owned until it is
  committed.  `Freezes` describes one iteration of `prepare`'s loop; `materialize_rule`
  is the loop's rule for an invariant that these iterations keep.
-/

import PlcnextIot.Reporting.EngineSteps
import PlcnextIot.Effect.Returns

namespace PlcnextIot.Reporting

open PlcnextIot.Python PlcnextIot.Config PlcnextIot.Points PlcnextIot.Effect PlcnextIot.Effect.Prog

/-! ## The events of a batch -/

/-- A batch takes events from the front of the queue, and at least one. -/
theorem scan_taken {queue : List (Sample × ℤ)} {c : Scan} {pending : List Sample}
    (h : scan queue c = .ok pending) :
    ∃ taken rest, queue = taken ++ rest ∧ pending = c.pending ++ taken.map Prod.fst ∧
      (c.pending = [] → queue ≠ [] → taken ≠ []) := by
  induction queue generalizing c with
  | nil =>
      obtain rfl := Except.ok.inj h
      exact ⟨[], [], rfl, by simp, fun _ hne => absurd rfl hne⟩
  | cons entry rest ih =>
      obtain ⟨s, sampleLimit⟩ := entry
      obtain ⟨entry, hentry, h⟩ := bind_eq_ok h
      obtain ⟨bytes, hbytes, h⟩ := bind_eq_ok h
      by_cases hends : c.ends s sampleLimit (bytes.length + 1) = true
      · rw [if_pos hends] at h
        obtain rfl := Except.ok.inj h
        refine ⟨[], (s, sampleLimit) :: rest, rfl, by simp, fun hempty _ => ?_⟩
        rw [Scan.ends, hempty] at hends
        cases hends
      · rw [if_neg hends] at h
        obtain ⟨taken, rest', hrest, hpending, -⟩ := ih h
        refine ⟨(s, sampleLimit) :: taken, rest', by rw [hrest]; rfl, ?_, fun _ _ => by simp⟩
        rw [hpending, List.map_cons, List.append_assoc]
        rfl

/-! ## `prepare` -/

/-! ### The errors of the encoding -/

theorem encode_ne_key {j : Json} {err : EngineExc} (h : encode j = .error err) : err ≠ .key := by
  unfold encode at h
  split at h
  · cases h
  · cases h
    simp

theorem entryJson_ne_key {s : Sample} {err : EngineExc} (h : entryJson s = .error err) :
    err ≠ .key := by
  rcases bind_eq_error h with h | ⟨value, -, h⟩
  · unfold valueJson at h
    split at h <;> cases h
    simp
  · cases h

theorem scan_ne_key {queue : List (Sample × ℤ)} {c : Scan} {err : EngineExc}
    (h : scan queue c = .error err) : err ≠ .key := by
  induction queue generalizing c with
  | nil => cases h
  | cons entry rest ih =>
      obtain ⟨s, sampleLimit⟩ := entry
      rcases bind_eq_error h with h | ⟨entry, -, h⟩
      · exact entryJson_ne_key h
      rcases bind_eq_error h with h | ⟨bytes, -, h⟩
      · exact encode_ne_key h
      · by_cases hends : c.ends s sampleLimit (bytes.length + 1) = true
        · rw [if_pos hends] at h
          cases h
        · rw [if_neg hends] at h
          exact ih h

theorem entries_ne_key {pending : List Sample} {err : EngineExc}
    (h : pending.mapM entryJson = .error err) : err ≠ .key := by
  induction pending with
  | nil => cases h
  | cons s rest ih =>
      rw [List.mapM_cons] at h
      rcases bind_eq_error h with h | ⟨entry, -, h⟩
      · exact entryJson_ne_key h
      rcases bind_eq_error h with h | ⟨entries, -, h⟩
      · exact ih h
      · cases h

theorem batchPayload_ne_key {gateway bootId messageId : PyStr} {wallMs sequence : ℤ}
    {pending : List Sample} {err : EngineExc}
    (h : batchPayload gateway bootId messageId wallMs sequence pending = .error err) : err ≠ .key := by
  rcases bind_eq_error h with h | ⟨values, -, h⟩
  · exact entries_ne_key h
  · exact encode_ne_key h

/-! ### The class of the next batch -/

theorem nextClass_some {e : Engine} {c : Category} (h : e.nextClass = some c) :
    e.frozen.items.length < 8 ∧ e.available c = true := by
  rw [Engine.nextClass] at h
  by_cases hroom : 8 ≤ e.frozen.items.length
  · rw [if_pos hroom] at h
    cases h
  · refine ⟨not_le.mp hroom, ?_⟩
    rw [if_neg hroom] at h
    by_cases hpreferred : e.available e.preferred = true
    · rw [if_pos hpreferred] at h
      obtain rfl := Option.some.inj h
      exact hpreferred
    · rw [if_neg hpreferred] at h
      exact List.find?_some h

theorem nextClass_none {e : Engine} (h : e.nextClass = none) :
    8 ≤ e.frozen.items.length ∨ ∀ c, e.available c = false := by
  rw [Engine.nextClass] at h
  by_cases hroom : 8 ≤ e.frozen.items.length
  · exact .inl hroom
  · rw [if_neg hroom] at h
    by_cases hpreferred : e.available e.preferred = true
    · rw [if_pos hpreferred] at h
      cases h
    · rw [if_neg hpreferred] at h
      refine .inr fun c => ?_
      have hnone := List.find?_eq_none.mp h c (by cases c <;> simp)
      exact Bool.eq_false_iff.mpr hnone

theorem classQueue_ne_nil {e : Engine} {c : Category} (h : e.available c = true) :
    e.classQueue c ≠ [] ∧ e.frozenOf c < 7 := by
  rw [Engine.available, Bool.and_eq_true, decide_eq_true_eq] at h
  refine ⟨fun hnil => ?_, h.2⟩
  rw [hnil] at h
  cases h.1

section Prepare

variable [Footprint]

/-- The engine with a batch number and a message identifier drawn. -/
def Engine.drawn (e : Engine) : Engine :=
  { e with sequence := e.sequence + 1, batchIds := e.batchIds + 1 }

/-- The queue of a class is replaced. -/
def Engine.setQueue (e : Engine) (c : Category) (rest : List (Sample × ℤ)) : Engine :=
  match c with
  | .new => { e with queue := rest }
  | .history => { e with history := rest }

/-- The engine after a batch was frozen and the accounting has refused it. -/
def Engine.stuck (e : Engine) (batch : ReportBatch) (messageId : PyStr) : Engine :=
  { e.drawn with
    frozen := e.frozen.set batch.sequence batch
    accounting := e.accounting.materialized batch.sequence messageId }

/-- The engine after a batch was frozen. -/
def Engine.freeze (e : Engine) (c : Category) (batch : ReportBatch) (messageId : PyStr)
    (rest : List (Sample × ℤ)) : Engine :=
  { (e.stuck batch messageId).setQueue c rest with
    classes := e.classes.set batch.sequence c
    usedBytes := e.usedBytes + batchCharge batch
    preferNew := decide (c ≠ .new) }

/-- A batch that may be frozen next. -/
structure Collects (inp : EngineInputs) (now : ℚ) (wallMs : ℤ) (e : Engine) (c : Category)
    (batch : ReportBatch) (taken rest : List (Sample × ℤ)) : Prop where
  next : e.nextClass = some c
  queue : e.classQueue c = taken ++ rest
  samples : batch.samples = taken.map Prod.fst
  nonempty : taken ≠ []
  count : taken.length ≤ 500
  scanned : scan ((e.classQueue c).take 500) {} = .ok batch.samples
  version : batch.version = (batch.samples.head?.map (·.configVersion)).getD 0
  sequence : batch.sequence = e.sequence + 1
  safe : batch.sequence ≤ Contracts.maxSafe
  payload : batchPayload e.gateway e.bootId (py "batch-" ++ inp.hex e.batchIds) wallMs
    batch.sequence batch.samples = .ok batch.payload
  small : batch.payload.length ≤ maxPayload

/-- One iteration of the loop. -/
structure Freezes (inp : EngineInputs) (now : ℚ) (wallMs : ℤ) (e : Engine) (batch : ReportBatch)
    (c : Category) (taken rest : List (Sample × ℤ)) : Prop extends
    Collects inp now wallMs e c batch taken rest where
  fits : e.usedBytes + batchCharge batch ≤ e.maxBytes
  room : e.accounting.frozenFull = false

/-- Why the loop ended. -/
inductive Ends (inp : EngineInputs) (now : ℚ) (wallMs : ℤ) : Engine → Prop
  | idle {e : Engine} (h : e.nextClass = none) : Ends inp now wallMs e
  | full {e : Engine} {c : Category} {batch : ReportBatch} {taken rest : List (Sample × ℤ)}
      (h : Collects inp now wallMs e c batch taken rest)
      (hfull : e.maxBytes < e.usedBytes + batchCharge batch) : Ends inp now wallMs e.drawn

/-- The rule of the loop: an invariant that drawing a number and freezing a batch keep.
    Only a full accounting table leaves a state without it. -/
theorem materialize_rule (inp : EngineInputs) (now : ℚ) (wallMs : ℤ)
    {I : Engine → List ReportBatch → Prop}
    (hdrawn : ∀ e batches, I e batches → I e.drawn batches)
    (hfreeze : ∀ e batches batch c taken rest, I e batches →
      Freezes inp now wallMs e batch c taken rest →
      I (e.freeze c batch (py "batch-" ++ inp.hex e.batchIds) rest) (batches ++ [batch]))
    (hfresh : ∀ e batches, I e batches → e.frozen.get? (e.sequence + 1) = none) {fuel : ℕ} {e : Engine}
    {batches : List ReportBatch} (h : I e batches) (hfuel : 8 ≤ e.frozen.items.length + fuel) :
    wp (materialize inp now wallMs fuel batches)
      (fun result e' => I e' result ∧ Ends inp now wallMs e')
      (fun err e' => err ≠ .key ∧ ((∃ text, err = .runtime text) ∨ ∃ batches, I e' batches)) e := by
  -- Without fuel eight batches are frozen, and there is no next class.
  induction fuel generalizing e batches with
  | zero =>
      refine ⟨h, .idle ?_⟩
      rw [Engine.nextClass, if_pos (by omega)]
  | succ fuel ih =>
      rw [materialize, wp_bind, wp_get]
      cases hnext : e.nextClass with
      | none => exact ⟨h, .idle hnext⟩
      | some c =>
          obtain ⟨hlen, havailable⟩ := nextClass_some hnext
          obtain ⟨hqueue, -⟩ := classQueue_ne_nil havailable
          show wp (result (scan ((e.classQueue c).take 500) {}) >>= _) _ _ e
          rw [wp_bind, wp_result]
          refine ⟨fun pending hscan => ?_, fun err herr => ⟨scan_ne_key herr, .inr ⟨_, h⟩⟩⟩
          rw [wp_bind, wp_check]
          refine ⟨fun hsafe => ?_, fun _ => ⟨by simp, .inr ⟨_, h⟩⟩⟩
          show wp (modify _ >>= _) _ _ e
          rw [wp_bind, wp_modify, wp_bind, wp_result]
          refine ⟨fun payload hpayload => ?_, fun err herr =>
            ⟨batchPayload_ne_key herr, .inr ⟨_, hdrawn e batches h⟩⟩⟩
          rw [wp_bind, wp_check]
          refine ⟨fun hsmall => ?_, fun _ => ⟨by simp, .inr ⟨_, hdrawn e batches h⟩⟩⟩
          obtain ⟨taken, rest, hqueued, hpending, hnonempty⟩ := scan_taken hscan
          have hcollects : Collects inp now wallMs e c
              ⟨payload, (pending.head?.map (·.configVersion)).getD 0, pending, now, e.sequence + 1⟩
              taken (rest ++ (e.classQueue c).drop 500) :=
            { next := hnext
              queue := by rw [← List.append_assoc, ← hqueued, List.take_append_drop]
              samples := hpending
              nonempty := hnonempty rfl fun hnil => by
                rcases List.take_eq_nil_iff.mp hnil with h500 | hempty
                · cases h500
                · exact hqueue hempty
              count := by
                have hlength := congrArg List.length hqueued
                rw [List.length_take, List.length_append] at hlength
                omega
              scanned := hscan
              version := rfl
              sequence := rfl
              safe := hsafe
              payload := hpayload
              small := hsmall }
          show wp (if (e.maxBytes : ℤ) < e.usedBytes + batchCharge _ then _ else _) _ _ e.drawn
          rw [wp_ite]
          refine ⟨fun hfull => ⟨hdrawn e batches h, .full hcollects hfull⟩, fun hroom => ?_⟩
          rw [wp_bind, wp_modify, wp_bind, wp_check]
          refine ⟨fun hfree => ?_, fun _ => ⟨by simp, .inl ⟨_, rfl⟩⟩⟩
          rw [wp_bind, wp_modify]
          have hnext' := hfreeze e batches _ c taken _ h ⟨hcollects, not_lt.mp hroom, hfree⟩
          -- What the scan has taken is the front of the queue.
          have hdrop : (e.classQueue c).drop pending.length = rest ++ (e.classQueue c).drop 500 := by
            have hlength : pending.length = taken.length := by
              have hsamples := congrArg List.length hcollects.samples
              rwa [List.length_map] at hsamples
            conv_lhs => rw [hcollects.queue, hlength, List.drop_left]
          have hstate : ∀ e' : Engine, e'.classQueue c = e.classQueue c →
              e'.popQueue c pending.length = e'.setQueue c (rest ++ (e.classQueue c).drop 500) := by
            intro e' hsame
            rw [← hdrop, ← hsame]
            cases c <;> rfl
          rw [hstate _ (by cases c <;> rfl)]
          -- The fuel that is left still reaches eight batches.
          have hgrown : 8 ≤ (e.freeze c
              ⟨payload, (pending.head?.map (·.configVersion)).getD 0, pending, now, e.sequence + 1⟩
              (py "batch-" ++ inp.hex e.batchIds)
              (rest ++ (e.classQueue c).drop 500)).frozen.items.length + fuel := by
            have hfrozen : ∀ batch messageId, batch.sequence = e.sequence + 1 →
                (e.freeze c batch messageId (rest ++ (e.classQueue c).drop 500)).frozen.items.length =
                  e.frozen.items.length + 1 := by
              intro batch messageId hsequence
              have hset : (e.freeze c batch messageId (rest ++ (e.classQueue c).drop 500)).frozen =
                  e.frozen.set batch.sequence batch := by cases c <;> rfl
              rw [hset, hsequence, Dict.items_set (Dict.get?_eq_none.mp (hfresh e batches h)),
                List.length_append]
              rfl
            rw [hfrozen _ _ rfl]
            omega
          have hloop := ih hnext' hgrown
          cases c with
          | new => exact hloop
          | history => exact hloop

end Prepare

/-! ## `committed` -/

section Hand

variable [EventCharge]

/-- The maps after a sample was handed over. -/
def Maps.keep (m : Maps) (s : Sample) : Maps :=
  if m.epochs.get? (keyOf s) = some (epochOf s) ∧
      (m.baselines.get? (keyOf s)).all (fun old => decide (seqOf old < seqOf s)) = true then
    { m with baselines := m.baselines.set (keyOf s) s }
  else m

theorem keepBaseline_spec {e : Engine} {s : Sample} (h : Booked e e.held)
    (hs : s ∈ e.owned.values) :
    wp (keepBaseline s)
      (fun _ e' => ∃ refs usedBytes, e' = { e with maps := e.maps.keep s, refs, usedBytes } ∧
        Booked e' e'.held)
      (fun _ _ => False) e := by
  rw [keepBaseline, wp_bind, wp_get, wp_ite]
  refine ⟨fun hcurrent => ?_, fun hother => ?_⟩
  · show wp (if (e.maps.baselines.get? (keyOf s)).all (fun old => decide (seqOf old < seqOf s)) = true
      then _ else _) _ _ e
    rw [wp_ite]
    refine ⟨fun hnewer => ?_, fun holder => ?_⟩
    · rw [Maps.keep, if_pos ⟨hcurrent, hnewer⟩, wp_bind]
      have h₁ : Booked e ((e.maps.baselines.values : Multiset Sample) +
          ((e.owned.values : Multiset Sample) + (e.latest.values : Multiset Sample))) := by
        rw [add_comm]
        exact h
      refine (forgetOld_spec h₁).mono ?_ fun _ _ hf => hf
      rintro - e₁ ⟨refs, usedBytes, rfl, h₂⟩
      rw [wp_bind, wp_modify]
      have h₃ : Booked { e with
          maps := { e.maps with baselines := e.maps.baselines.set (keyOf s) s }, refs, usedBytes }
          (((e.maps.baselines.erase (keyOf s)).values : Multiset Sample) +
            ((e.owned.values : Multiset Sample) + (e.latest.values : Multiset Sample))) :=
        ⟨h₂.counted, h₂.used⟩
      have hmem : s ∈ ((e.maps.baselines.erase (keyOf s)).values : Multiset Sample) +
          ((e.owned.values : Multiset Sample) + (e.latest.values : Multiset Sample)) :=
        Multiset.mem_add.mpr (.inr (Multiset.mem_add.mpr (.inl (Multiset.mem_coe.mpr hs))))
      refine (retain_spec h₃ fun t ht he => h₂.counted.unique t ht s hmem he).mono ?_
        fun _ _ hf => hf
      rintro - e₂ ⟨refs', usedBytes', rfl, h₄⟩
      refine ⟨refs', usedBytes', rfl, ?_⟩
      rw [← Multiset.cons_add, ← coe_values_set, add_comm] at h₄
      exact h₄
    · rw [Maps.keep, if_neg fun hboth => holder hboth.2]
      exact ⟨e.refs, e.usedBytes, rfl, h⟩
  · rw [Maps.keep, if_neg fun hboth => hother hboth.1]
    exact ⟨e.refs, e.usedBytes, rfl, h⟩

/-- The engine without a sample that it owned; `rest` are the others of its point and
    epoch. -/
def Engine.released (e : Engine) (s : Sample) (rest : Dict ℤ Sample) : Engine :=
  { e with
    owned := e.owned.erase (identity s)
    owners := if rest.items = [] then e.owners.erase (epochOf s, keyOf s)
      else e.owners.set (epochOf s, keyOf s) rest
    shadows := if e.maps.epochs.get? (keyOf s) = some (epochOf s) then
        match newestOwner rest with
        | some newest => e.shadows.set (keyOf s) newest
        | none => e.shadows.erase (keyOf s)
      else e.shadows }

theorem release_spec {e : Engine} {s : Sample} {owners : Dict ℤ Sample} (h : Booked e e.held)
    (hs : e.owned.get? (identity s) = some s)
    (howners : e.owners.get? (epochOf s, keyOf s) = some owners) :
    wp (release s)
      (fun _ e' => ∃ refs usedBytes,
        e' = { e.released s (owners.erase (seqOf s)) with refs, usedBytes } ∧ Booked e' e'.held)
      (fun _ _ => False) e := by
  rw [release, wp_bind, wp_modify, wp_bind]
  have hheld : e.held = s ::ₘ ({ e with owned := e.owned.erase (identity s) } : Engine).held := by
    show (e.owned.values : Multiset Sample) + _ + _ = _
    rw [Multiset.coe_eq_coe.mpr (Dict.values_erase hs), ← Multiset.cons_coe, Multiset.cons_add,
      Multiset.cons_add]
    rfl
  rw [hheld] at h
  have h₁ : Booked { e with owned := e.owned.erase (identity s) } (s ::ₘ _) := ⟨h.counted, h.used⟩
  refine (forget_spec h₁).mono ?_ fun _ _ hf => hf
  rintro - e₁ ⟨refs, usedBytes, rfl, h₂⟩
  rw [wp_bind, wp_get]
  dsimp only
  rw [howners]
  show wp (modify _ >>= _) _ _ _
  rw [wp_bind, wp_modify, wp_ite]
  refine ⟨fun hcurrent => ⟨refs, usedBytes, ?_, h₂.counted, h₂.used⟩,
    fun hother => ⟨refs, usedBytes, ?_, h₂.counted, h₂.used⟩⟩
  · exact congrArg (fun shadows => ({ e.released s (owners.erase (seqOf s)) with
      shadows, refs, usedBytes } : Engine)) (if_pos hcurrent).symm
  · exact congrArg (fun shadows => ({ e.released s (owners.erase (seqOf s)) with
      shadows, refs, usedBytes } : Engine)) (if_neg hother).symm

/-! ## `abandon` -/

/-- The engine with everything given up that it owned. -/
def Engine.emptied [Footprint] (e : Engine) : Engine :=
  { e with
    accounting := e.accounting.abandon e.owned.values e.frozen.keys
    knownUnsentEvents := e.knownUnsentEvents + e.owned.items.length
    queue := [], history := [], frozen := .empty, classes := .empty
    owned := .empty, owners := .empty, shadows := .empty }

theorem abandon_spec [Footprint] {e : Engine} (h : Booked e e.held) :
    wp abandon
      (fun _ e' => ∃ refs usedBytes, e' = { e.emptied with refs, usedBytes } ∧ Booked e' e'.held)
      (fun _ _ => False) e := by
  rw [abandon, wp_bind, wp_get, wp_bind, wp_modify, wp_bind]
  have h₁ : Booked { e with
      accounting := e.accounting.abandon e.owned.values e.frozen.keys
      knownUnsentEvents := e.knownUnsentEvents + e.owned.items.length }
      ((e.owned.values : Multiset Sample) + ((e.latest.values : Multiset Sample) +
        (e.maps.baselines.values : Multiset Sample))) := by
    rw [← add_assoc]
    exact ⟨h.counted, h.used⟩
  refine (each_forget h₁).mono ?_ fun _ _ hf => hf
  rintro - e₁ ⟨refs, usedBytes, rfl, h₂⟩
  rw [wp_bind, wp_modify]
  refine ⟨refs, usedBytes - e.frozenCharge, rfl, ?_, ?_⟩
  · show Counted identity refs (_ + _ + _)
    rw [Dict.values_empty, Multiset.coe_nil, zero_add]
    exact h₂.counted
  · have hused : usedBytes = weight eventCharge ((e.latest.values : Multiset Sample) +
        (e.maps.baselines.values : Multiset Sample)) + e.frozenCharge := h₂.used
    show usedBytes - e.frozenCharge =
      weight eventCharge (((Dict.empty : Dict Identity Sample).values : Multiset Sample) +
        (e.latest.values : Multiset Sample) + (e.maps.baselines.values : Multiset Sample)) + 0
    rw [Dict.values_empty, Multiset.coe_nil, zero_add, hused]
    omega

/-! ## `configure` -/

/-- The engine with another configuration and its maps. -/
def Engine.configured (e : Engine) (snapshot : Option ConfigSnapshot) (now : ℚ)
    (generation : Option ℤ) : Engine :=
  let e' : Engine := { e with snapshot }
  { e' with
    cacheResetPoints := e.cacheResetPoints + e.latest.items.length
    generation, points := enabledPoints snapshot
    latest := .empty, shadows := .empty, attached := true
    maps := e.resume (snapshot, generation)
    checkpoint := some ((snapshot, generation), e.resume (snapshot, generation))
    nextBatch := e'.batchDue now }

theorem configure_spec {e : Engine} (snapshot : Option ConfigSnapshot) (now : ℚ)
    (generation : Option ℤ) (h : Booked e e.held)
    (hkey : ∀ s ∈ (e.configured snapshot now generation).held,
      ∀ t ∈ (e.configured snapshot now generation).held, identity t = identity s → t = s) :
    wp (configure snapshot now generation)
      (fun _ e' => (snapshot = e.snapshot ∧ generation = e.generation ∧ e' = e) ∨
        (¬ (snapshot = e.snapshot ∧ generation = e.generation) ∧
          ∃ refs usedBytes, e' = { e.configured snapshot now generation with refs, usedBytes } ∧
            Booked e' e'.held))
      (fun _ _ => False) e := by
  rw [configure, wp_bind, wp_get, wp_ite]
  refine ⟨fun hsame => .inl ⟨hsame.1, hsame.2, rfl⟩, fun hnew => ?_⟩
  rw [wp_bind, wp_modify, wp_bind]
  have h₁ : Booked { e with
      cacheResetPoints := e.cacheResetPoints + e.latest.items.length
      snapshot, generation, points := enabledPoints snapshot }
      ((e.latest.values : Multiset Sample) + ((e.maps.baselines.values : Multiset Sample) +
        (e.owned.values : Multiset Sample))) := by
    rw [add_comm (e.maps.baselines.values : Multiset Sample), ← add_assoc,
      add_comm (e.latest.values : Multiset Sample)]
    exact ⟨h.counted, h.used⟩
  refine (each_forget h₁).mono ?_ fun _ _ hf => hf
  rintro - e₁ ⟨refs₁, usedBytes₁, rfl, h₂⟩
  rw [wp_bind]
  refine (each_forget h₂).mono ?_ fun _ _ hf => hf
  rintro - e₂ ⟨refs₂, usedBytes₂, rfl, h₃⟩
  show wp (modify _ >>= _) _ _ _
  rw [wp_bind, wp_modify, wp_bind]
  have hheld : (e.configured snapshot now generation).held =
      ((e.resume (snapshot, generation)).baselines.values : Multiset Sample) +
        (e.owned.values : Multiset Sample) := by
    show (e.owned.values : Multiset Sample) + _ + _ = _
    rw [Engine.configured, Dict.values_empty, Multiset.coe_nil, add_zero, add_comm]
  -- The references of the new baselines are taken when all of the old ones are gone.
  rw [hheld] at hkey
  have h₄ : Booked { e with
      cacheResetPoints := e.cacheResetPoints + e.latest.items.length
      snapshot, generation, points := enabledPoints snapshot
      latest := .empty, shadows := .empty, attached := true
      maps := e.resume (snapshot, generation)
      checkpoint := some ((snapshot, generation), e.resume (snapshot, generation))
      refs := refs₂, usedBytes := usedBytes₂ } (e.owned.values : Multiset Sample) :=
    ⟨h₃.counted, h₃.used⟩
  refine (each_retain h₄ hkey).mono ?_ fun _ _ hf => hf
  rintro - e₃ ⟨refs, usedBytes, rfl, h₅⟩
  rw [wp_modify]
  refine .inr ⟨hnew, refs, usedBytes, rfl, ?_⟩
  rw [← hheld] at h₅
  exact ⟨h₅.counted, h₅.used⟩

end Hand

end PlcnextIot.Reporting
