/-
  PlcnextIot.Reporting.Memory

  The memory of the engine: what is charged is what is held, within the limit, and the
  events never take what the frozen batches need.

  `Sound` is the invariant of every call.  Besides the books and the places of the
  events it says what an engine may take from the checkpoint of the one before it.
-/

import PlcnextIot.Reporting.Ownership

namespace PlcnextIot.Reporting

open PlcnextIot.Python PlcnextIot.Config PlcnextIot.Points PlcnextIot.Effect PlcnextIot.Effect.Prog

/-! ## The invariant -/

variable [EventCharge]

/-- Maps that an engine may go on with. -/
structure Resumable (e : Engine) (m : Maps) : Prop where
  scheduled : Scheduled m
  known : ∀ s ∈ m.baselines.values, s ∈ e.offered
  charge : weight eventCharge (m.baselines.values : Multiset Sample) ≤ e.maxBytes - e.reserve

/-- An engine that was never configured. -/
structure Detached (e : Engine) : Prop where
  snapshot : e.snapshot = none
  generation : e.generation = none
  owned : e.owned = .empty
  latest : e.latest = .empty
  baselines : e.maps.baselines = .empty
  frozen : e.frozen = .empty

structure Recorded (e : Engine) : Prop where
  increasing : e.offered.Pairwise fun s t => seqOf s < seqOf t
  known : ∀ s ∈ e.held, s ∈ e.offered
  scheduled : Scheduled e.maps
  identified : e.attached = true → ∃ m, e.checkpoint = some ((e.snapshot, e.generation), m)
  detached : e.attached = false → Detached e
  saved : e.attached = false → ∀ id m, e.checkpoint = some (id, m) → Resumable e m

structure Sound (e : Engine) : Prop where
  booked : Booked e e.held
  fits : Fits e
  queued : Queued [] e
  recorded : Recorded e

omit [EventCharge] in
/-- Events are told apart by their numbers. -/
theorem eq_of_seq {offered : List Sample} (h : offered.Pairwise fun s t => seqOf s < seqOf t)
    {s t : Sample} (hs : s ∈ offered) (ht : t ∈ offered) (he : seqOf s = seqOf t) : s = t := by
  by_contra hne
  have : Std.Symm fun s t : Sample => seqOf s ≠ seqOf t := ⟨fun _ _ hne he => hne he.symm⟩
  have hdistinct : offered.Pairwise fun s t => seqOf s ≠ seqOf t := h.imp fun hlt => hlt.ne
  exact hdistinct.forall hs ht hne he

omit [EventCharge] in
theorem seqOf_of_identity {s t : Sample} (h : identity s = identity t) : seqOf s = seqOf t := by
  rw [seqOf, seqOf, (Prod.mk.inj h).2]

/-! ## `accept` -/

omit [EventCharge] in
theorem Scheduled.enter {m : Maps} (h : Scheduled m) (s : Sample) : Scheduled (m.enter s) := by
  intro key epoch hkey
  have hkey : (m.epochs.set (keyOf s) (epochOf s)).get? key = some epoch := hkey
  show ∃ due, (m.nextDue.set (keyOf s) _).get? key = some due
  rw [Dict.get?_set] at hkey ⊢
  by_cases hsame : key = keyOf s
  · rw [if_pos hsame]
    exact ⟨_, rfl⟩
  · rw [if_neg hsame] at hkey ⊢
    exact h key epoch hkey

omit [EventCharge] in
theorem Scheduled.entered {e : Engine} (h : Scheduled e.maps) (s : Sample) :
    Scheduled (e.entered s).maps := by
  rw [entered_maps]
  by_cases hsame : e.maps.within s
  · rwa [if_pos hsame]
  · rw [if_neg hsame]
    exact h.enter s

omit [EventCharge] in
theorem Scheduled.listed {e : Engine} (h : Scheduled e.maps) (s : Sample) :
    Scheduled (e.listed s).maps :=
  Scheduled.entered (e := { e with
    offered := e.offered ++ [s]
    maps := { e.maps with seen := e.maps.seen.set (keyOf s) (seqOf s) } }) h s

omit [EventCharge] in
theorem listed_baselines {e : Engine} {s t : Sample}
    (h : t ∈ (e.listed s).maps.baselines.values) : t ∈ e.maps.baselines.values :=
  entered_baselines (e := { e with
    offered := e.offered ++ [s]
    maps := { e.maps with seen := e.maps.seen.set (keyOf s) (seqOf s) } }) h

omit [EventCharge] in
/-- The selection changes report slots and counters. -/
theorem Serves.beside {e e' : Engine} {s : Sample} {p : PointConfig} {served : Bool}
    (h : Serves e s p served e') :
    ∃ maps missed accounting,
      e' = { e with maps, missedReportSlots := missed, accounting } ∧
        maps.baselines = e.maps.baselines ∧ maps.epochs = e.maps.epochs ∧
        (Scheduled e.maps → Scheduled maps) := by
  cases h with
  | rule => exact ⟨e.maps, e.missedReportSlots, e.accounting, rfl, rfl, rfl, id⟩
  | early => exact ⟨e.maps, e.missedReportSlots, e.accounting, rfl, rfl, rfl, id⟩
  | due =>
      refine ⟨_, _, _, rfl, rfl, rfl, fun hscheduled key epoch hkey => ?_⟩
      rw [Dict.get?_set]
      split
      · exact ⟨_, rfl⟩
      · exact hscheduled key epoch hkey

/-- A sample that is not admitted changes counters. -/
theorem Concludes.counts [Footprint] {e e' : Engine} {s : Sample} {selected : Bool}
    (h : Concludes e s selected false e') :
    ∃ eligible filtered unsent untimely rejected accounting,
      e' = { e with
        eligibleEvents := eligible, policyFilteredEvents := filtered, knownUnsentEvents := unsent
        timeInvalidEvents := untimely, admissionRejectedEvents := rejected, accounting } := by
  cases h with
  | filtered => exact ⟨_, _, _, _, _, _, rfl⟩
  | untimely => exact ⟨_, _, _, _, _, _, rfl⟩
  | rejected => exact ⟨_, _, _, _, _, _, rfl⟩
  | decided => exact ⟨_, _, _, _, _, _, rfl⟩

omit [EventCharge] in
/-- One more sample was offered. -/
theorem pairwise_offered {offered : List Sample}
    (h : offered.Pairwise fun s t => seqOf s < seqOf t) {s : Sample}
    (hfresh : ∀ t ∈ offered, seqOf t < seqOf s) :
    (offered ++ [s]).Pairwise fun s t => seqOf s < seqOf t := by
  refine List.pairwise_append.mpr ⟨h, List.pairwise_singleton _ _, fun t ht u hu => ?_⟩
  rw [List.mem_singleton.mp hu]
  exact hfresh t ht

theorem Resumable.offer {e e' : Engine} {m : Maps} (h : Resumable e m) {s : Sample}
    (hoffered : e'.offered = e.offered ++ [s]) (hmax : e'.maxBytes = e.maxBytes) : Resumable e' m where
  scheduled := h.scheduled
  known t ht := by
    rw [hoffered]
    exact List.mem_append_left _ (h.known t ht)
  charge := by
    rw [Engine.reserve, hmax]
    exact h.charge

/-- A call of `accept` on an engine that stays configured keeps the record. -/
theorem Recorded.accepted {e e' : Engine} {s : Sample} (h : Recorded e)
    (hfresh : ∀ t ∈ e.offered, seqOf t < seqOf s) (hoffered : e'.offered = e.offered ++ [s])
    (hheld : ∀ t ∈ e'.held, t = s ∨ t ∈ e.held) (hscheduled : Scheduled e'.maps)
    (hattached : e'.attached = e.attached) (hcheckpoint : e'.checkpoint = e.checkpoint)
    (hsnapshot : e'.snapshot = e.snapshot) (hgeneration : e'.generation = e.generation)
    (hmax : e'.maxBytes = e.maxBytes) (hdetached : e.attached = false → Detached e') :
    Recorded e' where
  increasing := by
    rw [hoffered]
    exact pairwise_offered h.increasing hfresh
  known t ht := by
    rw [hoffered]
    rcases hheld t ht with rfl | ht
    · exact List.mem_append_right _ (List.mem_singleton_self t)
    · exact List.mem_append_left _ (h.known t ht)
  scheduled := hscheduled
  identified := by
    rw [hattached, hcheckpoint, hsnapshot, hgeneration]
    exact h.identified
  detached := by
    rw [hattached]
    exact hdetached
  saved := by
    rw [hattached, hcheckpoint]
    exact fun hno id m hm => (h.saved hno id m hm).offer hoffered hmax

/-- Only a configured engine takes a sample for its own. -/
theorem Current.attached {e : Engine} {s : Sample} (hs : Current e s)
    (h : Recorded e) : e.attached ≠ false := by
  intro hno
  have hours := hs.configured
  rw [Engine.foreign, (h.detached hno).snapshot] at hours
  simp at hours

/-- A call that offers no sample, and after which no other samples are held. -/
theorem Recorded.fewer {e e' : Engine} (h : Recorded e) (hoffered : e'.offered = e.offered)
    (hheld : ∀ t ∈ e'.held, t ∈ e.held) (hscheduled : Scheduled e'.maps)
    (hattached : e'.attached = e.attached) (hcheckpoint : e'.checkpoint = e.checkpoint)
    (hsnapshot : e'.snapshot = e.snapshot) (hgeneration : e'.generation = e.generation)
    (hmax : e'.maxBytes = e.maxBytes) (hdetached : e.attached = false → Detached e') :
    Recorded e' where
  increasing := by
    rw [hoffered]
    exact h.increasing
  known t ht := by
    rw [hoffered]
    exact h.known t (hheld t ht)
  scheduled := hscheduled
  identified := by
    rw [hattached, hcheckpoint, hsnapshot, hgeneration]
    exact h.identified
  detached := by
    rw [hattached]
    exact hdetached
  saved hno id m hm := by
    rw [hattached] at hno
    rw [hcheckpoint] at hm
    obtain ⟨hm₁, hm₂, hm₃⟩ := h.saved hno id m hm
    refine ⟨hm₁, ?_, ?_⟩
    · rw [hoffered]
      exact hm₂
    · rw [Engine.reserve, hmax]
      exact hm₃

omit [EventCharge] in
theorem Detached.congr {e e' : Engine} (h : Detached e) (hsnapshot : e'.snapshot = e.snapshot)
    (hgeneration : e'.generation = e.generation) (howned : e'.owned = e.owned)
    (hlatest : e'.latest = e.latest) (hmaps : e'.maps.baselines = e.maps.baselines)
    (hfrozen : e'.frozen = e.frozen) : Detached e' :=
  ⟨hsnapshot.trans h.snapshot, hgeneration.trans h.generation, howned.trans h.owned,
    hlatest.trans h.latest, hmaps.trans h.baselines, hfrozen.trans h.frozen⟩

omit [EventCharge] in
theorem mem_held {e : Engine} {t : Sample} :
    t ∈ e.held ↔ t ∈ e.owned.values ∨ t ∈ e.latest.values ∨ t ∈ e.maps.baselines.values := by
  simp only [Engine.held, Multiset.mem_add, Multiset.mem_coe, or_assoc]

/-- A newer event is not owned yet. -/
theorem Sound.unowned {e : Engine} {s : Sample} (h : Sound e)
    (hfresh : ∀ t ∈ e.offered, seqOf t < seqOf s) : e.owned.get? (identity s) = none := by
  cases hs : e.owned.get? (identity s) with
  | none => rfl
  | some t =>
      have hmem : t ∈ e.owned.values := Dict.mem_values.mpr ⟨_, hs⟩
      have hlt := hfresh t (h.recorded.known t (mem_held.mpr (.inl hmem)))
      rw [seqOf_of_identity (h.queued.keyed _ t hs)] at hlt
      exact absurd hlt (lt_irrefl _)

/-- A held sample with the identity of a newer one would be as new. -/
theorem Sound.apart {e : Engine} {s : Sample} (h : Sound e)
    (hfresh : ∀ t ∈ e.offered, seqOf t < seqOf s) : ∀ t ∈ e.held, identity t = identity s → t = s := by
  intro t ht he
  have hlt := hfresh t (h.recorded.known t ht)
  rw [seqOf_of_identity he] at hlt
  exact absurd hlt (lt_irrefl _)

/-- `accept` keeps the places and the record. -/
theorem Accepts.sound [FloatArith] [Footprint] {e e' : Engine} {s : Sample}
    {r : Except EngineExc Bool} (h : Sound e) (hfresh : ∀ t ∈ e.offered, seqOf t < seqOf s)
    (ha : Accepts e s r e') : Queued [] e' ∧ Recorded e' := by
  have hnewer : ∀ t ∈ e.held, seqOf t < seqOf s := fun t ht => hfresh t (h.recorded.known t ht)
  cases ha with
  | foreign =>
      refine ⟨h.queued.congr rfl rfl rfl rfl rfl rfl le_rfl, h.recorded.accepted hfresh rfl
        (fun t ht => .inr ht) h.recorded.scheduled rfl rfl rfl rfl rfl fun hno => ?_⟩
      exact (h.recorded.detached hno).congr rfl rfl rfl rfl rfl rfl
  | seen =>
      refine ⟨h.queued.congr rfl rfl rfl rfl rfl rfl le_rfl, h.recorded.accepted hfresh rfl
        (fun t ht => .inr ht) h.recorded.scheduled rfl rfl rfl rfl rfl fun hno => ?_⟩
      exact (h.recorded.detached hno).congr rfl rfl rfl rfl rfl rfl
  | unidentified =>
      refine ⟨h.queued.congr rfl rfl rfl rfl rfl rfl le_rfl, h.recorded.accepted hfresh rfl
        (fun t ht => .inr ht) h.recorded.scheduled rfl rfl rfl rfl rfl fun hno => ?_⟩
      exact (h.recorded.detached hno).congr rfl rfl rfl rfl rfl rfl
  | failed hcurrent hlatest =>
      refine ⟨h.queued.congr rfl rfl rfl rfl rfl rfl le_rfl, h.recorded.accepted hfresh rfl
        (fun t ht => ?_) (h.recorded.scheduled.listed s) rfl rfl rfl rfl rfl
        fun hno => absurd hno (hcurrent.attached h.recorded)⟩
      rw [mem_held] at ht ⊢
      rcases ht with ht | ht | ht
      · exact .inr (.inl ht)
      · exact (hlatest t ht).imp id fun ht => .inr (.inl ht)
      · exact .inr (.inr (.inr (listed_baselines ht)))
  | @concluded latest refs usedBytes p selected changed served answer e₁ _ hcurrent hlatest hpoint
      hselects hconcludes =>
      obtain ⟨maps, missed, accounting, rfl, hbaselines, -, hscheduled⟩ := hselects.cyclic.beside
      -- Up to here only the sample itself may have been added.
      have hheld : ∀ t, t ∈ e.owned.values ∨ t ∈ latest.values ∨ t ∈ maps.baselines.values →
          t = s ∨ t ∈ e.held := by
        intro t ht
        rw [mem_held]
        rcases ht with ht | ht | ht
        · exact .inr (.inl ht)
        · exact (hlatest t ht).imp id fun ht => .inr (.inl ht)
        · rw [hbaselines] at ht
          exact .inr (.inr (.inr (listed_baselines ht)))
      have hmaps : Scheduled maps := hscheduled (h.recorded.scheduled.listed s)
      cases answer with
      | false =>
          obtain ⟨_, _, _, _, _, _, rfl⟩ := hconcludes.counts
          exact ⟨h.queued.congr rfl rfl rfl rfl rfl rfl le_rfl, h.recorded.accepted hfresh rfl
            (fun t ht => hheld t (mem_held.mp ht)) hmaps rfl rfl rfl rfl rfl
            fun hno => absurd hno (hcurrent.attached h.recorded)⟩
      | true =>
          cases hconcludes with
          | admitted htimely hroom hawaits =>
              have hbefore : Queued [] ({ e.listed s with
                  latest, refs, usedBytes, maps, missedReportSlots := missed, accounting } : Engine) :=
                h.queued.congr rfl rfl rfl rfl rfl rfl le_rfl
              have howns := (hbefore.congr
                  rfl rfl rfl rfl rfl rfl le_rfl).owning (s := s) ?_ ?_
              · refine ⟨howns.congr rfl rfl rfl rfl rfl rfl le_rfl, h.recorded.accepted hfresh rfl
                  (fun t ht => ?_) hmaps rfl rfl rfl rfl rfl
                  fun hno => absurd hno (hcurrent.attached h.recorded)⟩
                rcases mem_held.mp ht with ht | ht
                · rcases mem_values_set ht with rfl | ht
                  · exact .inl rfl
                  · exact hheld t (.inl (mem_values_of_erase ht))
                · exact hheld t (.inr ht)
              · exact h.unowned hfresh
              · exact fun t ht => hnewer t (mem_held.mpr (.inl ht))

/-- `accept` leaves the limit. -/
theorem Accepts.maxBytes [FloatArith] [Footprint] {e e' : Engine} {s : Sample}
    {r : Except EngineExc Bool} (h : Accepts e s r e') : e'.maxBytes = e.maxBytes := by
  cases h with
  | foreign => rfl
  | seen => rfl
  | unidentified => rfl
  | failed => rfl
  | concluded hcurrent hlatest hpoint hselects hconcludes =>
      obtain ⟨maps, missed, accounting, rfl, -⟩ := hselects.cyclic.beside
      cases hconcludes <;> rfl

theorem accept_sound [FloatArith] [Footprint] {e : Engine} {s : Sample} (h : Sound e)
    (hfresh : ∀ t ∈ e.offered, seqOf t < seqOf s) :
    wp (accept s) (fun answer e' => Accepts e s (.ok answer) e' ∧ Sound e')
      (fun err e' => err ≠ .key ∧ Accepts e s (.error err) e' ∧ Sound e') e := by
  refine (accept_spec h.booked h.fits h.recorded.scheduled (h.apart hfresh)
    (h.unowned hfresh)).mono ?_ ?_
  · rintro answer e' ⟨ha, hbooked, hfits⟩
    obtain ⟨hqueued, hrecorded⟩ := ha.sound h hfresh
    exact ⟨ha, hbooked, hfits, hqueued, hrecorded⟩
  · rintro err e' ⟨herr, ha, hbooked, hfits⟩
    obtain ⟨hqueued, hrecorded⟩ := ha.sound h hfresh
    exact ⟨herr, ha, hbooked, hfits, hqueued, hrecorded⟩

/-! ## `prepare` -/

section Prepare

variable [Footprint]

omit [Footprint] in
theorem Sound.drawn {e : Engine} (h : Sound e) : Sound e.drawn where
  booked := ⟨h.booked.counted, h.booked.used⟩
  fits := ⟨h.fits.events, h.fits.used⟩
  queued := h.queued.congr rfl rfl rfl rfl rfl rfl (by simp [Engine.drawn])
  recorded := h.recorded.fewer rfl (fun _ ht => ht) h.recorded.scheduled rfl rfl rfl rfl rfl
    fun hno => (h.recorded.detached hno).congr rfl rfl rfl rfl rfl rfl

omit [EventCharge] in
/-- What freezing a batch leaves. -/
theorem freeze_rest (e : Engine) (c : Category) (batch : ReportBatch) (messageId : PyStr)
    (rest : List (Sample × ℤ)) :
    ∃ queue history, e.freeze c batch messageId rest = { e with
      sequence := e.sequence + 1, batchIds := e.batchIds + 1
      frozen := e.frozen.set batch.sequence batch
      accounting := e.accounting.materialized batch.sequence messageId
      classes := e.classes.set batch.sequence c
      usedBytes := e.usedBytes + batchCharge batch
      preferNew := decide (c ≠ .new), queue, history } := by
  cases c
  · exact ⟨rest, e.history, rfl⟩
  · exact ⟨e.queue, rest, rfl⟩

omit [EventCharge] in
theorem freeze_maxBytes (e : Engine) (c : Category) (batch : ReportBatch) (messageId : PyStr)
    (rest : List (Sample × ℤ)) : (e.freeze c batch messageId rest).maxBytes = e.maxBytes := by
  cases c <;> rfl

theorem Sound.freeze {e : Engine} {inp : EngineInputs} {now : ℚ} {wallMs : ℤ} {c : Category}
    {batch : ReportBatch} {taken rest : List (Sample × ℤ)} (h : Sound e)
    (hfreezes : Freezes inp now wallMs e batch c taken rest) (messageId : PyStr) :
    Sound (e.freeze c batch messageId rest) := by
  have hqueued : Queued [] (e.freeze c batch messageId rest) :=
    h.queued.freeze hfreezes.toCollects
  have hfresh : e.frozen.get? batch.sequence = none := by
    rw [hfreezes.sequence]
    exact h.queued.fresh
  obtain ⟨queue, history, he⟩ := freeze_rest e c batch messageId rest
  rw [he] at hqueued ⊢
  -- the queue was not empty, so that the engine is configured
  have hattached : e.attached ≠ false := by
    intro hno
    have hplaces := h.queued.places
    have hwaiting : (e.waiting : Multiset Sample) =
        (taken.map Prod.fst : Multiset Sample) + (e.freeze c batch messageId rest).waiting :=
      freeze_waiting hfreezes.queue
    rw [(h.recorded.detached hno).owned, hwaiting] at hplaces
    have hcard := congrArg Multiset.card hplaces
    simp only [Dict.values_empty, Multiset.coe_nil, Multiset.card_zero, Multiset.card_add,
      Multiset.coe_card, List.length_map] at hcard
    have hne := List.length_pos_iff.mpr hfreezes.nonempty
    omega
  refine ⟨⟨h.booked.counted, ?_⟩, ⟨h.fits.events, hfreezes.fits⟩, hqueued,
    h.recorded.fewer rfl (fun _ ht => ht) h.recorded.scheduled rfl rfl rfl rfl rfl
      fun hno => absurd hno hattached⟩
  show e.usedBytes + batchCharge batch =
    weight eventCharge e.held + ((e.frozen.set batch.sequence batch).values.map batchCharge).sum
  rw [values_set_fresh hfresh, List.map_append, List.sum_append, h.booked.used, Engine.frozenCharge]
  simp only [List.map_cons, List.map_nil, List.sum_cons, List.sum_nil]
  omega

/-- The rule of `prepare`: what the loop keeps, unless the accounting has no place for a
    batch. -/
theorem prepare_rule (inp : EngineInputs) (now : ℚ) (wallMs : ℤ) (force : Bool)
    {J : Engine → List ReportBatch → Prop} {e : Engine}
    (hdrawn : ∀ e batches, J e batches → J e.drawn batches)
    (hfreeze : ∀ e batches batch c taken rest, Sound e → J e batches →
      Freezes inp now wallMs e batch c taken rest →
      J (e.freeze c batch (py "batch-" ++ inp.hex e.batchIds) rest) (batches ++ [batch]))
    (h : Sound e) (hJ : J { e with nextBatch := e.batchDue now } e.frozen.values) :
    wp (prepare inp now wallMs force)
      (fun batches e' => Sound e' ∧
        if force = false ∧ now < e.nextBatch then batches = [] ∧ e' = e
        else J e' batches ∧ Ends inp now wallMs e')
      (fun err e' => err ≠ .key ∧ ((∃ text, err = .runtime text) ∨
        ∃ batches, Sound e' ∧ J e' batches)) e := by
  rw [prepare, wp_bind, wp_get, wp_ite]
  refine ⟨fun hearly => ⟨h, ?_⟩, fun hdue => ?_⟩
  · rw [if_pos ⟨Bool.eq_false_iff.mpr hearly.1, hearly.2⟩]
    exact ⟨rfl, rfl⟩
  · rw [wp_bind, wp_modify]
    have h₁ : Sound { e with nextBatch := e.batchDue now } :=
      ⟨⟨h.booked.counted, h.booked.used⟩, ⟨h.fits.events, h.fits.used⟩,
        h.queued.congr rfl rfl rfl rfl rfl rfl le_rfl,
        h.recorded.fewer rfl (fun _ ht => ht) h.recorded.scheduled rfl rfl rfl rfl rfl
          fun hno => (h.recorded.detached hno).congr rfl rfl rfl rfl rfl rfl⟩
    refine (materialize_rule inp now wallMs (I := fun e' batches => Sound e' ∧ J e' batches)
      (fun e' batches h' => ⟨h'.1.drawn, hdrawn e' batches h'.2⟩)
      (fun e' batches batch c taken rest h' hf =>
        ⟨h'.1.freeze hf _, hfreeze e' batches batch c taken rest h'.1 h'.2 hf⟩)
      (fun e' _ h' => h'.1.queued.fresh) ⟨h₁, hJ⟩ ?_).mono ?_ fun err e' h' => h'
    · show 8 ≤ e.frozen.items.length + (8 - e.frozen.items.length)
      omega
    · rintro batches e' ⟨⟨h', hJ'⟩, hends⟩
      rw [if_neg fun hearly => hdue ⟨Bool.eq_false_iff.mp hearly.1, hearly.2⟩]
      exact ⟨h', hJ', hends⟩

/-- `prepare` keeps the invariant, unless the accounting has no place for a batch. -/
theorem prepare_sound (inp : EngineInputs) (now : ℚ) (wallMs : ℤ) (force : Bool) {e : Engine}
    (h : Sound e) :
    wp (prepare inp now wallMs force)
      (fun _ e' => (Sound e' ∧ e'.maxBytes = e.maxBytes) ∧ (force = true → Ends inp now wallMs e'))
      (fun err e' => err ≠ .key ∧ ((∃ text, err = .runtime text) ∨
        Sound e' ∧ e'.maxBytes = e.maxBytes)) e := by
  refine (prepare_rule (J := fun e' _ => e'.maxBytes = e.maxBytes) inp now wallMs force
    (fun _ _ hmax => hmax) (fun _ _ _ _ _ _ _ hmax _ => (freeze_maxBytes ..).trans hmax) h rfl).mono
    ?_ ?_
  · rintro batches e' ⟨h', hsame⟩
    split at hsame
    · next hearly =>
        refine ⟨⟨h', by rw [hsame.2]⟩, fun hforce => ?_⟩
        rw [hforce] at hearly
        cases hearly.1
    · exact ⟨⟨h', hsame.1⟩, fun _ => hsame.2⟩
  · rintro err e' ⟨herr, hcause⟩
    refine ⟨herr, hcause.imp id ?_⟩
    rintro ⟨-, h'⟩
    exact h'

end Prepare

/-! ## `committed` -/

/-- The invariant while a batch is handed over. -/
structure Handing (hand : List Sample) (e : Engine) : Prop where
  booked : Booked e e.held
  fits : Fits e
  queued : Queued hand e
  recorded : Recorded e

omit [EventCharge] in
theorem Maps.keep_cases (m : Maps) (s : Sample) :
    m.keep s = m ∨ m.keep s = { m with baselines := m.baselines.set (keyOf s) s } := by
  rw [Maps.keep]
  split
  · exact .inr rfl
  · exact .inl rfl

omit [EventCharge] in
theorem Scheduled.keep {m : Maps} (h : Scheduled m) (s : Sample) : Scheduled (m.keep s) := by
  rcases m.keep_cases s with he | he <;> rw [he] <;> exact h

omit [EventCharge] in
theorem keep_baselines {m : Maps} {s t : Sample} (h : t ∈ (m.keep s).baselines.values) :
    t = s ∨ t ∈ m.baselines.values := by
  rcases m.keep_cases s with he | he
  · rw [he] at h
    exact .inr h
  · rw [he] at h
    exact (mem_values_set h).imp id mem_values_of_erase

/-- The engine with an event handed over; the references apart. -/
def Engine.handedOver (e : Engine) (s : Sample) : Engine :=
  ({ e with maps := e.maps.keep s } : Engine).released s
    (((e.owners.get? (epochOf s, keyOf s)).getD .empty).erase (seqOf s))

/-- One event of the hand. -/
theorem Handing.next {e : Engine} {s : Sample} {hand : List Sample} (h : Handing (s :: hand) e) :
    wp (do
      keepBaseline s
      release s)
      (fun _ e' => Handing hand e' ∧ ∃ refs usedBytes, e' = { e.handedOver s with refs, usedBytes })
      (fun _ _ => False) e := by
  have hs : s ∈ e.owned.values := by
    rw [← Multiset.mem_coe, h.queued.places]
    exact Multiset.mem_add.mpr (.inr (Multiset.mem_coe.mpr List.mem_cons_self))
  have hknown : ∀ t ∈ e.owned.values, t ∈ e.offered := fun t ht =>
    h.recorded.known t (mem_held.mpr (.inl ht))
  have hattached : e.attached ≠ false := by
    intro hno
    rw [(h.recorded.detached hno).owned] at hs
    cases hs
  rw [wp_bind]
  refine (keepBaseline_spec h.booked hs).mono ?_ fun _ _ hf => hf
  rintro - e₁ ⟨refs₁, usedBytes₁, rfl, hbooked₁⟩
  -- The baseline is owned still, so nothing new is held.
  have hsub : ∀ t ∈ ({ e with maps := e.maps.keep s } : Engine).held, t ∈ e.held := by
    intro t ht
    rw [mem_held] at ht ⊢
    rcases ht with ht | ht | ht
    · exact .inl ht
    · exact .inr (.inl ht)
    · rcases keep_baselines ht with rfl | ht
      · exact .inl hs
      · exact .inr (.inr ht)
  have hfits₁ := h.fits.mono h.booked hbooked₁ hsub rfl rfl
  have hqueued₁ : Queued (s :: hand)
      ({ e with maps := e.maps.keep s, refs := refs₁, usedBytes := usedBytes₁ } : Engine) :=
    h.queued.congr rfl rfl rfl rfl rfl rfl le_rfl
  have hrecorded₁ : Recorded
      ({ e with maps := e.maps.keep s, refs := refs₁, usedBytes := usedBytes₁ } : Engine) :=
    h.recorded.fewer rfl hsub (h.recorded.scheduled.keep s) rfl rfl rfl rfl rfl
      fun hno => absurd hno hattached
  obtain ⟨owners, howners, -⟩ := hqueued₁.index s hs
  refine (release_spec hbooked₁ (hqueued₁.owned_get hs) howners).mono ?_ fun _ _ hf => hf
  rintro - e₂ ⟨refs, usedBytes, rfl, hbooked⟩
  -- Giving it up only takes away.
  have hsub₂ : ∀ t ∈ (({ e with maps := e.maps.keep s } : Engine).released s
      (owners.erase (seqOf s))).held, t ∈ ({ e with maps := e.maps.keep s } : Engine).held := by
    intro t ht
    rw [mem_held] at ht ⊢
    exact ht.imp mem_values_of_erase id
  have hreleased := hqueued₁.release
    (fun t ht he => eq_of_seq h.recorded.increasing (hknown t ht) (hknown s hs) he) howners
  refine ⟨⟨hbooked, hfits₁.mono hbooked₁ hbooked hsub₂ rfl rfl,
    hreleased.congr rfl rfl rfl rfl rfl rfl le_rfl,
    hrecorded₁.fewer rfl hsub₂ (h.recorded.scheduled.keep s) rfl rfl rfl rfl rfl
      fun hno => absurd hno hattached⟩, refs, usedBytes, ?_⟩
  have howners : e.owners.get? (epochOf s, keyOf s) = some owners := howners
  rw [Engine.handedOver, howners, Option.getD_some]
  rfl

/-- The rule of the loop: what each event handed over keeps. -/
theorem Handing.loop {J : List Sample → Engine → Prop} {e : Engine} {hand : List Sample}
    (hstep : ∀ (e : Engine) s hand refs usedBytes, Handing (s :: hand) e → J (s :: hand) e →
      Handing hand { e.handedOver s with refs, usedBytes } →
      J hand { e.handedOver s with refs, usedBytes })
    (h : Handing hand e) (hJ : J hand e) :
    wp (each hand fun s => do
      keepBaseline s
      release s) (fun _ e' => Handing [] e' ∧ J [] e') (fun _ _ => False) e := by
  induction hand generalizing e with
  | nil => exact ⟨h, hJ⟩
  | cons s rest ih =>
      rw [each, wp_bind]
      refine h.next.mono ?_ fun _ _ hf => hf
      rintro - e₁ ⟨h₁, refs, usedBytes, rfl⟩
      exact ih h₁ (hstep e s rest refs usedBytes h hJ h₁)

/-- The engine with a batch taken out of the frozen ones. -/
def Engine.taken (e : Engine) (batch : ReportBatch) : Engine :=
  { e with
    frozen := e.frozen.erase batch.sequence, classes := e.classes.erase batch.sequence
    usedBytes := e.usedBytes - batchCharge batch, handed := e.handed ++ [batch] }

theorem Sound.taken {e : Engine} {batch : ReportBatch} (h : Sound e)
    (hbatch : e.frozen.get? batch.sequence = some batch) :
    Handing batch.samples (e.taken batch) := by
  have hcharge : e.frozenCharge =
      batchCharge batch + ((e.frozen.erase batch.sequence).values.map batchCharge).sum := by
    rw [Engine.frozenCharge, ((Dict.values_erase hbatch).map batchCharge).sum_eq, List.map_cons,
      List.sum_cons]
  have hpos := batchCharge_pos batch
  have hused := h.fits.used
  refine ⟨⟨h.booked.counted, ?_⟩, ⟨h.fits.events, ?_⟩, h.queued.commit hbatch,
    h.recorded.fewer rfl (fun _ ht => ht) h.recorded.scheduled rfl rfl rfl rfl rfl fun hno => ?_⟩
  · show e.usedBytes - batchCharge batch =
      weight eventCharge e.held + ((e.frozen.erase batch.sequence).values.map batchCharge).sum
    rw [h.booked.used, hcharge]
    omega
  · show e.usedBytes - batchCharge batch ≤ e.maxBytes
    omega
  · rw [(h.recorded.detached hno).frozen] at hbatch
    cases hbatch

/-- The rule of `committed`: what taking the batch and handing over each event keeps. -/
theorem committed_rule {J : List Sample → Engine → Prop} (batch : ReportBatch) {e : Engine}
    (hstep : ∀ (e : Engine) s hand refs usedBytes, Handing (s :: hand) e → J (s :: hand) e →
      Handing hand { e.handedOver s with refs, usedBytes } →
      J hand { e.handedOver s with refs, usedBytes }) (h : Sound e)
    (hJ : e.frozen.get? batch.sequence = some batch → J batch.samples (e.taken batch)) :
    wp (committed batch)
      (fun _ e' => Sound e' ∧ if e.frozen.get? batch.sequence = some batch then J [] e' else e' = e)
      (fun _ _ => False) e := by
  rw [committed, wp_bind, wp_get, wp_ite]
  refine ⟨fun hbatch => ?_, fun hother => ⟨h, ?_⟩⟩
  · rw [wp_bind, wp_modify]
    refine ((h.taken hbatch).loop hstep (hJ hbatch)).mono ?_ fun _ _ hf => hf
    rintro - e' ⟨h', hJ'⟩
    rw [if_pos hbatch]
    exact ⟨⟨h'.booked, h'.fits, h'.queued, h'.recorded⟩, hJ'⟩
  · rw [if_neg hother]

theorem committed_sound (batch : ReportBatch) {e : Engine} (h : Sound e) :
    wp (committed batch) (fun _ e' => Sound e' ∧ e'.maxBytes = e.maxBytes) (fun _ _ => False) e := by
  refine (committed_rule (J := fun _ e' => e'.maxBytes = e.maxBytes) batch
    (fun _ _ _ _ _ _ hmax _ => hmax) h fun _ => rfl).mono ?_ fun _ _ hf => hf
  rintro - e' ⟨h', hsame⟩
  refine ⟨h', ?_⟩
  split at hsame
  · exact hsame
  · rw [hsame]

/-! ## The other calls -/

omit [EventCharge] in
theorem reserve_le (e : Engine) : e.reserve ≤ e.maxBytes := by
  rw [Engine.reserve]
  omega

/-- Maps that are taken are new, or those that the engine before it has left. -/
theorem resume_cases {e : Engine} {snapshot : Option ConfigSnapshot} {generation : Option ℤ}
    (h : Recorded e) (hnew : ¬ (snapshot = e.snapshot ∧ generation = e.generation)) :
    e.resume (snapshot, generation) = {} ∨ e.attached = false ∧
      e.checkpoint = some ((snapshot, generation), e.resume (snapshot, generation)) := by
  rw [Engine.resume, Engine.current]
  cases hattached : e.attached with
  | true =>
      obtain ⟨m, hm⟩ := h.identified hattached
      rw [hm]
      refine .inl ?_
      show (if (e.snapshot, e.generation) = (snapshot, generation) then e.maps else {}) = _
      rw [if_neg]
      intro he
      obtain ⟨hs, hg⟩ := Prod.mk.inj he
      exact hnew ⟨hs.symm, hg.symm⟩
  | false =>
      rw [if_neg (by simp)]
      cases hcheckpoint : e.checkpoint with
      | none => exact .inl rfl
      | some saved =>
          obtain ⟨id, m⟩ := saved
          show (if id = (snapshot, generation) then m else {}) = _ ∨ _ ∧
            some (id, m) = some (_, if id = (snapshot, generation) then m else {})
          by_cases hid : id = (snapshot, generation)
          · rw [if_pos hid, hid]
            exact .inr ⟨rfl, rfl⟩
          · rw [if_neg hid]
            exact .inl rfl

theorem Resumable.fresh (e : Engine) : Resumable e {} where
  scheduled _ _ h := by cases h
  known _ h := by cases h
  charge := by
    have hreserve := reserve_le e
    show (0 : ℤ) ≤ e.maxBytes - e.reserve
    omega

/-- How `configure` may leave an engine. -/
def Configures (e : Engine) (snapshot : Option ConfigSnapshot) (now : ℚ) (generation : Option ℤ)
    (e' : Engine) : Prop :=
  if snapshot = e.snapshot ∧ generation = e.generation then e' = e
  else ∃ refs usedBytes, e' = { e.configured snapshot now generation with refs, usedBytes }

omit [EventCharge] in
theorem Configures.maxBytes {e e' : Engine} {snapshot : Option ConfigSnapshot} {now : ℚ}
    {generation : Option ℤ} (h : Configures e snapshot now generation e') :
    e'.maxBytes = e.maxBytes := by
  rw [Configures] at h
  split at h
  · rw [h]
  · obtain ⟨refs, usedBytes, rfl⟩ := h
    rfl

theorem configure_sound (snapshot : Option ConfigSnapshot) (now : ℚ) (generation : Option ℤ)
    {e : Engine} (h : Sound e) :
    wp (configure snapshot now generation)
      (fun _ e' => Sound e' ∧ Configures e snapshot now generation e') (fun _ _ => False) e := by
  by_cases hsame : snapshot = e.snapshot ∧ generation = e.generation
  · rw [configure, wp_bind, wp_get, wp_ite]
    exact ⟨fun _ => ⟨h, by rw [Configures, if_pos hsame]⟩, fun hnew => absurd hsame hnew⟩
  have hresume : Resumable e (e.resume (snapshot, generation)) := by
    rcases resume_cases h.recorded hsame with he | ⟨hno, hsaved⟩
    · rw [he]
      exact .fresh e
    · exact h.recorded.saved hno _ _ hsaved
  have hknown : ∀ s ∈ (e.configured snapshot now generation).held, s ∈ e.offered := by
    intro s hs
    rcases mem_held.mp hs with hs | hs | hs
    · exact h.recorded.known s (mem_held.mpr (.inl hs))
    · cases hs
    · exact hresume.known s hs
  refine (configure_spec snapshot now generation h.booked fun s hs t ht he =>
    eq_of_seq h.recorded.increasing (hknown t ht) (hknown s hs) (seqOf_of_identity he)).mono ?_
    fun _ _ hf => hf
  rintro - e' (⟨hs, hg, -⟩ | ⟨-, refs, usedBytes, rfl, hbooked⟩)
  · exact absurd ⟨hs, hg⟩ hsame
  refine ⟨⟨hbooked, ?_, h.queued.congr rfl rfl rfl rfl rfl rfl le_rfl,
    ⟨h.recorded.increasing, hknown, hresume.scheduled, fun _ => ⟨_, rfl⟩,
      fun hno => (Bool.noConfusion hno), fun hno => (Bool.noConfusion hno)⟩⟩, ?_⟩
  rotate_left
  · rw [Configures, if_neg hsame]
    exact ⟨refs, usedBytes, rfl⟩
  rcases resume_cases h.recorded hsame with he | ⟨hno, -⟩
  · refine h.fits.mono h.booked hbooked (fun s hs => ?_) rfl rfl
    rcases mem_held.mp hs with hs | hs | hs
    · exact mem_held.mpr (.inl hs)
    · cases hs
    · have hs : s ∈ (e.resume (snapshot, generation)).baselines.values := hs
      rw [he] at hs
      cases hs
  · -- a new engine owns nothing yet
    obtain ⟨-, -, howned, -, -, hfrozen⟩ := h.recorded.detached hno
    have hheld : (e.configured snapshot now generation).held =
        ((e.resume (snapshot, generation)).baselines.values : Multiset Sample) := by
      show (e.owned.values : Multiset Sample) + 0 +
        ((e.resume (snapshot, generation)).baselines.values : Multiset Sample) = _
      rw [howned, Dict.values_empty, Multiset.coe_nil, add_zero, zero_add]
    refine hbooked.fits ?_
    have hused : usedBytes = weight eventCharge _ + (e.frozen.values.map batchCharge).sum :=
      hbooked.used
    have hheld' : ({ e.configured snapshot now generation with refs, usedBytes } : Engine).held =
      _ := hheld
    rw [hheld', hfrozen] at hused
    have hcharge := hresume.charge
    have hzero : ((Dict.empty : Dict ℤ ReportBatch).values.map batchCharge).sum = 0 := rfl
    rw [hzero] at hused
    show usedBytes ≤ e.maxBytes - e.reserve
    omega

theorem abandon_sound [Footprint] {e : Engine} (h : Sound e) :
    wp abandon (fun _ e' => Sound e' ∧ ∃ refs usedBytes, e' = { e.emptied with refs, usedBytes })
      (fun _ _ => False) e := by
  refine (abandon_spec h.booked).mono ?_ fun _ _ hf => hf
  rintro - e' ⟨refs, usedBytes, rfl, hbooked⟩
  have hsub : ∀ t ∈ e.emptied.held, t ∈ e.held := by
    intro t ht
    rcases mem_held.mp ht with ht | ht
    · cases ht
    · exact mem_held.mpr (.inr ht)
  refine ⟨⟨hbooked, hbooked.fits ?_, .nothing rfl rfl rfl rfl rfl rfl,
    h.recorded.fewer rfl hsub h.recorded.scheduled rfl rfl rfl rfl rfl fun hno => ?_⟩,
    refs, usedBytes, rfl⟩
  · have hused : usedBytes = weight eventCharge e.emptied.held + 0 := hbooked.used
    have hweight : weight eventCharge e.emptied.held ≤ weight eventCharge e.held := weight_mono hsub
    have hevents := h.fits.events
    show usedBytes ≤ e.maxBytes - e.reserve
    omega
  · have hd := h.recorded.detached hno
    exact ⟨hd.snapshot, hd.generation, rfl, hd.latest, hd.baselines, rfl⟩

/-- An engine that was just made, on a boot context with this checkpoint. -/
theorem Sound.start {e : Engine} (hrefs : e.refs = .empty) (hused : e.usedBytes = 0)
    (hqueued : Queued [] e) (hdetached : Detached e) (hmaps : e.maps = {})
    (hattached : e.attached = false) (hincreasing : e.offered.Pairwise fun s t => seqOf s < seqOf t)
    (hsaved : ∀ id m, e.checkpoint = some (id, m) → Resumable e m) : Sound e := by
  have hheld : e.held = 0 := by
    rw [Engine.held, hdetached.owned, hdetached.latest, hdetached.baselines]
    rfl
  have hcharge : e.frozenCharge = 0 := by
    rw [Engine.frozenCharge, hdetached.frozen]
    rfl
  have hbooked : Booked e e.held := by
    refine ⟨?_, ?_⟩
    · rw [hrefs, hheld]
      exact .empty
    · rw [hheld, hcharge, hused]
      rfl
  refine ⟨hbooked, hbooked.fits ?_, hqueued, ⟨hincreasing, ?_, ?_, ?_, fun _ => hdetached,
    fun _ => hsaved⟩⟩
  · have hreserve := reserve_le e
    omega
  · rw [hheld]
    exact fun _ h => absurd h (Multiset.notMem_zero _)
  · rw [hmaps]
    exact fun _ _ h => by cases h
  · rw [hattached]
    exact fun h => by cases h

theorem Sound.reload {e : Engine} (h : Sound e) : Sound e.reload := by
  refine .start rfl rfl (.nothing rfl rfl rfl rfl rfl rfl) ⟨rfl, rfl, rfl, rfl, rfl, rfl⟩ rfl rfl
    h.recorded.increasing fun id m hm => ?_
  have hm : e.current = some (id, m) := hm
  rw [Engine.current] at hm
  cases hattached : e.attached with
  | true =>
      rw [hattached, if_pos rfl] at hm
      obtain ⟨_, -, he⟩ := Option.map_eq_some_iff.mp hm
      obtain ⟨-, rfl⟩ := Prod.mk.inj he
      refine ⟨h.recorded.scheduled, fun s hs => h.recorded.known s (mem_held.mpr (.inr (.inr hs))), ?_⟩
      have hsub : ((e.maps.baselines.values : Multiset Sample)) ⊆ e.held := fun s hs =>
        mem_held.mpr (.inr (.inr (Multiset.mem_coe.mp hs)))
      exact (weight_mono hsub).trans h.fits.events
  | false =>
      rw [hattached, if_neg (by simp)] at hm
      obtain ⟨hm₁, hm₂, hm₃⟩ := h.recorded.saved hattached id m hm
      exact ⟨hm₁, hm₂, hm₃⟩

end PlcnextIot.Reporting
