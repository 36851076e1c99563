/-
  PlcnextIot.Reporting.Filing

  Where the events of an engine are, in which order they leave, and what becomes of a
  batch.

  An admitted event is in one of the queues, in a frozen batch or in a batch that was
  handed over, and in only one of these (`Filed`).  `Materializes` is what a whole
  `prepare` does to the queues: it cuts batches off their fronts and loses nothing.
-/

import PlcnextIot.Reporting.SelectionRuns

namespace PlcnextIot.Reporting

open PlcnextIot.Python PlcnextIot.Config PlcnextIot.Points PlcnextIot.Effect PlcnextIot.Effect.Prog

/-! ## The invariant -/

/-- The samples are in the order of their capture. -/
def Ordered (samples : List Sample) : Prop := samples.Pairwise fun s t => seqOf s < seqOf t

theorem Ordered.snoc {samples : List Sample} {s : Sample} (h : Ordered samples)
    (hs : ∀ t ∈ samples, seqOf t < seqOf s) : Ordered (samples ++ [s]) := by
  refine List.pairwise_append.mpr ⟨h, List.pairwise_singleton _ _, fun t ht u hu => ?_⟩
  rw [List.mem_singleton.mp hu]
  exact hs t ht

theorem Ordered.nodup {samples : List Sample} (h : Ordered samples) : samples.Nodup :=
  h.imp fun hlt he => by rw [he] at hlt; exact lt_irrefl _ hlt

/-- The batches that were handed over, and the frozen ones. -/
def Engine.batches (e : Engine) : List ReportBatch := e.handed ++ e.frozen.values

/-- Every event is in one place, and the queues are in the order of capture. -/
structure Filed (e : Engine) : Prop where
  captured : Ordered e.admitted
  offered : ∀ s ∈ e.admitted, s ∈ e.offered
  places : (e.admitted : Multiset Sample) = e.waiting + e.frozenSamples + e.handedSamples
  new : Ordered (e.queue.map Prod.fst)
  history : Ordered (e.history.map Prod.fst)
  /-- The watermark lies between the two queues. -/
  old : ∀ s ∈ e.history.map Prod.fst, seqOf s ≤ e.watermark
  recent : ∀ s ∈ e.queue.map Prod.fst, e.watermark < seqOf s
  numbered : (e.batches.map (·.sequence)).Nodup
  drawn : ∀ b ∈ e.batches, b.sequence ≤ e.sequence
  classed : ∀ k b, e.frozen.get? k = some b → (e.classes.get? k).isSome = true

/-- A change of anything else. -/
theorem Filed.congr {e e' : Engine} (h : Filed e) (hadmitted : e'.admitted = e.admitted)
    (hoffered : ∀ s ∈ e.offered, s ∈ e'.offered) (hqueue : e'.queue = e.queue)
    (hhistory : e'.history = e.history) (hwatermark : e'.watermark = e.watermark)
    (hfrozen : e'.frozen = e.frozen) (hhanded : e'.handed = e.handed)
    (hclasses : e'.classes = e.classes) (hsequence : e.sequence ≤ e'.sequence) : Filed e' where
  captured := by
    rw [hadmitted]
    exact h.captured
  offered := by
    rw [hadmitted]
    exact fun s hs => hoffered s (h.offered s hs)
  places := by
    rw [hadmitted, Engine.waiting, hqueue, hhistory, Engine.frozenSamples, hfrozen,
      Engine.handedSamples, hhanded]
    exact h.places
  new := by
    rw [hqueue]
    exact h.new
  history := by
    rw [hhistory]
    exact h.history
  old := by
    rw [hhistory, hwatermark]
    exact h.old
  recent := by
    rw [hqueue, hwatermark]
    exact h.recent
  numbered := by
    rw [Engine.batches, hhanded, hfrozen]
    exact h.numbered
  drawn := by
    rw [Engine.batches, hhanded, hfrozen]
    exact fun b hb => (h.drawn b hb).trans hsequence
  classed := by
    rw [hfrozen, hclasses]
    exact h.classed

/-- An event in a queue was admitted. -/
theorem Filed.waiting {e : Engine} (h : Filed e) {s : Sample} (hs : s ∈ e.waiting) :
    s ∈ e.admitted := by
  rw [← Multiset.mem_coe, h.places]
  exact Multiset.mem_add.mpr (.inl (Multiset.mem_add.mpr (.inl hs)))

/-- An engine that has admitted nothing. -/
theorem Filed.nothing {e : Engine} (hadmitted : e.admitted = []) (hqueue : e.queue = [])
    (hhistory : e.history = []) (hfrozen : e.frozen = .empty) (hhanded : e.handed = []) :
    Filed e := by
  have hbatches : e.batches = [] := by
    rw [Engine.batches, hhanded, hfrozen]
    rfl
  constructor
  · rw [hadmitted]
    exact List.Pairwise.nil
  · rw [hadmitted]
    exact fun s hs => by cases hs
  · rw [hadmitted, Engine.waiting, hqueue, hhistory, Engine.frozenSamples, hfrozen,
      Engine.handedSamples, hhanded]
    rfl
  · rw [hqueue]
    exact List.Pairwise.nil
  · rw [hhistory]
    exact List.Pairwise.nil
  · rw [hhistory]
    exact fun s hs => by cases hs
  · rw [hqueue]
    exact fun s hs => by cases hs
  · rw [hbatches]
    exact List.nodup_nil
  · rw [hbatches]
    exact fun b hb => by cases hb
  · rw [hfrozen]
    exact fun k b hk => by cases hk

/-! ## Admission and the gate -/

/-- The newest event goes behind those of its class. -/
theorem Filed.owning {e : Engine} {s : Sample} (h : Filed e) (hnew : ∀ t ∈ e.admitted, seqOf t < seqOf s)
    (hoffered : s ∈ e.offered) : Filed (e.owning s) := by
  have hbehind : ∀ t ∈ e.waiting, seqOf t < seqOf s := fun t ht => hnew t (h.waiting ht)
  have hadmitted : (e.owning s).admitted = e.admitted ++ [s] := rfl
  have hcaptured : Ordered (e.owning s).admitted := by
    rw [hadmitted]
    exact h.captured.snoc hnew
  have hknown : ∀ t ∈ (e.owning s).admitted, t ∈ (e.owning s).offered := by
    intro t ht
    rw [hadmitted, List.mem_append, List.mem_singleton] at ht
    rcases ht with ht | rfl
    · exact h.offered t ht
    · exact hoffered
  have hplaces : ((e.owning s).admitted : Multiset Sample) =
      (e.owning s).waiting + (e.owning s).frozenSamples + (e.owning s).handedSamples := by
    rw [waiting_owning, hadmitted]
    show ((e.admitted ++ [s] : List Sample) : Multiset Sample) =
      s ::ₘ (e.waiting : Multiset Sample) + e.frozenSamples + e.handedSamples
    rw [Multiset.cons_add, Multiset.cons_add, ← h.places, Multiset.cons_coe]
    exact Multiset.coe_eq_coe.mpr List.perm_append_comm
  -- the watermark decides which queue it goes to
  by_cases hseq : seqOf s ≤ e.watermark
  · have hqueue : (e.owning s).queue = e.queue := if_pos hseq
    have hhistory : (e.owning s).history.map Prod.fst = e.history.map Prod.fst ++ [s] := by
      have hgrown : (e.owning s).history = e.history ++ [(s, e.sampleLimit)] := if_pos hseq
      rw [hgrown, List.map_append]
      rfl
    refine ⟨hcaptured, hknown, hplaces, ?_, ?_, ?_, ?_, h.numbered, h.drawn, h.classed⟩
    · rw [hqueue]
      exact h.new
    · rw [hhistory]
      exact h.history.snoc fun t ht => hbehind t (List.mem_append_right _ ht)
    · rw [hhistory]
      intro t ht
      rcases List.mem_append.mp ht with ht | ht
      · exact h.old t ht
      · rwa [List.mem_singleton.mp ht]
    · rw [hqueue]
      exact h.recent
  · have hhistory : (e.owning s).history = e.history := if_neg hseq
    have hqueue : (e.owning s).queue.map Prod.fst = e.queue.map Prod.fst ++ [s] := by
      have hgrown : (e.owning s).queue = e.queue ++ [(s, e.sampleLimit)] := if_neg hseq
      rw [hgrown, List.map_append]
      rfl
    refine ⟨hcaptured, hknown, hplaces, ?_, ?_, ?_, ?_, h.numbered, h.drawn, h.classed⟩
    · rw [hqueue]
      exact h.new.snoc fun t ht => hbehind t (List.mem_append_left _ ht)
    · rw [hhistory]
      exact h.history
    · rw [hhistory]
      exact h.old
    · rw [hqueue]
      intro t ht
      rcases List.mem_append.mp ht with ht | ht
      · exact h.recent t ht
      · rw [List.mem_singleton.mp ht]
        exact not_le.mp hseq

/-- The gate puts the new events behind the older ones. -/
theorem Filed.gate {e : Engine} (h : Filed e) {watermark : ℤ}
    (hgate : ∀ s ∈ e.admitted, seqOf s ≤ watermark) :
    Filed { e with
      watermark, history := e.history ++ e.queue, queue := []
      classes := .ofItems (e.frozen.items.map fun kv => (kv.1, .history)) } := by
  refine ⟨h.captured, h.offered, ?_, List.Pairwise.nil, ?_, ?_, fun s hs => (by cases hs), h.numbered,
    h.drawn, ?_⟩
  · rw [h.places, Engine.waiting, Engine.waiting]
    show _ = (([] ++ (e.history ++ e.queue).map Prod.fst : List Sample) : Multiset Sample) +
      e.frozenSamples + e.handedSamples
    rw [List.nil_append, List.map_append, Multiset.coe_eq_coe.mpr List.perm_append_comm]
  · show Ordered ((e.history ++ e.queue).map Prod.fst)
    rw [List.map_append]
    refine List.pairwise_append.mpr ⟨h.history, h.new, fun s hs t ht => ?_⟩
    have hold := h.old s hs
    have hrecent := h.recent t ht
    omega
  · intro s hs
    refine hgate s (h.waiting ?_)
    have hs : s ∈ (e.history ++ e.queue).map Prod.fst := hs
    rw [List.map_append, List.mem_append] at hs
    exact List.mem_append.mpr hs.symm
  · intro k b hk
    refine Dict.isSome_ofItems ?_
    rw [List.map_map]
    exact List.mem_map.mpr ⟨(k, b), Dict.get?_eq_some.mp hk, rfl⟩

/-! ## Batches -/

section Freeze

variable [Footprint]

@[simp] theorem freeze_handed (e : Engine) (c : Category) (batch : ReportBatch) (messageId : PyStr)
    (rest : List (Sample × ℤ)) : (e.freeze c batch messageId rest).handed = e.handed := by
  cases c <;> rfl

@[simp] theorem freeze_admitted (e : Engine) (c : Category) (batch : ReportBatch) (messageId : PyStr)
    (rest : List (Sample × ℤ)) : (e.freeze c batch messageId rest).admitted = e.admitted := by
  cases c <;> rfl

/-- The other class keeps its queue. -/
theorem freeze_classQueue (e : Engine) (c : Category) (batch : ReportBatch) (messageId : PyStr)
    (rest : List (Sample × ℤ)) (c' : Category) :
    (e.freeze c batch messageId rest).classQueue c' = if c' = c then rest else e.classQueue c' := by
  cases c <;> cases c' <;> rfl

omit [Footprint] in
/-- A queue that lost its first events is in order and beside the watermark. -/
theorem Filed.fewer {e e' : Engine} (h : Filed e)
    (hqueue : (e'.queue.map Prod.fst).Sublist (e.queue.map Prod.fst))
    (hhistory : (e'.history.map Prod.fst).Sublist (e.history.map Prod.fst))
    (hwatermark : e'.watermark = e.watermark) :
    Ordered (e'.queue.map Prod.fst) ∧ Ordered (e'.history.map Prod.fst) ∧
      (∀ s ∈ e'.history.map Prod.fst, seqOf s ≤ e'.watermark) ∧
        ∀ s ∈ e'.queue.map Prod.fst, e'.watermark < seqOf s := by
  rw [hwatermark]
  exact ⟨h.new.sublist hqueue, h.history.sublist hhistory, fun s hs => h.old s (hhistory.subset hs),
    fun s hs => h.recent s (hqueue.subset hs)⟩

theorem Filed.freeze {hand : List Sample} {inp : EngineInputs} {now : ℚ} {wallMs : ℤ} {e : Engine}
    {c : Category} {batch : ReportBatch} {taken rest : List (Sample × ℤ)} (h : Filed e)
    (hqueued : Queued hand e) (hbatch : Collects inp now wallMs e c batch taken rest)
    (messageId : PyStr) : Filed (e.freeze c batch messageId rest) := by
  have hfresh : e.frozen.get? batch.sequence = none := by
    rw [hbatch.sequence]
    exact hqueued.fresh
  have hfrozen : (e.freeze c batch messageId rest).frozen.values = e.frozen.values ++ [batch] := by
    rw [freeze_frozen, values_set_fresh hfresh]
  have hbatches : (e.freeze c batch messageId rest).batches = e.batches ++ [batch] := by
    rw [Engine.batches, freeze_handed, hfrozen, Engine.batches, List.append_assoc]
  have hsublist : ∀ c', (((e.freeze c batch messageId rest).classQueue c').map Prod.fst).Sublist
      ((e.classQueue c').map Prod.fst) := by
    intro c'
    rw [freeze_classQueue]
    split
    · next hc =>
        rw [hc, hbatch.queue]
        exact (List.sublist_append_right taken rest).map _
    · exact List.Sublist.refl _
  obtain ⟨hnew, hhistory, hold, hrecent⟩ := h.fewer (hsublist .new) (hsublist .history)
    (by cases c <;> rfl)
  refine ⟨?_, ?_, ?_, hnew, hhistory, hold, hrecent, ?_, ?_, ?_⟩
  · rw [freeze_admitted]
    exact h.captured
  · rw [freeze_admitted]
    have hoffered : (e.freeze c batch messageId rest).offered = e.offered := by cases c <;> rfl
    rw [hoffered]
    exact h.offered
  · -- the events go from the queue to the frozen ones
    have hwaiting : (e.waiting : Multiset Sample) =
        (taken.map Prod.fst : Multiset Sample) + (e.freeze c batch messageId rest).waiting :=
      freeze_waiting hbatch.queue
    rw [freeze_admitted, h.places, hwaiting, Engine.frozenSamples, Engine.frozenSamples, hfrozen, List.flatMap_append, List.flatMap_singleton,
      ← Multiset.coe_add, hbatch.samples, Engine.handedSamples, Engine.handedSamples, freeze_handed]
    abel
  · rw [hbatches, List.map_append]
    refine List.Nodup.append h.numbered (List.nodup_singleton _) fun n hn hlast => ?_
    obtain ⟨b, hb, rfl⟩ := List.mem_map.mp hn
    have hle := h.drawn b hb
    have hlast : b.sequence = batch.sequence := List.mem_singleton.mp hlast
    have hnumber := hbatch.sequence
    omega
  · rw [hbatches, freeze_sequence]
    intro b hb
    rcases List.mem_append.mp hb with hb | hb
    · have hle := h.drawn b hb
      omega
    · rw [List.mem_singleton.mp hb, hbatch.sequence]
  · intro k b hk
    rw [freeze_frozen, Dict.get?_set] at hk
    rw [freeze_classes, Dict.get?_set]
    split at hk
    · next hkey => rw [if_pos hkey]; rfl
    · next hkey =>
        rw [if_neg hkey]
        exact h.classed k b hk

end Freeze

/-- What `committed` may change once the batch is taken. -/
def HandsOn (e : Engine) (batch : ReportBatch) (e' : Engine) : Prop :=
  ∃ maps usedBytes refs owned owners shadows, e' = { e.taken batch with
    maps, usedBytes, refs, owned, owners, shadows }

/-- The events of a committed batch were handed over. -/
theorem Filed.handsOn {e e' : Engine} {batch : ReportBatch} (h : Filed e)
    (hbatch : e.frozen.get? batch.sequence = some batch) (hhands : HandsOn e batch e') : Filed e' := by
  obtain ⟨_, _, _, _, _, _, rfl⟩ := hhands
  have hperm : e.frozen.values.Perm (batch :: (e.frozen.erase batch.sequence).values) :=
    Dict.values_erase hbatch
  have hbatches : ((e.handed ++ [batch]) ++ (e.frozen.erase batch.sequence).values).Perm e.batches := by
    rw [List.append_assoc]
    exact (hperm.append_left e.handed).symm
  refine ⟨h.captured, h.offered, ?_, h.new, h.history, h.old, h.recent, ?_, ?_, ?_⟩
  · show (e.admitted : Multiset Sample) = e.waiting +
      ((e.frozen.erase batch.sequence).values.flatMap (·.samples) : List Sample) +
      ((e.handed ++ [batch]).flatMap (·.samples) : List Sample)
    have hsamples : e.frozenSamples.Perm
        (batch.samples ++ (e.frozen.erase batch.sequence).values.flatMap (·.samples)) :=
      hperm.flatMap_right _
    rw [h.places, Multiset.coe_eq_coe.mpr hsamples, ← Multiset.coe_add, Engine.handedSamples,
      List.flatMap_append, List.flatMap_singleton, ← Multiset.coe_add]
    abel
  · exact (hbatches.map _).nodup_iff.mpr h.numbered
  · exact fun b hb => h.drawn b (hbatches.mem_iff.mp hb)
  · intro k b hk
    have hk : (e.frozen.erase batch.sequence).get? k = some b := hk
    show ((e.classes.erase batch.sequence).get? k).isSome = true
    rw [Dict.get?_erase] at hk ⊢
    split at hk
    · cases hk
    · next hkey =>
        rw [if_neg hkey]
        exact h.classed k b hk

/-! ## `prepare` as a whole -/

/-- The events of the batches of a class. -/
def samplesOf (c : Category) (fresh : List (Category × ReportBatch)) : List Sample :=
  (fresh.filter fun f => f.1 = c).flatMap (·.2.samples)

/-- These batches were frozen, each of one class, and nothing else has happened to the
    events. -/
structure Materializes (e : Engine) (fresh : List (Category × ReportBatch)) (e' : Engine) : Prop where
  frozen : e'.frozen.values = e.frozen.values ++ fresh.map Prod.snd
  /-- The batches of a class are the front of its queue. -/
  order : ∀ c, (e.classQueue c).map Prod.fst = samplesOf c fresh ++ (e'.classQueue c).map Prod.fst
  nonempty : ∀ f ∈ fresh, f.2.samples ≠ []
  numbers : (e.sequence :: fresh.map (·.2.sequence)).Pairwise (· < ·)
  last : ∀ f ∈ fresh, f.2.sequence ≤ e'.sequence
  few : ∀ c, e'.frozenOf c ≤ max (e.frozenOf c) 7
  stays : ∀ k b, e.frozen.get? k = some b → e'.frozen.get? k = some b
  classed : ∀ f ∈ fresh, e'.classes.get? f.2.sequence = some f.1
  sequence : e.sequence ≤ e'.sequence
  handed : e'.handed = e.handed
  admitted : e'.admitted = e.admitted

theorem Materializes.nothing {e e' : Engine} (hfrozen : e'.frozen = e.frozen)
    (hqueue : e'.queue = e.queue) (hhistory : e'.history = e.history) (hclasses : e'.classes = e.classes)
    (hsequence : e.sequence ≤ e'.sequence) (hhanded : e'.handed = e.handed)
    (hadmitted : e'.admitted = e.admitted) : Materializes e [] e' where
  frozen := by rw [hfrozen, List.map_nil, List.append_nil]
  order c := by
    cases c with
    | new =>
        show e.queue.map Prod.fst = [] ++ e'.queue.map Prod.fst
        rw [hqueue, List.nil_append]
    | history =>
        show e.history.map Prod.fst = [] ++ e'.history.map Prod.fst
        rw [hhistory, List.nil_append]
  nonempty f hf := by cases hf
  numbers := List.pairwise_singleton _ _
  last f hf := by cases hf
  few c := by
    rw [Engine.frozenOf, hclasses, ← Engine.frozenOf]
    exact le_max_left _ _
  stays k b hk := by rwa [hfrozen]
  classed f hf := by cases hf
  sequence := hsequence
  handed := hhanded
  admitted := hadmitted

theorem samplesOf_snoc (c c' : Category) (fresh : List (Category × ReportBatch)) (batch : ReportBatch) :
    samplesOf c' (fresh ++ [(c, batch)]) =
      samplesOf c' fresh ++ if c' = c then batch.samples else [] := by
  rw [samplesOf, List.filter_append, List.flatMap_append, ← samplesOf]
  by_cases hc : c' = c
  · rw [if_pos hc, List.filter_cons_of_pos (by simpa using hc.symm)]
    simp
  · rw [if_neg hc, List.filter_cons_of_neg (by simpa using Ne.symm hc)]
    simp

/-- A number was drawn for a batch that was not frozen. -/
theorem Materializes.drawn {e e' : Engine} {fresh : List (Category × ReportBatch)}
    (h : Materializes e fresh e') : Materializes e fresh e'.drawn where
  frozen := h.frozen
  order c := by
    have horder := h.order c
    cases c with
    | new => exact horder
    | history => exact horder
  nonempty := h.nonempty
  numbers := h.numbers
  last f hf := (h.last f hf).trans (Int.le_add_one le_rfl)
  few := h.few
  stays := h.stays
  classed := h.classed
  sequence := h.sequence.trans (Int.le_add_one le_rfl)
  handed := h.handed
  admitted := h.admitted

/-- One more batch was frozen. -/
theorem Materializes.freeze [Footprint] {e e' : Engine} {fresh : List (Category × ReportBatch)}
    {hand : List Sample} {inp : EngineInputs} {now : ℚ} {wallMs : ℤ} {c : Category} {batch : ReportBatch}
    {taken rest : List (Sample × ℤ)} (h : Materializes e fresh e') (hqueued : Queued hand e')
    (hbatch : Collects inp now wallMs e' c batch taken rest) (messageId : PyStr) :
    Materializes e (fresh ++ [(c, batch)]) (e'.freeze c batch messageId rest) := by
  have hnumber := hbatch.sequence
  have hfresh : e'.frozen.get? batch.sequence = none := by
    rw [hnumber]
    exact hqueued.fresh
  have hunclassed : e'.classes.get? batch.sequence = none := by
    cases hclass : e'.classes.get? batch.sequence with
    | none => rfl
    | some c' =>
        obtain ⟨b, hb⟩ := hqueued.classed _ _ hclass
        rw [hfresh] at hb
        cases hb
  have hclasses : (e'.freeze c batch messageId rest).classes.values = e'.classes.values ++ [c] := by
    rw [freeze_classes, values_set_fresh hunclassed]
  constructor
  · rw [freeze_frozen, values_set_fresh hfresh, h.frozen, List.map_append, List.append_assoc]
    rfl
  · intro c'
    rw [h.order c', samplesOf_snoc, freeze_classQueue, List.append_assoc]
    by_cases hc : c' = c
    · rw [if_pos hc, if_pos hc, hc, hbatch.queue, List.map_append, hbatch.samples]
    · rw [if_neg hc, if_neg hc, List.nil_append]
  · intro f hf
    rcases List.mem_append.mp hf with hf | hf
    · exact h.nonempty f hf
    · rw [List.mem_singleton.mp hf, hbatch.samples]
      exact fun hnil => hbatch.nonempty (List.map_eq_nil_iff.mp hnil)
  · rw [List.map_append, ← List.cons_append]
    refine List.pairwise_append.mpr ⟨h.numbers, List.pairwise_singleton _ _, fun n hn m hm => ?_⟩
    obtain rfl := List.mem_singleton.mp hm
    have hsequence := h.sequence
    rcases List.mem_cons.mp hn with rfl | hn
    · show e.sequence < batch.sequence
      omega
    · obtain ⟨f, hf, rfl⟩ := List.mem_map.mp hn
      have hlast := h.last f hf
      show f.2.sequence < batch.sequence
      omega
  · intro f hf
    rw [freeze_sequence]
    rcases List.mem_append.mp hf with hf | hf
    · have hlast := h.last f hf
      omega
    · rw [List.mem_singleton.mp hf]
      exact hnumber.le
  · intro c'
    -- the class had fewer than seven when the batch was begun
    have hseven := (classQueue_ne_nil (nextClass_some hbatch.next).2).2
    have hfew := h.few c'
    rw [Engine.frozenOf, hclasses, List.count_append, ← Engine.frozenOf]
    by_cases hc : c' = c
    · rw [hc] at hfew ⊢
      rw [List.count_singleton_self]
      omega
    · rw [List.count_eq_zero.mpr fun hmem => hc (List.mem_singleton.mp hmem)]
      exact hfew
  · intro k b hk
    have hk := h.stays k b hk
    rw [freeze_frozen, Dict.get?_set, if_neg, hk]
    rintro rfl
    rw [hfresh] at hk
    cases hk
  · intro f hf
    rw [freeze_classes, Dict.get?_set]
    rcases List.mem_append.mp hf with hf | hf
    · have hlast := h.last f hf
      rw [if_neg (by omega)]
      exact h.classed f hf
    · rw [List.mem_singleton.mp hf, if_pos rfl]
  · rw [freeze_sequence]
    exact h.sequence.trans (Int.le_add_one le_rfl)
  · rw [freeze_handed, h.handed]
  · rw [freeze_admitted, h.admitted]

section Calls

variable [EventCharge] [Footprint]

/-- `prepare` freezes batches of the events that wait, and returns them behind those that
    were frozen before. -/
theorem prepare_files (inp : EngineInputs) (now : ℚ) (wallMs : ℤ) (force : Bool) {e : Engine}
    (h : Sound e) (hfiled : Filed e) :
    wp (prepare inp now wallMs force)
      (fun batches e' => (Sound e' ∧ Filed e') ∧ ∃ fresh, Materializes e fresh e' ∧
        (force = true ∨ e.nextBatch ≤ now → batches = e'.frozen.values))
      (fun err e' => err ≠ .key ∧ ((∃ text, err = .runtime text) ∨
        (Sound e' ∧ Filed e') ∧ ∃ fresh, Materializes e fresh e')) e := by
  refine (prepare_rule (J := fun e' batches => Filed e' ∧ batches = e'.frozen.values ∧
    ∃ fresh, Materializes e fresh e') inp now wallMs force ?_ ?_ h ?_).mono ?_ ?_
  · rintro e' batches ⟨hfiled', hbatches, fresh, hmaterializes⟩
    refine ⟨?_, hbatches, fresh, hmaterializes.drawn⟩
    exact hfiled'.congr rfl (fun _ hs => hs) rfl rfl rfl rfl rfl rfl (Int.le_add_one le_rfl)
  · rintro e' batches batch c taken rest hsound ⟨hfiled', hbatches, fresh, hmaterializes⟩ hfreezes
    refine ⟨hfiled'.freeze hsound.queued hfreezes.toCollects _, ?_, _,
      hmaterializes.freeze hsound.queued hfreezes.toCollects _⟩
    rw [freeze_frozen, hbatches, values_set_fresh]
    rw [hfreezes.sequence]
    exact hsound.queued.fresh
  · refine ⟨hfiled.congr rfl (fun _ hs => hs) rfl rfl rfl rfl rfl rfl le_rfl, rfl, [], ?_⟩
    exact .nothing rfl rfl rfl rfl le_rfl rfl rfl
  · rintro batches e' ⟨hsound, hsame⟩
    split at hsame
    · next hearly =>
        obtain ⟨rfl, rfl⟩ := hsame
        refine ⟨⟨hsound, hfiled⟩, [], .nothing rfl rfl rfl rfl le_rfl rfl rfl, fun hdue => ?_⟩
        rcases hdue with hforce | hdue
        · rw [hforce] at hearly
          cases hearly.1
        · exact absurd hearly.2 (not_lt.mpr hdue)
    · obtain ⟨⟨hfiled', hbatches, fresh, hmaterializes⟩, -⟩ := hsame
      exact ⟨⟨hsound, hfiled'⟩, fresh, hmaterializes, fun _ => hbatches⟩
  · rintro err e' ⟨herr, hcause⟩
    refine ⟨herr, hcause.imp id ?_⟩
    rintro ⟨-, hsound, hfiled', -, fresh, hmaterializes⟩
    exact ⟨⟨hsound, hfiled'⟩, fresh, hmaterializes⟩

omit [Footprint] in
/-- A batch that is committed is taken whole. -/
theorem committed_files (batch : ReportBatch) {e : Engine} (h : Sound e) (hfiled : Filed e) :
    wp (committed batch)
      (fun _ e' => (Sound e' ∧ Filed e') ∧
        if e.frozen.get? batch.sequence = some batch then HandsOn e batch e' else e' = e)
      (fun _ _ => False) e := by
  refine (committed_rule batch (J := fun _ e' => HandsOn e batch e') ?_ h ?_).mono ?_
    fun _ _ hf => hf
  · rintro e' s hand refs usedBytes - ⟨_, _, _, _, _, _, rfl⟩ -
    exact ⟨_, _, _, _, _, _, rfl⟩
  · exact fun _ => ⟨_, _, _, _, _, _, rfl⟩
  · rintro - e' ⟨hsound, hhands⟩
    refine ⟨⟨hsound, ?_⟩, hhands⟩
    split at hhands
    · next hbatch => exact hfiled.handsOn hbatch hhands
    · rwa [hhands]

variable [FloatArith]

/-- A sample is queued when it is admitted, and nothing is lost. -/
theorem Accepts.files {e e' : Engine} {s : Sample} {answer : Except EngineExc Bool}
    (h : Accepts e s answer e') (hfiled : Filed e) (hfresh : ∀ t ∈ e.offered, seqOf t < seqOf s) :
    Filed e' ∧ e.admitted <+: e'.admitted ∧ e'.frozen = e.frozen ∧ e'.handed = e.handed ∧
      e'.sequence = e.sequence := by
  have hmore : ∀ t ∈ e.offered, t ∈ e.offered ++ [s] := fun t ht => List.mem_append_left _ ht
  cases h with
  | foreign =>
      exact ⟨hfiled.congr rfl hmore rfl rfl rfl rfl rfl rfl le_rfl, List.prefix_refl _, rfl, rfl, rfl⟩
  | seen =>
      exact ⟨hfiled.congr rfl hmore rfl rfl rfl rfl rfl rfl le_rfl, List.prefix_refl _, rfl, rfl, rfl⟩
  | unidentified =>
      exact ⟨hfiled.congr rfl hmore rfl rfl rfl rfl rfl rfl le_rfl, List.prefix_refl _, rfl, rfl, rfl⟩
  | failed =>
      exact ⟨hfiled.congr rfl hmore rfl rfl rfl rfl rfl rfl le_rfl, List.prefix_refl _, rfl, rfl, rfl⟩
  | @concluded latest refs usedBytes p selected changed served answer e₁ _ _ _ _ hselects hconcludes =>
      obtain ⟨maps, missed, accounting, rfl, -⟩ := hselects.cyclic.beside
      have hlisted : Filed { e.listed s with
          latest, refs, usedBytes, maps, missedReportSlots := missed, accounting } :=
        hfiled.congr rfl hmore rfl rfl rfl rfl rfl rfl le_rfl
      cases answer with
      | false =>
          obtain ⟨_, _, _, _, _, _, rfl⟩ := hconcludes.counts
          exact ⟨hlisted.congr rfl (fun _ ht => ht) rfl rfl rfl rfl rfl rfl le_rfl,
            List.prefix_refl _, rfl, rfl, rfl⟩
      | true =>
          cases hconcludes with
          | @admitted refs' usedBytes' =>
              refine ⟨?_, List.prefix_append _ _, rfl, rfl, rfl⟩
              have hseq : ∀ t ∈ e.admitted, seqOf t < seqOf s :=
                fun t ht => hfresh t (hfiled.offered t ht)
              have heligible : Filed (Engine.eligible { e.listed s with
                  latest, refs, usedBytes, maps, missedReportSlots := missed, accounting }
                  (accounting.admitted s)) :=
                hlisted.congr rfl (fun _ ht => ht) rfl rfl rfl rfl rfl rfl le_rfl
              have howned := heligible.owning hseq (List.mem_append_right _ (List.mem_singleton_self s))
              exact howned.congr rfl (fun _ ht => ht) rfl rfl rfl rfl rfl rfl le_rfl

/-! ## Runs -/

/-- A watermark is not below the events that were admitted. -/
def Gated (e : Engine) : EngineCall → Prop
  | .openGate watermark => ∀ s ∈ e.admitted, seqOf s ≤ watermark
  | _ => True

instance (e : Engine) (c : EngineCall) : Decidable (Gated e c) :=
  match c with
  | .openGate watermark => inferInstanceAs (Decidable (∀ s ∈ e.admitted, seqOf s ≤ watermark))
  | .configure .. => .isTrue trivial
  | .accept _ => .isTrue trivial
  | .prepare .. => .isTrue trivial
  | .committed _ => .isTrue trivial
  | .abandon => .isTrue trivial
  | .reload => .isTrue trivial
  | .share _ => .isTrue trivial

/-- How a call treats events and batches. -/
structure Files (c : EngineCall) (e : Engine) (r : Except EngineExc (List ReportBatch)) (e' : Engine) :
    Prop where
  /-- What was admitted or handed over stays so. -/
  admitted : e.admitted <+: e'.admitted
  handed : e.handed <+: e'.handed
  /-- A frozen batch stays as it is until it is committed. -/
  stays : ∀ k b, e.frozen.get? k = some b →
    e'.frozen.get? k = some b ∨ c = .committed b ∧ e'.handed = e.handed ++ [b]
  /-- `prepare` cuts batches off the queues, and returns all that are frozen. -/
  prepared : ∀ now wallMs force, c = .prepare now wallMs force → ∃ fresh, Materializes e fresh e' ∧
    ∀ batches, r = .ok batches → (force = true ∨ e.nextBatch ≤ now → batches = e'.frozen.values)
  /-- No other call freezes batches. -/
  others : (∀ now wallMs force, c ≠ .prepare now wallMs force) →
    e'.sequence = e.sequence ∧ ∀ b ∈ e'.frozen.values, b ∈ e.frozen.values

omit [EventCharge] [Footprint] [FloatArith] in
/-- A call that leaves batches and admitted events. -/
theorem Files.nothing {c : EngineCall} {e e' : Engine} {r : Except EngineExc (List ReportBatch)}
    (hc : ∀ now wallMs force, c ≠ .prepare now wallMs force) (hadmitted : e.admitted <+: e'.admitted)
    (hfrozen : e'.frozen = e.frozen) (hhanded : e'.handed = e.handed)
    (hsequence : e'.sequence = e.sequence) : Files c e r e' := by
  refine ⟨hadmitted, ?_, fun k b hk => .inl ?_, fun now wallMs force hp => absurd hp (hc now wallMs force),
    fun _ => ⟨hsequence, ?_⟩⟩
  · rw [hhanded]
  · rwa [hfrozen]
  · rw [hfrozen]
    exact fun b hb => hb

omit [EventCharge] [Footprint] [FloatArith] in
theorem Materializes.files {e e' : Engine} {fresh : List (Category × ReportBatch)} {now : ℚ} {wallMs : ℤ}
    {force : Bool} {r : Except EngineExc (List ReportBatch)} (h : Materializes e fresh e')
    (hr : ∀ batches, r = .ok batches → (force = true ∨ e.nextBatch ≤ now → batches = e'.frozen.values)) :
    Files (.prepare now wallMs force) e r e' where
  admitted := by rw [h.admitted]
  handed := by rw [h.handed]
  stays k b hk := .inl (h.stays k b hk)
  prepared now' wallMs' force' hc := by
    obtain ⟨rfl, rfl, rfl⟩ := EngineCall.prepare.inj hc
    exact ⟨fresh, h, hr⟩
  others hno := absurd rfl (hno now wallMs force)

/-- Every call keeps each event in one place, unless `prepare` found no place for a batch
    in the accounting. -/
theorem step_files (inp : EngineInputs) (c : EngineCall) {e : Engine} (h : Sound e) (hfiled : Filed e)
    (hreports : c.Reports) (hfresh : Fresh e c) (hgated : Gated e c) :
    wp (c.exec inp) (fun b e' => (Sound e' ∧ Filed e') ∧ Files c e (.ok b) e')
      (fun err e' => (∃ text, err = .runtime text) ∨
        (Sound e' ∧ Filed e') ∧ Files c e (.error err) e') e := by
  cases c with
  | configure snapshot now generation =>
      rw [EngineCall.exec, wp_bind]
      refine (configure_sound snapshot now generation h).mono ?_ fun _ _ hf => hf.elim
      rintro - e' ⟨hsound, hconfigures⟩
      rw [Configures] at hconfigures
      split at hconfigures
      · subst hconfigures
        exact ⟨⟨hsound, hfiled⟩, .nothing (by simp) (List.prefix_refl _) rfl rfl rfl⟩
      · obtain ⟨refs, usedBytes, rfl⟩ := hconfigures
        exact ⟨⟨hsound, hfiled.congr rfl (fun _ ht => ht) rfl rfl rfl rfl rfl rfl le_rfl⟩,
          .nothing (by simp) (List.prefix_refl _) rfl rfl rfl⟩
  | accept s =>
      rw [EngineCall.exec, wp_bind]
      refine (accept_sound h hfresh).mono ?_ ?_
      · rintro answer e' ⟨ha, hsound⟩
        obtain ⟨hfiled', hadmitted, hfrozen, hhanded, hsequence⟩ := ha.files hfiled hfresh
        exact ⟨⟨hsound, hfiled'⟩, .nothing (by simp) hadmitted hfrozen hhanded hsequence⟩
      · rintro err e' ⟨-, ha, hsound⟩
        obtain ⟨hfiled', hadmitted, hfrozen, hhanded, hsequence⟩ := ha.files hfiled hfresh
        exact .inr ⟨⟨hsound, hfiled'⟩, .nothing (by simp) hadmitted hfrozen hhanded hsequence⟩
  | openGate watermark =>
      have hgate := openGate_sound watermark h
      rw [openGate, wp_modify] at hgate
      rw [EngineCall.exec, wp_bind, openGate, wp_modify]
      exact ⟨⟨hgate.1, hfiled.gate hgated⟩, .nothing (by simp) (List.prefix_refl _) rfl rfl rfl⟩
  | prepare now wallMs force =>
      refine (prepare_files inp now wallMs force h hfiled).mono ?_ ?_
      · rintro batches e' ⟨hnext, fresh, hmaterializes, hbatches⟩
        refine ⟨hnext, hmaterializes.files fun batches' hr hdue => ?_⟩
        rw [← Except.ok.inj hr]
        exact hbatches hdue
      · rintro err e' ⟨-, hcause⟩
        refine hcause.imp id ?_
        rintro ⟨hnext, fresh, hmaterializes⟩
        exact ⟨hnext, hmaterializes.files fun _ hr => by cases hr⟩
  | committed batch =>
      rw [EngineCall.exec, wp_bind]
      refine (committed_files batch h hfiled).mono ?_ fun _ _ hf => hf.elim
      rintro - e' ⟨hnext, hhands⟩
      refine ⟨hnext, ?_⟩
      split at hhands
      · next hbatch =>
          obtain ⟨_, _, _, _, _, _, rfl⟩ := hhands
          refine ⟨List.prefix_refl _, List.prefix_append _ _, fun k b hk => ?_,
            fun _ _ _ hc => (by cases hc), fun _ => ⟨rfl, fun b hb => ?_⟩⟩
          -- The batch leaves with its samples, and the others stay frozen.
          · by_cases hkey : k = batch.sequence
            · rw [hkey, hbatch] at hk
              obtain rfl := Option.some.inj hk
              exact .inr ⟨rfl, rfl⟩
            · refine .inl ?_
              show (e.frozen.erase batch.sequence).get? k = some b
              rw [Dict.get?_erase, if_neg hkey, hk]
          · exact (Dict.values_erase hbatch).mem_iff.mpr (List.mem_cons_of_mem _ hb)
      · rw [hhands]
        exact .nothing (by simp) (List.prefix_refl _) rfl rfl rfl
  | abandon => exact hreports.elim
  | reload => exact hreports.elim
  | share accounting =>
      exact ⟨⟨h.shared accounting, hfiled.congr rfl (fun _ ht => ht) rfl rfl rfl rfl rfl rfl le_rfl⟩,
        .nothing (by simp) (List.prefix_refl _) rfl rfl rfl⟩

/-- The engine neither loses nor doubles an event: in every run of an engine without
    `abandon`, with samples in the order of their capture, watermarks that are not below
    the admitted events and a place in the accounting for each frozen batch, every
    admitted event is in one queue, one frozen batch or one batch that was handed over;
    the queues are in the order of capture, and `prepare` cuts batches of a single class
    off their fronts; a frozen batch stays the same until it is committed, and each
    `prepare` that is due returns it; and no batch number is used twice. -/
theorem events_kept (inp : EngineInputs) (gateway bootId : PyStr) (capacity maxBytes : ℕ)
    (accounting : Accounting) (sequence : ℤ) (calls : List EngineCall)
    (hcalls : ∀ st ∈ trace (EngineCall.exec inp)
        ({ gateway, bootId, capacity, maxBytes, accounting, sequence } : Engine) calls,
      st.call.Reports ∧ Fresh st.before st.call ∧ Gated st.before st.call ∧ Placed st) :
    ∀ st ∈ trace (EngineCall.exec inp)
        ({ gateway, bootId, capacity, maxBytes, accounting, sequence } : Engine) calls,
      Filed st.after ∧ Files st.call st.before st.result st.after ∧ st.after.frozen.items.length ≤ 8 := by
  refine trace_forall (I := fun e => Sound e ∧ Filed e) ?_ ?_ hcalls
  · rintro e c ⟨h, hfiled⟩ ⟨hreports, hfresh, hgated, hplaced⟩
    obtain ⟨hok, herror⟩ := perform_spec (step_files inp c h hfiled hreports hfresh hgated)
    cases hresult : (perform (EngineCall.exec inp) e c).result with
    | ok batches =>
        obtain ⟨hnext, hfiles⟩ := hok batches hresult
        exact ⟨⟨hnext.2, hfiles, hnext.1.queued.count⟩, hnext⟩
    | error err =>
        rcases herror err hresult with ⟨text, rfl⟩ | ⟨hnext, hfiles⟩
        · exact absurd hresult (hplaced.ne_runtime text)
        · exact ⟨⟨hnext.2, hfiles, hnext.1.queued.count⟩, hnext⟩
  · exact ⟨.start rfl rfl (.nothing rfl rfl rfl rfl rfl rfl) ⟨rfl, rfl, rfl, rfl, rfl, rfl⟩ rfl rfl
      List.Pairwise.nil fun _ _ h => (by cases h), .nothing rfl rfl rfl rfl rfl⟩

end Calls

/-! ### A station -/

attribute [local instance] Footprint.spacious flatCharge Drivers.FloatArith.rounded

/-- Two readings wait when the gate opens, and the older one is handed over. -/
def gatedCalls : List EngineCall :=
  [.configure (some switchConfig) 0 (some 1), .accept (reading 1), .accept (reading 2), .openGate 2,
    .prepare 0 0 true, .accept (jumped 3), .prepare 0 0 true, .committed (readingBatch 1)]

theorem events_kept_station :
    (∀ st ∈ trace (EngineCall.exec stationIds) (station 4) gatedCalls,
        st.call.Reports ∧ Fresh st.before st.call ∧ Gated st.before st.call ∧ Placed st) ∧
      ∀ st ∈ trace (EngineCall.exec stationIds) (station 4) gatedCalls,
        Filed st.after ∧ Files st.call st.before st.result st.after ∧
          st.after.frozen.items.length ≤ 8 :=
  ⟨by decide +kernel, events_kept stationIds (py "g") (py "b") 32768 (32 * 1024 * 1024)
    (station 4).accounting 0 gatedCalls (by decide +kernel)⟩

end PlcnextIot.Reporting
