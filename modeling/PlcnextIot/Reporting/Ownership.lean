/-
  PlcnextIot.Reporting.Ownership

  Where the admitted events of an engine are: in one of its queues, in a frozen batch,
  or, while a batch is handed over, in the hand of `committed`.

  `Queued` states this for the ownership map and its index by point and epoch.
  `Recorded` states what the maps and views hold, and what a later engine on the same
  boot context may take from the checkpoint.
-/

import PlcnextIot.Reporting.Handover

namespace PlcnextIot.Reporting

open PlcnextIot.Python PlcnextIot.Config PlcnextIot.Points PlcnextIot.Effect PlcnextIot.Effect.Prog

/-! ## The invariant -/

/-- The events of the frozen batches. -/
def Engine.frozenSamples (e : Engine) : List Sample := e.frozen.values.flatMap (·.samples)

/-- The events that wait in the queues. -/
def Engine.waiting (e : Engine) : List Sample := e.queue.map Prod.fst ++ e.history.map Prod.fst

/-- The owned events are those in the queues, in the frozen batches and in `hand`. -/
structure Queued (hand : List Sample) (e : Engine) : Prop where
  keyed : ∀ id s, e.owned.get? id = some s → id = identity s
  places : (e.owned.values : Multiset Sample) = e.waiting + e.frozenSamples + hand
  index : ∀ s ∈ e.owned.values, ∃ owners, e.owners.get? (epochOf s, keyOf s) = some owners ∧
    owners.get? (seqOf s) = some s
  back : ∀ group owners, e.owners.get? group = some owners → owners.items ≠ [] ∧
    ∀ seq s, owners.get? seq = some s →
      s ∈ e.owned.values ∧ (epochOf s, keyOf s) = group ∧ seqOf s = seq
  numbered : ∀ k batch, e.frozen.get? k = some batch → batch.sequence = k ∧ k ≤ e.sequence
  classed : ∀ k c, e.classes.get? k = some c → ∃ batch, e.frozen.get? k = some batch
  small : ∀ batch ∈ e.frozen.values, batch.payload.length ≤ maxPayload ∧ batch.samples.length ≤ 500
  count : e.frozen.items.length ≤ 8

theorem Queued.congr {hand : List Sample} {e e' : Engine} (h : Queued hand e)
    (howned : e'.owned = e.owned) (hqueue : e'.queue = e.queue) (hhistory : e'.history = e.history)
    (hfrozen : e'.frozen = e.frozen) (howners : e'.owners = e.owners)
    (hclasses : e'.classes = e.classes) (hsequence : e.sequence ≤ e'.sequence) : Queued hand e' where
  keyed := by
    rw [howned]
    exact h.keyed
  places := by
    rw [howned, Engine.waiting, hqueue, hhistory, Engine.frozenSamples, hfrozen]
    exact h.places
  index := by
    rw [howned, howners]
    exact h.index
  back := by
    rw [howned, howners]
    exact h.back
  numbered := by
    rw [hfrozen]
    exact fun k batch hk => ⟨(h.numbered k batch hk).1, (h.numbered k batch hk).2.trans hsequence⟩
  classed := by
    rw [hclasses, hfrozen]
    exact h.classed
  small := by
    rw [hfrozen]
    exact h.small
  count := by
    rw [hfrozen]
    exact h.count

/-- Every owned event stands under its identity. -/
theorem Queued.owned_get {hand : List Sample} {e : Engine} (h : Queued hand e) {s : Sample}
    (hs : s ∈ e.owned.values) : e.owned.get? (identity s) = some s := by
  obtain ⟨id, hid⟩ := Dict.mem_values.mp hs
  rw [← h.keyed id s hid]
  exact hid

/-- The next batch number is free. -/
theorem Queued.fresh {hand : List Sample} {e : Engine} (h : Queued hand e) :
    e.frozen.get? (e.sequence + 1) = none := by
  cases hk : e.frozen.get? (e.sequence + 1) with
  | none => rfl
  | some batch =>
      have hle := (h.numbered _ batch hk).2
      omega

/-! ## An event is admitted -/

theorem mem_values_set {κ : Type} [DecidableEq κ] {d : Dict κ Sample} {key : κ} {s t : Sample}
    (h : t ∈ (d.set key s).values) : t = s ∨ t ∈ (d.erase key).values :=
  List.mem_cons.mp ((Dict.values_set d key s).mem_iff.mp h)

theorem waiting_owning (e : Engine) (s : Sample) :
    ((e.owning s).waiting : Multiset Sample) = s ::ₘ (e.waiting : Multiset Sample) := by
  rw [Engine.owning, Engine.waiting, Engine.waiting]
  by_cases hseq : seqOf s ≤ e.watermark
  · simp only [if_pos hseq, List.map_append, List.map_cons, List.map_nil]
    rw [← List.append_assoc, Multiset.cons_coe]
    exact Multiset.coe_eq_coe.mpr List.perm_append_comm
  · simp only [if_neg hseq, List.map_append, List.map_cons, List.map_nil]
    exact Multiset.coe_eq_coe.mpr (by
      rw [List.append_assoc]
      exact List.perm_middle)

/-- Admission keeps the invariant, for an event that is newer than the owned ones. -/
theorem Queued.owning {e : Engine} {s : Sample} (h : Queued [] e)
    (hnew : e.owned.get? (identity s) = none) (hseq : ∀ t ∈ e.owned.values, seqOf t < seqOf s) :
    Queued [] (e.owning s) := by
  have hmem : ∀ t, t ∈ (e.owned.set (identity s) s).values ↔ t = s ∨ t ∈ e.owned.values := by
    intro t
    rw [(Dict.values_set _ _ _).mem_iff, List.mem_cons, Dict.erase_of_none hnew]
  refine ⟨fun id t hid => ?_, ?_, fun t ht => ?_, fun group owners hgroup => ?_, h.numbered,
    h.classed, h.small, h.count⟩
  · rw [Engine.owning, Dict.get?_set] at hid
    split at hid
    · next he => rw [he, Option.some.inj hid]
    · exact h.keyed id t hid
  · rw [waiting_owning]
    show ((e.owned.set (identity s) s).values : Multiset Sample) = _
    rw [coe_values_set, Dict.erase_of_none hnew, h.places, Multiset.cons_add, Multiset.cons_add]
    rfl
  · show ∃ owners, (e.owners.set _ _).get? _ = some owners ∧ _
    rw [Dict.get?_set]
    rcases (hmem t).mp ht with rfl | ht
    · rw [if_pos rfl]
      exact ⟨_, rfl, Dict.get?_set_self _ _ _⟩
    -- A number above all others replaces no owner of the point.
    · obtain ⟨owners, howners, hget⟩ := h.index t ht
      split
      · next hsame =>
          refine ⟨_, rfl, ?_⟩
          rw [← hsame, howners, Option.getD_some, Dict.get?_set, if_neg (hseq t ht).ne, hget]
      · exact ⟨owners, howners, hget⟩
  · have hgroup : (e.owners.set (epochOf s, keyOf s)
        (((e.owners.get? (epochOf s, keyOf s)).getD .empty).set (seqOf s) s)).get? group =
        some owners := hgroup
    rw [Dict.get?_set] at hgroup
    split at hgroup
    · next hsame =>
        obtain rfl := Option.some.inj hgroup
        refine ⟨fun hnil => ?_, fun seq t hget => ?_⟩
        · have hget := Dict.get?_set_self ((e.owners.get? (epochOf s, keyOf s)).getD .empty) (seqOf s) s
          rw [Dict.get?_eq_some, hnil] at hget
          cases hget
        · rw [Dict.get?_set] at hget
          split at hget
          · next he =>
              obtain rfl := Option.some.inj hget
              exact ⟨(hmem s).mpr (.inl rfl), hsame.symm, he.symm⟩
          · cases hold : e.owners.get? (epochOf s, keyOf s) with
            | none =>
                rw [hold] at hget
                cases hget
            | some old =>
                rw [hold] at hget
                obtain ⟨ht, hg, hs⟩ := (h.back _ old hold).2 seq t hget
                exact ⟨(hmem t).mpr (.inr ht), hg.trans hsame.symm, hs⟩
    · obtain ⟨hne, hall⟩ := h.back group owners hgroup
      refine ⟨hne, fun seq t hget => ?_⟩
      obtain ⟨ht, hg, hs⟩ := hall seq t hget
      exact ⟨(hmem t).mpr (.inr ht), hg, hs⟩

/-! ## A batch is frozen and handed over -/

theorem values_set_fresh {κ ν : Type} [DecidableEq κ] {d : Dict κ ν} {key : κ} {v : ν}
    (h : d.get? key = none) : (d.set key v).values = d.values ++ [v] := by
  rw [Dict.values, Dict.items_set (Dict.get?_eq_none.mp h), List.map_append]
  rfl

section Freeze

variable [Footprint] {e : Engine} {c : Category} {batch : ReportBatch} {messageId : PyStr}
  {rest : List (Sample × ℤ)}

@[simp] theorem freeze_owned : (e.freeze c batch messageId rest).owned = e.owned := by cases c <;> rfl

@[simp] theorem freeze_owners : (e.freeze c batch messageId rest).owners = e.owners := by
  cases c <;> rfl

@[simp] theorem freeze_frozen :
    (e.freeze c batch messageId rest).frozen = e.frozen.set batch.sequence batch := by cases c <;> rfl

@[simp] theorem freeze_classes :
    (e.freeze c batch messageId rest).classes = e.classes.set batch.sequence c := by cases c <;> rfl

@[simp] theorem freeze_sequence : (e.freeze c batch messageId rest).sequence = e.sequence + 1 := by
  cases c <;> rfl

/-- The events of a batch leave their queue. -/
theorem freeze_waiting {taken : List (Sample × ℤ)} (h : e.classQueue c = taken ++ rest) :
    (e.waiting : Multiset Sample) =
      (taken.map Prod.fst : Multiset Sample) + (e.freeze c batch messageId rest).waiting := by
  cases c with
  | new =>
      have hqueue : e.queue = taken ++ rest := h
      rw [Engine.waiting, hqueue, List.map_append, List.append_assoc]
      rfl
  | history =>
      have hhistory : e.history = taken ++ rest := h
      rw [Engine.waiting, hhistory, List.map_append]
      show ((_ ++ (_ ++ _) : List Sample) : Multiset Sample) = _ + ((_ ++ _ : List Sample) : Multiset Sample)
      rw [Multiset.coe_add]
      exact Multiset.coe_eq_coe.mpr (List.perm_append_comm_assoc _ _ _)

theorem Queued.freeze {hand : List Sample} {inp : EngineInputs} {now : ℚ} {wallMs : ℤ}
    {taken : List (Sample × ℤ)} (h : Queued hand e)
    (hbatch : Collects inp now wallMs e c batch taken rest) :
    Queued hand (e.freeze c batch messageId rest) := by
  have hfresh : e.frozen.get? batch.sequence = none := by
    rw [hbatch.sequence]
    exact h.fresh
  refine ⟨?_, ?_, ?_, ?_, fun k b hk => ?_, fun k c' hk => ?_, fun b hb => ?_, ?_⟩
  · rw [freeze_owned]
    exact h.keyed
  · rw [freeze_owned, h.places, freeze_waiting hbatch.queue,
      Engine.frozenSamples, Engine.frozenSamples, freeze_frozen, values_set_fresh hfresh,
      List.flatMap_append, ← hbatch.samples, List.flatMap_singleton, ← Multiset.coe_add]
    abel
  · rw [freeze_owned, freeze_owners]
    exact h.index
  · rw [freeze_owned, freeze_owners]
    exact h.back
  · rw [freeze_frozen, Dict.get?_set] at hk
    rw [freeze_sequence]
    split at hk
    · next he =>
        obtain rfl := Option.some.inj hk
        rw [he, hbatch.sequence]
        exact ⟨rfl, le_rfl⟩
    · obtain ⟨hnumber, hle⟩ := h.numbered k b hk
      exact ⟨hnumber, by omega⟩
  · rw [freeze_classes, Dict.get?_set] at hk
    rw [freeze_frozen, Dict.get?_set]
    split at hk
    · next he => exact ⟨batch, by rw [if_pos he]⟩
    · next he =>
        obtain ⟨b, hb⟩ := h.classed k c' hk
        exact ⟨b, by rw [if_neg he, hb]⟩
  · rw [freeze_frozen, values_set_fresh hfresh] at hb
    rcases List.mem_append.mp hb with hb | hb
    · exact h.small b hb
    · rw [List.mem_singleton.mp hb]
      refine ⟨hbatch.small, ?_⟩
      rw [hbatch.samples, List.length_map]
      exact hbatch.count
  · rw [freeze_frozen, Dict.items_set (Dict.get?_eq_none.mp hfresh), List.length_append]
    exact (nextClass_some hbatch.next).1

end Freeze

theorem released_owners (e : Engine) (s : Sample) (rest : Dict ℤ Sample) :
    (e.released s rest).owners = if rest.items = [] then e.owners.erase (epochOf s, keyOf s)
      else e.owners.set (epochOf s, keyOf s) rest := rfl

/-- An event of the hand is released. -/
theorem Queued.release {e : Engine} {s : Sample} {hand : List Sample} {owners : Dict ℤ Sample}
    (h : Queued (s :: hand) e) (hseq : ∀ t ∈ e.owned.values, seqOf t = seqOf s → t = s)
    (howners : e.owners.get? (epochOf s, keyOf s) = some owners) :
    Queued hand (e.released s (owners.erase (seqOf s))) := by
  have hs : s ∈ e.owned.values := by
    rw [← Multiset.mem_coe, h.places]
    exact Multiset.mem_add.mpr (.inr (Multiset.mem_coe.mpr List.mem_cons_self))
  have hmem : ∀ t, t ∈ (e.owned.erase (identity s)).values ↔ t ∈ e.owned.values ∧ t ≠ s := by
    intro t
    rw [Dict.mem_values]
    constructor
    · rintro ⟨id, hid⟩
      rw [Dict.get?_erase] at hid
      split at hid
      · cases hid
      · next hne =>
          refine ⟨Dict.mem_values.mpr ⟨id, hid⟩, fun he => hne ?_⟩
          rw [h.keyed id t hid, he]
    · rintro ⟨ht, hne⟩
      refine ⟨identity t, ?_⟩
      rw [Dict.get?_erase, if_neg, h.owned_get ht]
      intro he
      refine hne (Option.some.inj ?_)
      rw [← h.owned_get ht, he, h.owned_get hs]
  refine ⟨fun id t hid => ?_, ?_, fun t ht => ?_, fun group others hgroup => ?_, h.numbered,
    h.classed, h.small, h.count⟩
  · have hid : (e.owned.erase (identity s)).get? id = some t := hid
    rw [Dict.get?_erase] at hid
    split at hid
    · cases hid
    · exact h.keyed id t hid
  · have hplaces := h.places
    rw [Multiset.coe_eq_coe.mpr (Dict.values_erase (h.owned_get hs)), ← Multiset.cons_coe,
      ← Multiset.cons_coe, Multiset.add_cons] at hplaces
    exact Multiset.cons_inj_right s |>.mp hplaces
  · obtain ⟨ht, hne⟩ := (hmem t).mp ht
    obtain ⟨group, hgroup, hget⟩ := h.index t ht
    by_cases hsame : (epochOf t, keyOf t) = (epochOf s, keyOf s)
    · -- the others of the point and epoch stay together
      rw [hsame, howners] at hgroup
      obtain rfl := Option.some.inj hgroup
      have hrest : (owners.erase (seqOf s)).get? (seqOf t) = some t := by
        rw [Dict.get?_erase, if_neg fun he => hne (hseq t ht he), hget]
      refine ⟨owners.erase (seqOf s), ?_, hrest⟩
      rw [released_owners, if_neg fun hnil => ?_, hsame, Dict.get?_set_self]
      rw [Dict.get?_eq_some, hnil] at hrest
      cases hrest
    · refine ⟨group, ?_, hget⟩
      rw [released_owners]
      split
      · rw [Dict.get?_erase, if_neg hsame, hgroup]
      · rw [Dict.get?_set, if_neg hsame, hgroup]
  · rw [released_owners] at hgroup
    by_cases hsame : group = (epochOf s, keyOf s)
    · subst hsame
      by_cases hnil : (owners.erase (seqOf s)).items = []
      · rw [if_pos hnil, Dict.get?_erase, if_pos rfl] at hgroup
        cases hgroup
      · rw [if_neg hnil, Dict.get?_set_self] at hgroup
        obtain rfl := Option.some.inj hgroup
        refine ⟨hnil, fun seq t hget => ?_⟩
        rw [Dict.get?_erase] at hget
        split at hget
        · cases hget
        · next hne =>
            obtain ⟨ht, hg, hs'⟩ := (h.back _ owners howners).2 seq t hget
            exact ⟨(hmem t).mpr ⟨ht, fun he => hne (by rw [← hs', he])⟩, hg, hs'⟩
    · have hold : e.owners.get? group = some others := by
        split at hgroup
        · rwa [Dict.get?_erase, if_neg hsame] at hgroup
        · rwa [Dict.get?_set, if_neg hsame] at hgroup
      obtain ⟨hne, hall⟩ := h.back group others hold
      refine ⟨hne, fun seq t hget => ?_⟩
      obtain ⟨ht, hg, hs'⟩ := hall seq t hget
      exact ⟨(hmem t).mpr ⟨ht, fun he => hsame (by rw [← hg, he])⟩, hg, hs'⟩

/-- A committed batch is taken into the hand. -/
theorem Queued.commit {e : Engine} {batch : ReportBatch} (h : Queued [] e)
    (hbatch : e.frozen.get? batch.sequence = some batch) {usedBytes : ℤ} {handed : List ReportBatch} :
    Queued batch.samples { e with
      frozen := e.frozen.erase batch.sequence, classes := e.classes.erase batch.sequence
      usedBytes, handed } where
  keyed := h.keyed
  places := by
    have hperm : (e.frozen.values.flatMap (·.samples)).Perm
        (batch.samples ++ (e.frozen.erase batch.sequence).values.flatMap (·.samples)) :=
      (Dict.values_erase hbatch).flatMap_right _
    show (e.owned.values : Multiset Sample) =
      (e.waiting : Multiset Sample) +
        ((e.frozen.erase batch.sequence).values.flatMap (·.samples) : Multiset Sample) + batch.samples
    rw [h.places, Engine.frozenSamples, Multiset.coe_eq_coe.mpr hperm, ← Multiset.coe_add,
      Multiset.coe_nil]
    abel
  index := h.index
  back := h.back
  numbered k b hk := by
    have hk : (e.frozen.erase batch.sequence).get? k = some b := hk
    rw [Dict.get?_erase] at hk
    split at hk
    · cases hk
    · exact h.numbered k b hk
  classed k c hk := by
    have hk : (e.classes.erase batch.sequence).get? k = some c := hk
    rw [Dict.get?_erase] at hk
    split at hk
    · cases hk
    · next hne =>
        obtain ⟨b, hb⟩ := h.classed k c hk
        refine ⟨b, ?_⟩
        show (e.frozen.erase batch.sequence).get? k = some b
        rw [Dict.get?_erase, if_neg hne, hb]
  small b hb := h.small b ((Dict.values_erase hbatch).mem_iff.mpr (.tail _ hb))
  count := (List.length_filter_le _ _).trans h.count

/-- The gate moves the new events behind the older ones. -/
theorem Queued.gate {e : Engine} (h : Queued [] e) (watermark : ℤ) :
    Queued [] { e with
      watermark, history := e.history ++ e.queue, queue := []
      classes := .ofItems (e.frozen.items.map fun kv => (kv.1, .history)) } where
  keyed := h.keyed
  places := by
    rw [h.places, Engine.waiting, Engine.waiting]
    show _ = ((([] ++ (e.history ++ e.queue).map Prod.fst : List Sample)) : Multiset Sample) +
      (e.frozenSamples : Multiset Sample) + _
    rw [List.nil_append, List.map_append, Multiset.coe_eq_coe.mpr List.perm_append_comm]
  index := h.index
  back := h.back
  numbered := h.numbered
  classed k c hk := by
    obtain ⟨kv, hkv, he⟩ := List.mem_map.mp (Dict.get?_ofItems hk)
    obtain ⟨rfl, -⟩ := Prod.mk.inj he
    exact ⟨kv.2, Dict.get?_eq_some.mpr hkv⟩
  small := h.small
  count := h.count

/-- An engine that owns nothing. -/
theorem Queued.nothing {e : Engine} (howned : e.owned = .empty) (hqueue : e.queue = [])
    (hhistory : e.history = []) (hfrozen : e.frozen = .empty) (howners : e.owners = .empty)
    (hclasses : e.classes = .empty) : Queued [] e where
  keyed id s hs := by
    rw [howned] at hs
    cases hs
  places := by
    rw [howned, Engine.waiting, hqueue, hhistory, Engine.frozenSamples, hfrozen]
    rfl
  index s hs := by
    rw [howned] at hs
    cases hs
  back group owners hgroup := by
    rw [howners] at hgroup
    cases hgroup
  numbered k batch hk := by
    rw [hfrozen] at hk
    cases hk
  classed k c hk := by
    rw [hclasses] at hk
    cases hk
  small b hb := by
    rw [hfrozen] at hb
    cases hb
  count := by
    rw [hfrozen]
    exact Nat.zero_le _

end PlcnextIot.Reporting
