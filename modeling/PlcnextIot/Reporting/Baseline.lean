/-
  PlcnextIot.Reporting.Baseline

  Against which event `accept` compares a sample.

  The baseline of a point is spread over the newest owned event of its epoch (the
  shadow), the index of owned events by epoch and point, and the newest event of the
  epoch that was handed over.  `Aligned` says what each of them is in terms of the
  events that were admitted and handed over since the boot context was made; it is kept
  as long as no point comes back to an epoch in which it had an event admitted.
-/

import PlcnextIot.Reporting.EngineRuns

namespace PlcnextIot.Reporting

open PlcnextIot.Python PlcnextIot.Config PlcnextIot.Points PlcnextIot.Effect PlcnextIot.Effect.Prog

/-! ## The newest of some samples -/

/-- The newest of the samples with a property, or none where there is no such sample. -/
def Newest (P : Sample → Prop) : Option Sample → Prop
  | none => ∀ s, ¬ P s
  | some s => P s ∧ ∀ t, P t → seqOf t ≤ seqOf s

namespace Newest

variable {P Q : Sample → Prop}

theorem congr {o : Option Sample} (h : Newest P o) (hiff : ∀ s, Q s ↔ P s) : Newest Q o := by
  cases o with
  | none => exact fun s hs => h s ((hiff s).mp hs)
  | some s => exact ⟨(hiff s).mpr h.1, fun t ht => h.2 t ((hiff t).mp ht)⟩

theorem unique {a b : Option Sample} (ha : Newest P a) (hb : Newest P b)
    (hdistinct : ∀ s t, P s → P t → seqOf s = seqOf t → s = t) : a = b := by
  cases a with
  | none =>
      cases b with
      | none => rfl
      | some t => exact absurd hb.1 (ha t)
  | some s =>
      cases b with
      | none => exact absurd ha.1 (hb s)
      | some t =>
          have hle := ha.2 t hb.1
          have hge := hb.2 s ha.1
          rw [hdistinct s t ha.1 hb.1 (le_antisymm hge hle)]

/-- A newer sample joins. -/
theorem join {s : Sample} (hnewer : ∀ t, P t → seqOf t < seqOf s) :
    Newest (fun t => P t ∨ t = s) (some s) := by
  refine ⟨.inr rfl, fun t ht => ?_⟩
  rcases ht with ht | rfl
  · exact (hnewer t ht).le
  · exact le_rfl

theorem of_empty (hnone : ∀ s, ¬ P s) : Newest P none := hnone

end Newest

/-- The baseline is the newer one of the shadow and the event handed over last. -/
theorem baseline_newest {P Q : Sample → Prop} {e : Engine} {key : Key}
    (hshadow : Newest P (e.shadows.get? key)) (hdurable : Newest Q (e.maps.baselines.get? key)) :
    Newest (fun s => P s ∨ Q s) (e.baseline key) := by
  rw [Engine.baseline]
  cases hs : e.shadows.get? key with
  | none =>
      rw [hs] at hshadow
      exact hdurable.congr fun s => ⟨fun h => h.resolve_left (hshadow s), .inr⟩
  | some shadow =>
      rw [hs] at hshadow
      cases hd : e.maps.baselines.get? key with
      | none =>
          rw [hd] at hdurable
          exact hshadow.congr fun s => ⟨fun h => h.resolve_right (hdurable s), .inl⟩
      | some durable =>
          rw [hd] at hdurable
          show Newest _ (some (if seqOf shadow < seqOf durable then durable else shadow))
          by_cases hlt : seqOf shadow < seqOf durable
          · rw [if_pos hlt]
            refine ⟨.inr hdurable.1, fun t ht => ?_⟩
            rcases ht with ht | ht
            · exact (hshadow.2 t ht).trans hlt.le
            · exact hdurable.2 t ht
          · rw [if_neg hlt]
            refine ⟨.inl hshadow.1, fun t ht => ?_⟩
            rcases ht with ht | ht
            · exact hshadow.2 t ht
            · exact (hdurable.2 t ht).trans (not_lt.mp hlt)

/-! ## The invariant -/

/-- The sample is of a point and of the epoch that the maps have for it. -/
def Maps.holds (m : Maps) (key : Key) (s : Sample) : Prop := keyOf s = key ∧ m.within s

/-- What the baselines of the maps are, given what was handed over. -/
def Maps.durable (m : Maps) (handed : List Sample) : Prop :=
  ∀ key, Newest (fun s => s ∈ handed ∧ m.holds key s) (m.baselines.get? key)

/-- The parts of the baseline are what the admitted events and those handed over make
    of them. -/
structure Aligned (admitted handed : List Sample) (e : Engine) : Prop where
  known : ∀ s ∈ admitted, s ∈ e.offered
  owned : ∀ s ∈ e.owned.values, s ∈ admitted
  delivered : ∀ s ∈ handed, s ∈ admitted
  shadow : ∀ key, Newest (fun s => s ∈ e.owned.values ∧ e.maps.holds key s) (e.shadows.get? key)
  durable : e.maps.durable handed
  saved : e.attached = false → ∀ id m, e.checkpoint = some (id, m) → m.durable handed

variable {admitted handed : List Sample}

/-- The baseline of a point is its newest event of the epoch that is owned or was handed
    over. -/
theorem Aligned.baseline {e : Engine} (h : Aligned admitted handed e) (key : Key) :
    Newest (fun s => (s ∈ e.owned.values ∨ s ∈ handed) ∧ e.maps.holds key s) (e.baseline key) :=
  (baseline_newest (h.shadow key) (h.durable key)).congr fun s => by rw [or_and_right]

/-- An engine that owns nothing compares with what was handed over. -/
theorem Aligned.baseline_handed {e : Engine} (h : Aligned admitted handed e) (key : Key)
    (howned : e.owned.items = []) :
    Newest (fun s => s ∈ handed ∧ e.maps.holds key s) (e.baseline key) := by
  refine (h.baseline key).congr fun s => ?_
  have hnone : s ∉ e.owned.values := by
    rw [Dict.values, howned]
    exact List.not_mem_nil
  exact and_congr_left fun _ => ⟨.inr, fun hs => hs.resolve_left hnone⟩

theorem Maps.durable.congr {m m' : Maps} (h : m.durable handed) (hepochs : m'.epochs = m.epochs)
    (hbaselines : m'.baselines = m.baselines) : m'.durable handed := by
  intro key
  rw [hbaselines]
  refine (h key).congr fun s => ?_
  rw [Maps.holds, Maps.within, hepochs]
  rfl

/-- What a call may change without touching the baselines. -/
theorem Aligned.congr {e e' : Engine} (h : Aligned admitted handed e)
    (hoffered : ∀ s ∈ e.offered, s ∈ e'.offered) (howned : e'.owned = e.owned)
    (hshadows : e'.shadows = e.shadows) (hepochs : e'.maps.epochs = e.maps.epochs)
    (hbaselines : e'.maps.baselines = e.maps.baselines) (hattached : e'.attached = e.attached)
    (hcheckpoint : e'.checkpoint = e.checkpoint) : Aligned admitted handed e' where
  known s hs := hoffered s (h.known s hs)
  owned := by
    rw [howned]
    exact h.owned
  delivered := h.delivered
  shadow key := by
    rw [hshadows, howned]
    refine (h.shadow key).congr fun s => ?_
    rw [Maps.holds, Maps.within, hepochs]
    rfl
  durable := h.durable.congr hepochs hbaselines
  saved := by
    rw [hattached, hcheckpoint]
    exact h.saved

/-! ## A sample is listed -/

section Listed

variable (e : Engine) (s : Sample)

theorem listed_maps :
    (e.listed s).maps =
      if e.maps.within s then { e.maps with seen := e.maps.seen.set (keyOf s) (seqOf s) }
      else ({ e.maps with seen := e.maps.seen.set (keyOf s) (seqOf s) } : Maps).enter s := rfl

theorem listed_epochs (key : Key) :
    (e.listed s).maps.epochs.get? key =
      if key = keyOf s then some (epochOf s) else e.maps.epochs.get? key := by
  rw [listed_maps]
  by_cases hwithin : e.maps.within s
  · rw [if_pos hwithin]
    by_cases hkey : key = keyOf s
    · rw [if_pos hkey, hkey]
      exact hwithin
    · rw [if_neg hkey]
  · rw [if_neg hwithin]
    exact Dict.get?_set _ _ _ _

theorem listed_baseline (key : Key) :
    (e.listed s).maps.baselines.get? key =
      if key = keyOf s ∧ ¬ e.maps.within s then none else e.maps.baselines.get? key := by
  rw [listed_maps]
  by_cases hwithin : e.maps.within s
  · rw [if_pos hwithin, if_neg fun h => h.2 hwithin]
  · rw [if_neg hwithin]
    show (e.maps.baselines.erase (keyOf s)).get? key = _
    rw [Dict.get?_erase]
    simp only [hwithin, not_false_eq_true, and_true]

theorem listed_shadow (key : Key) :
    (e.listed s).shadows.get? key =
      if key = keyOf s ∧ ¬ e.maps.within s then none else e.shadows.get? key := by
  show (if e.maps.within s then e.shadows else e.shadows.erase (keyOf s)).get? key = _
  by_cases hwithin : e.maps.within s
  · rw [if_pos hwithin, if_neg fun h => h.2 hwithin]
  · rw [if_neg hwithin, Dict.get?_erase]
    simp only [hwithin, not_false_eq_true, and_true]

/-- With the sample listed, the events of its point that hold are those of its epoch. -/
theorem listed_holds (key : Key) (t : Sample) :
    (e.listed s).maps.holds key t ↔
      if key = keyOf s then keyOf t = keyOf s ∧ epochOf t = epochOf s else e.maps.holds key t := by
  rw [Maps.holds, Maps.within, listed_epochs]
  by_cases hkey : key = keyOf s
  · rw [if_pos hkey, hkey]
    constructor
    · rintro ⟨ht, hepoch⟩
      rw [if_pos ht] at hepoch
      exact ⟨ht, (Option.some.inj hepoch).symm⟩
    · rintro ⟨ht, hepoch⟩
      rw [if_pos ht, hepoch]
      exact ⟨ht, rfl⟩
  · rw [if_neg hkey]
    constructor
    · rintro ⟨ht, hepoch⟩
      rw [if_neg fun he => hkey (ht.symm.trans he)] at hepoch
      exact ⟨ht, hepoch⟩
    · rintro ⟨ht, hepoch⟩
      rw [if_neg fun he => hkey (ht.symm.trans he)]
      exact ⟨ht, hepoch⟩

end Listed

theorem Aligned.listed {e : Engine} {s : Sample} (h : Aligned admitted handed e)
    (hattached : e.attached = true) (honward : Onward admitted e s) :
    Aligned admitted handed (e.listed s) := by
  -- what holds of the point of the sample, where its epoch is entered
  have hnothing : ¬ e.maps.within s → ∀ t ∈ admitted, ¬ (e.listed s).maps.holds (keyOf s) t := by
    intro hnew t ht hholds
    rw [listed_holds, if_pos rfl] at hholds
    exact honward.resolve_left hnew t ht hholds.1 hholds.2
  have hsame : ∀ key t, (e.maps.within s ∨ key ≠ keyOf s) →
      ((e.listed s).maps.holds key t ↔ e.maps.holds key t) := by
    intro key t hwhy
    rw [listed_holds]
    by_cases hkey : key = keyOf s
    · have hwithin := hwhy.resolve_right (not_not.mpr hkey)
      rw [if_pos hkey, hkey, Maps.holds, Maps.within]
      refine and_congr_right fun ht => ?_
      rw [ht, show e.maps.epochs.get? (keyOf s) = some (epochOf s) from hwithin]
      exact ⟨fun he => by rw [he], fun he => (Option.some.inj he).symm⟩
    · rw [if_neg hkey]
  refine ⟨fun t ht => List.mem_append_left _ (h.known t ht), h.owned, h.delivered, fun key => ?_,
    fun key => ?_, fun hno => ?_⟩
  · rw [listed_shadow]
    by_cases hentered : key = keyOf s ∧ ¬ e.maps.within s
    · obtain ⟨rfl, hnew⟩ := hentered
      rw [if_pos ⟨rfl, hnew⟩]
      exact .of_empty fun t ht => hnothing hnew t (h.owned t ht.1) ht.2
    · rw [if_neg hentered]
      exact (h.shadow key).congr fun t => and_congr_right fun _ =>
        hsame key t (by tauto)
  · rw [listed_baseline]
    by_cases hentered : key = keyOf s ∧ ¬ e.maps.within s
    · obtain ⟨rfl, hnew⟩ := hentered
      rw [if_pos ⟨rfl, hnew⟩]
      exact .of_empty fun t ht => hnothing hnew t (h.delivered t ht.1) ht.2
    · rw [if_neg hentered]
      exact (h.durable key).congr fun t => and_congr_right fun _ =>
        hsame key t (by tauto)
  · have hno : e.attached = false := hno
    rw [hattached] at hno
    cases hno

/-- The event is admitted. -/
theorem Aligned.owning {e : Engine} {s : Sample} (h : Aligned admitted handed e)
    (hoffered : s ∈ e.offered) (hwithin : e.maps.within s)
    (hnew : e.owned.get? (identity s) = none) (hnewer : ∀ t ∈ admitted, seqOf t < seqOf s) :
    Aligned (admitted ++ [s]) handed (e.owning s) := by
  have hmem : ∀ t, t ∈ (e.owned.set (identity s) s).values ↔ t ∈ e.owned.values ∨ t = s := by
    intro t
    rw [(Dict.values_set _ _ _).mem_iff, List.mem_cons, Dict.erase_of_none hnew, or_comm]
  refine ⟨fun t ht => ?_, fun t ht => ?_, fun t ht => List.mem_append_left _ (h.delivered t ht),
    fun key => ?_, h.durable, h.saved⟩
  · rcases List.mem_append.mp ht with ht | ht
    · exact h.known t ht
    · rw [List.mem_singleton.mp ht]
      exact hoffered
  · rcases (hmem t).mp ht with ht | rfl
    · exact List.mem_append_left _ (h.owned t ht)
    · exact List.mem_append_right _ (List.mem_singleton_self t)
  · show Newest (fun t => t ∈ (e.owned.set (identity s) s).values ∧ e.maps.holds key t)
      ((e.shadows.set (keyOf s) s).get? key)
    rw [Dict.get?_set]
    by_cases hkey : key = keyOf s
    · rw [if_pos hkey]
      refine (Newest.join (P := fun t => t ∈ e.owned.values ∧ e.maps.holds key t)
        fun t ht => hnewer t (h.owned t ht.1)).congr fun t => ?_
      rw [hmem, or_and_right]
      refine or_congr_right ⟨fun ht => ht.1, fun ht => ⟨ht, ?_⟩⟩
      rw [ht, hkey]
      exact ⟨rfl, hwithin⟩
    · rw [if_neg hkey]
      refine (h.shadow key).congr fun t => ?_
      rw [hmem, or_and_right]
      refine ⟨fun ht => ht.resolve_right ?_, .inl⟩
      rintro ⟨rfl, hholds⟩
      exact hkey hholds.1.symm

/-! ## An event is handed over -/

theorem newestOwner_newest {owners : Dict ℤ Sample}
    (hseq : ∀ seq s, owners.get? seq = some s → seqOf s = seq) :
    Newest (fun s => ∃ seq, owners.get? seq = some s) (newestOwner owners) := by
  rw [newestOwner]
  cases hmax : owners.keys.max? with
  | none =>
      rintro s ⟨seq, hs⟩
      have hmem : seq ∈ owners.keys := by
        by_contra hno
        rw [Dict.get?_eq_none.mpr hno] at hs
        cases hs
      rw [List.max?_eq_none_iff.mp hmax] at hmem
      cases hmem
  | some greatest =>
      obtain ⟨hmem, hall⟩ := List.max?_eq_some_iff.mp hmax
      show Newest _ (owners.get? greatest)
      cases hs : owners.get? greatest with
      | none => exact absurd hmem (Dict.get?_eq_none.mp hs)
      | some s =>
          refine ⟨⟨greatest, hs⟩, ?_⟩
          rintro t ⟨seq, ht⟩
          rw [hseq _ _ hs, hseq _ _ ht]
          refine hall seq ?_
          by_contra hno
          rw [Dict.get?_eq_none.mpr hno] at ht
          cases ht

/-- The index of owned events knows the newest of each point and epoch. -/
theorem Queued.newest {hand : List Sample} {e : Engine} (h : Queued hand e) (group : Epoch × Key) :
    Newest (fun s => s ∈ e.owned.values ∧ (epochOf s, keyOf s) = group)
      ((e.owners.get? group).bind newestOwner) := by
  cases howners : e.owners.get? group with
  | none =>
      rintro s ⟨hs, rfl⟩
      obtain ⟨owners, hget, -⟩ := h.index s hs
      rw [howners] at hget
      cases hget
  | some owners =>
      obtain ⟨-, hall⟩ := h.back group owners howners
      refine (newestOwner_newest fun seq s hs => (hall seq s hs).2.2).congr fun s => ?_
      constructor
      · rintro ⟨hs, rfl⟩
        obtain ⟨owners', hget, hseq⟩ := h.index s hs
        rw [howners] at hget
        obtain rfl := Option.some.inj hget
        exact ⟨_, hseq⟩
      · rintro ⟨seq, hs⟩
        exact ⟨(hall seq s hs).1, (hall seq s hs).2.1⟩

theorem Maps.keep_epochs (m : Maps) (s : Sample) : (m.keep s).epochs = m.epochs := by
  rcases m.keep_cases s with he | he <;> rw [he]

theorem handedOver_shadow (e : Engine) (s : Sample) (key : Key) :
    (e.handedOver s).shadows.get? key =
      if key = keyOf s ∧ e.maps.within s then
        newestOwner (((e.owners.get? (epochOf s, keyOf s)).getD .empty).erase (seqOf s))
      else e.shadows.get? key := by
  show (if (e.maps.keep s).epochs.get? (keyOf s) = some (epochOf s) then _ else e.shadows).get? key = _
  rw [Maps.keep_epochs]
  by_cases hwithin : e.maps.epochs.get? (keyOf s) = some (epochOf s)
  · have hkey : (key = keyOf s ∧ e.maps.within s) ↔ key = keyOf s := and_iff_left hwithin
    rw [if_pos hwithin]
    simp only [hkey]
    cases newestOwner (((e.owners.get? (epochOf s, keyOf s)).getD .empty).erase (seqOf s)) with
    | none => exact Dict.get?_erase _ _ _
    | some newest => exact Dict.get?_set _ _ _ _
  · rw [if_neg hwithin, if_neg fun h => hwithin h.2]

theorem keep_baseline (m : Maps) (s : Sample) (key : Key) :
    (m.keep s).baselines.get? key =
      if key = keyOf s ∧ m.within s ∧
          (m.baselines.get? key).all (fun old => decide (seqOf old < seqOf s)) = true then some s
      else m.baselines.get? key := by
  rw [Maps.keep]
  by_cases hkeep : m.epochs.get? (keyOf s) = some (epochOf s) ∧
      (m.baselines.get? (keyOf s)).all (fun old => decide (seqOf old < seqOf s)) = true
  · rw [if_pos hkeep]
    show (m.baselines.set (keyOf s) s).get? key = _
    rw [Dict.get?_set]
    by_cases hkey : key = keyOf s
    · rw [if_pos hkey, if_pos ⟨hkey, hkey ▸ hkeep⟩]
    · rw [if_neg hkey, if_neg fun h => hkey h.1]
  · rw [if_neg hkeep, if_neg]
    rintro ⟨rfl, h⟩
    exact hkeep h

/-- The durable baselines after one more event was handed over. -/
theorem Maps.durable.keep {m : Maps} (h : m.durable handed) (s : Sample) :
    (m.keep s).durable (handed ++ [s]) := by
  intro key
  have hmem : ∀ t, (t ∈ handed ++ [s] ∧ (m.keep s).holds key t) ↔
      (t ∈ handed ∧ m.holds key t) ∨ (t = s ∧ m.holds key s) := by
    intro t
    rw [Maps.holds, Maps.within, Maps.keep_epochs, List.mem_append, List.mem_singleton, or_and_right]
    refine or_congr Iff.rfl (and_congr_right fun ht => ?_)
    rw [ht]
    rfl
  rw [keep_baseline]
  by_cases hholds : m.holds key s
  · obtain ⟨rfl, hwithin⟩ := hholds
    have hdurable := h (keyOf s)
    cases hold : m.baselines.get? (keyOf s) with
    | none =>
        rw [hold] at hdurable
        rw [if_pos ⟨rfl, hwithin, rfl⟩]
        refine ⟨(hmem s).mpr (.inr ⟨rfl, rfl, hwithin⟩), fun t ht => ?_⟩
        rcases (hmem t).mp ht with ht | ⟨rfl, -⟩
        · exact absurd ht (hdurable t)
        · exact le_rfl
    | some old =>
        rw [hold] at hdurable
        by_cases hnewer : seqOf old < seqOf s
        · rw [if_pos ⟨rfl, hwithin, decide_eq_true hnewer⟩]
          refine ⟨(hmem s).mpr (.inr ⟨rfl, rfl, hwithin⟩), fun t ht => ?_⟩
          rcases (hmem t).mp ht with ht | ⟨rfl, -⟩
          · exact (hdurable.2 t ht).trans hnewer.le
          · exact le_rfl
        · rw [if_neg fun hall => hnewer (of_decide_eq_true hall.2.2)]
          refine ⟨(hmem old).mpr (.inl hdurable.1), fun t ht => ?_⟩
          rcases (hmem t).mp ht with ht | ⟨rfl, -⟩
          · exact hdurable.2 t ht
          · exact not_lt.mp hnewer
  · rw [if_neg fun hall => hholds ⟨hall.1.symm, hall.2.1⟩]
    refine (h key).congr fun t => (hmem t).trans ⟨fun ht => ht.resolve_right ?_, .inl⟩
    exact fun ht => hholds ht.2

theorem Aligned.handedOver {e : Engine} {s : Sample} {hand : List Sample}
    (h : Aligned admitted handed e) (hattached : e.attached = true) (hqueued : Queued (s :: hand) e)
    (hafter : Queued hand (e.handedOver s)) :
    Aligned admitted (handed ++ [s]) (e.handedOver s) := by
  have hs : s ∈ e.owned.values := by
    rw [← Multiset.mem_coe, hqueued.places]
    exact Multiset.mem_add.mpr (.inr (Multiset.mem_coe.mpr List.mem_cons_self))
  have hstays : ∀ t ∈ e.owned.values, t ≠ s → t ∈ (e.owned.erase (identity s)).values := by
    intro t ht hne
    refine Dict.mem_values.mpr ⟨identity t, ?_⟩
    rw [Dict.get?_erase, if_neg, hqueued.owned_get ht]
    intro he
    have hget := hqueued.owned_get ht
    rw [he, hqueued.owned_get hs] at hget
    exact hne (Option.some.inj hget).symm
  have hholds : ∀ key t, (e.handedOver s).maps.holds key t ↔ e.maps.holds key t := by
    intro key t
    show (e.maps.keep s).holds key t ↔ _
    rw [Maps.holds, Maps.within, Maps.keep_epochs]
    rfl
  refine ⟨h.known, fun t ht => h.owned t (mem_values_of_erase ht), fun t ht => ?_, fun key => ?_,
    h.durable.keep s, fun hno => ?_⟩
  · rcases List.mem_append.mp ht with ht | ht
    · exact h.delivered t ht
    · rw [List.mem_singleton.mp ht]
      exact h.owned s hs
  · rw [handedOver_shadow]
    by_cases hpoint : key = keyOf s ∧ e.maps.within s
    -- The point handed over: its shadow is the newest owner that is left.
    · obtain ⟨rfl, hwithin⟩ := hpoint
      rw [if_pos ⟨rfl, hwithin⟩]
      have hnewest := hafter.newest (epochOf s, keyOf s)
      have howners : ((e.handedOver s).owners.get? (epochOf s, keyOf s)).bind newestOwner =
          newestOwner (((e.owners.get? (epochOf s, keyOf s)).getD .empty).erase (seqOf s)) := by
        rw [Engine.handedOver, released_owners]
        by_cases hnil : (((e.owners.get? (epochOf s, keyOf s)).getD .empty).erase (seqOf s)).items = []
        · rw [if_pos hnil, Dict.get?_erase, if_pos rfl, newestOwner, Dict.keys, hnil]
          rfl
        · rw [if_neg hnil, Dict.get?_set_self]
          rfl
      rw [howners] at hnewest
      refine hnewest.congr fun t => and_congr_right fun _ => ?_
      rw [hholds, Maps.holds, Maps.within]
      constructor
      · rintro ⟨ht, hepoch⟩
        rw [ht, show e.maps.epochs.get? (keyOf s) = some (epochOf s) from hwithin] at hepoch
        rw [ht, Option.some.inj hepoch]
      · intro hgroup
        obtain ⟨hepoch, ht⟩ := Prod.mk.inj hgroup
        rw [ht, hepoch]
        exact ⟨rfl, hwithin⟩
    · rw [if_neg hpoint]
      refine (h.shadow key).congr fun t => ?_
      rw [hholds]
      constructor
      · exact fun ht => ⟨mem_values_of_erase ht.1, ht.2⟩
      -- At another point, or outside the epoch, no sample of the shadow goes.
      · refine fun ht => ⟨hstays t ht.1 ?_, ht.2⟩
        rintro rfl
        exact hpoint ⟨ht.2.1.symm, ht.2.2⟩
  · have hno : e.attached = false := hno
    rw [hattached] at hno
    cases hno

/-! ## The calls -/

section Calls

variable [EventCharge]

/-- What a sample that was accepted, or not, has done to the baselines. -/
def Admits (admitted handed : List Sample) (e e' : Engine) (new : List Sample) : Prop :=
  e'.admitted = e.admitted ++ new ∧ e'.handed = e.handed ∧
    Aligned (admitted ++ new) handed e' ∧
    ∀ t, t ∈ e'.owned.values ↔ t ∈ e.owned.values ∨ t ∈ new

omit [EventCharge] in
theorem Admits.nothing {e e' : Engine} (h : Aligned admitted handed e')
    (hadmitted : e'.admitted = e.admitted) (hhanded : e'.handed = e.handed)
    (howned : e'.owned = e.owned) : Admits admitted handed e e' [] := by
  refine ⟨by rw [hadmitted, List.append_nil], hhanded, by rwa [List.append_nil], fun t => ?_⟩
  rw [howned]
  exact (or_iff_left List.not_mem_nil).symm

/-- `accept` keeps the baselines aligned, whatever becomes of the sample. -/
theorem Accepts.aligned [FloatArith] [Footprint] {e e' : Engine} {s : Sample}
    {r : Except EngineExc Bool} (ha : Accepts e s r e') (h : Aligned admitted handed e)
    (hsound : Sound e) (hfresh : ∀ t ∈ e.offered, seqOf t < seqOf s)
    (honward : Current e s → Onward admitted e s) :
    Admits admitted handed e e' [] ∨ Current e s ∧ Admits admitted handed e e' [s] := by
  have hmore : ∀ t ∈ e.offered, t ∈ e.offered ++ [s] := fun t ht => List.mem_append_left _ ht
  cases ha with
  | foreign => exact .inl (.nothing (h.congr hmore rfl rfl rfl rfl rfl rfl) rfl rfl rfl)
  | seen => exact .inl (.nothing (h.congr hmore rfl rfl rfl rfl rfl rfl) rfl rfl rfl)
  | unidentified => exact .inl (.nothing (h.congr hmore rfl rfl rfl rfl rfl rfl) rfl rfl rfl)
  | failed hcurrent =>
      have hattached := Bool.eq_true_of_not_eq_false (hcurrent.attached hsound.recorded)
      have hlisted := h.listed hattached (honward hcurrent)
      exact .inl (.nothing (hlisted.congr (fun _ ht => ht) rfl rfl rfl rfl rfl rfl) rfl rfl rfl)
  | @concluded latest refs usedBytes p selected changed served answer e₁ _ hcurrent _ _ hselects
      hconcludes =>
      have hattached := Bool.eq_true_of_not_eq_false (hcurrent.attached hsound.recorded)
      have hlisted := h.listed hattached (honward hcurrent)
      obtain ⟨maps, missed, accounting, rfl, hbaselines, hepochs, -⟩ := hselects.cyclic.beside
      have hselected : Aligned admitted handed ({ e.listed s with
          latest, refs, usedBytes, maps, missedReportSlots := missed, accounting } : Engine) :=
        hlisted.congr (fun _ ht => ht) rfl rfl hepochs hbaselines rfl rfl
      cases answer with
      | false =>
          obtain ⟨_, _, _, _, _, _, rfl⟩ := hconcludes.counts
          exact .inl (.nothing (hselected.congr (fun _ ht => ht) rfl rfl rfl rfl rfl rfl) rfl rfl rfl)
      | true =>
          cases hconcludes with
          | @admitted refs' usedBytes' =>
              refine .inr ⟨hcurrent, rfl, rfl, ?_, fun t => ?_⟩
              · have hwithin : maps.within s := by
                  rw [Maps.within, hepochs]
                  exact (listed_epochs e s (keyOf s)).trans (if_pos rfl)
                have heligible := hselected.congr
                  (fun _ ht => ht) rfl rfl rfl rfl rfl rfl
                have howns := heligible.owning (s := s)
                  (List.mem_append_right _ (List.mem_singleton_self s)) hwithin
                  (hsound.unowned hfresh) fun t ht => hfresh t (h.known t ht)
                exact howns.congr (fun _ ht => ht) rfl rfl rfl rfl rfl rfl
              · show t ∈ (e.owned.set (identity s) s).values ↔ _
                rw [(Dict.values_set _ _ _).mem_iff, List.mem_cons,
                  Dict.erase_of_none (hsound.unowned hfresh), or_comm, List.mem_singleton]

/-- What freezing batches may change. -/
def Shelves (e e' : Engine) : Prop :=
  ∃ sequence batchIds frozen accounting classes usedBytes preferNew queue history nextBatch,
    e' = { e with
      sequence, batchIds, frozen, accounting, classes, usedBytes, preferNew, queue, history,
      nextBatch }

theorem prepare_shelves [Footprint] (inp : EngineInputs) (now : ℚ) (wallMs : ℤ) (force : Bool)
    {e : Engine} (h : Sound e) :
    wp (prepare inp now wallMs force) (fun _ e' => Sound e' ∧ Shelves e e')
      (fun err e' => err ≠ .key ∧ ((∃ text, err = .runtime text) ∨ Sound e' ∧ Shelves e e')) e := by
  refine (prepare_rule (J := fun e' _ => Shelves e e') inp now wallMs force ?_ ?_ h
    ⟨_, _, _, _, _, _, _, _, _, _, rfl⟩).mono ?_ ?_
  · rintro - - ⟨_, _, _, _, _, _, _, _, _, _, rfl⟩
    exact ⟨_, _, _, _, _, _, _, _, _, _, rfl⟩
  · rintro - - batch c taken rest - ⟨_, _, _, _, _, _, _, _, _, _, rfl⟩ -
    obtain ⟨_, _, he⟩ := freeze_rest _ c batch _ rest
    rw [he]
    exact ⟨_, _, _, _, _, _, _, _, _, _, rfl⟩
  · rintro batches e' ⟨h', hsame⟩
    split at hsame
    · rw [hsame.2] at h' ⊢
      exact ⟨h', _, _, _, _, _, _, _, _, _, _, rfl⟩
    · exact ⟨h', hsame.1⟩
  · rintro err e' ⟨herr, hcause⟩
    refine ⟨herr, hcause.imp id ?_⟩
    rintro ⟨-, h'⟩
    exact h'

omit [EventCharge] in
theorem Shelves.aligned {e e' : Engine} (hshelves : Shelves e e')
    (h : Aligned admitted handed e) : Aligned admitted handed e' := by
  obtain ⟨_, _, _, _, _, _, _, _, _, _, rfl⟩ := hshelves
  exact h.congr (fun _ ht => ht) rfl rfl rfl rfl rfl rfl

/-- What handing a batch over may change. -/
def Delivers (e e' : Engine) : Prop :=
  ∃ baselines frozen classes usedBytes handed refs owned owners shadows, e' = { e with
    maps := { e.maps with baselines }
    frozen, classes, usedBytes, handed, refs, owned, owners, shadows }

omit [EventCharge] in
theorem Delivers.next {e e' : Engine} (h : Delivers e e') (s : Sample)
    (refs : Dict Identity (Sample × ℤ)) (usedBytes : ℤ) :
    Delivers e { e'.handedOver s with refs, usedBytes } := by
  obtain ⟨baselines, frozen, classes, _, handed, _, owned, owners, shadows, he'⟩ := h
  obtain ⟨kept, hkept⟩ : ∃ kept,
      ({ e.maps with baselines } : Maps).keep s = { e.maps with baselines := kept } := by
    rcases Maps.keep_cases { e.maps with baselines } s with he | he
    · exact ⟨baselines, he⟩
    · exact ⟨_, he⟩
  refine ⟨kept, frozen, classes, usedBytes, handed, refs, (e'.handedOver s).owned,
    (e'.handedOver s).owners, (e'.handedOver s).shadows, ?_⟩
  rw [← hkept, he']
  rfl

/-- A committed batch: its events are handed over, and the baselines know it. -/
structure HandsOver (admitted handed : List Sample) (e : Engine) (batch : ReportBatch)
    (e' : Engine) : Prop where
  aligned : Aligned admitted (handed ++ batch.samples) e'
  batches : e'.handed = e.handed ++ [batch]
  together : ∀ t, (t ∈ e'.owned.values ∨ t ∈ handed ++ batch.samples) ↔
    (t ∈ e.owned.values ∨ t ∈ handed)
  rest : Delivers e e'

theorem committed_aligned (batch : ReportBatch) {e : Engine} (hsound : Sound e)
    (h : Aligned admitted handed e) :
    wp (committed batch)
      (fun _ e' => Sound e' ∧
        if e.frozen.get? batch.sequence = some batch then HandsOver admitted handed e batch e'
        else e' = e) (fun _ _ => False) e := by
  refine (committed_rule batch (J := fun hand e' => ∃ done, batch.samples = done ++ hand ∧
      Aligned admitted (handed ++ done) e' ∧ e'.handed = e.handed ++ [batch] ∧
      (∀ t, (t ∈ e'.owned.values ∨ t ∈ handed ++ done) ↔ (t ∈ e.owned.values ∨ t ∈ handed)) ∧
      Delivers e e') ?_ hsound ?_).mono ?_ fun _ _ hf => hf
  · rintro e₁ s hand refs usedBytes hbefore ⟨done, hdone, haligned, hbatches, htogether, hrest⟩ hafter
    have hs : s ∈ e₁.owned.values := by
      rw [← Multiset.mem_coe, hbefore.queued.places]
      exact Multiset.mem_add.mpr (.inr (Multiset.mem_coe.mpr List.mem_cons_self))
    have hattached : e₁.attached = true := by
      cases hno : e₁.attached with
      | true => rfl
      | false =>
          rw [(hbefore.recorded.detached hno).owned] at hs
          cases hs
    have hover := haligned.handedOver hattached hbefore.queued
      (hafter.queued.congr rfl rfl rfl rfl rfl rfl le_rfl)
    refine ⟨done ++ [s], by rw [hdone, List.append_assoc]; rfl, ?_, hbatches, fun t => ?_,
      hrest.next s refs usedBytes⟩
    · rw [← List.append_assoc]
      exact hover.congr (fun _ ht => ht) rfl rfl rfl rfl rfl rfl
    · -- the event goes from the owned ones to those handed over
      rw [← htogether t, ← List.append_assoc, List.mem_append (s := handed ++ done),
        List.mem_singleton]
      constructor
      · rintro (ht | ht | rfl)
        · exact .inl (mem_values_of_erase ht)
        · exact .inr ht
        · exact .inl hs
      · rintro (ht | ht)
        · by_cases hts : t = s
          · exact .inr (.inr hts)
          · refine .inl (Dict.mem_values.mpr ⟨identity t, ?_⟩)
            show (e₁.owned.erase (identity s)).get? (identity t) = some t
            rw [Dict.get?_erase, if_neg, hbefore.queued.owned_get ht]
            intro he
            have hget := hbefore.queued.owned_get ht
            rw [he, hbefore.queued.owned_get hs] at hget
            exact hts (Option.some.inj hget).symm
        · exact .inr (.inl ht)
  · refine fun _ => ⟨[], rfl, ?_, rfl, fun t => ?_, ?_⟩
    · rw [List.append_nil]
      exact h.congr (fun _ ht => ht) rfl rfl rfl rfl rfl rfl
    · rw [List.append_nil]
      rfl
    · exact ⟨_, _, _, _, _, _, _, _, _, rfl⟩
  · rintro - e' ⟨h', hsame⟩
    refine ⟨h', ?_⟩
    split at hsame
    · next hbatch =>
        rw [if_pos hbatch]
        obtain ⟨done, hdone, haligned, hbatches, htogether, hrest⟩ := hsame
        rw [List.append_nil] at hdone
        rw [← hdone] at haligned htogether
        exact ⟨haligned, hbatches, htogether, hrest⟩
    · next hother => rwa [if_neg hother]

/-- A new configuration has no baselines, or those that the engine before it has left. -/
theorem Aligned.configured {e : Engine} {snapshot : Option ConfigSnapshot} {generation : Option ℤ}
    (h : Aligned admitted handed e) (now : ℚ) (hrecorded : Recorded e)
    (hnew : ¬ (snapshot = e.snapshot ∧ generation = e.generation)) :
    Aligned admitted handed (e.configured snapshot now generation) := by
  have hshadow : ∀ key t, t ∈ e.owned.values →
      ¬ (e.resume (snapshot, generation)).holds key t := by
    rintro key t ht ⟨-, hwithin⟩
    rcases resume_cases hrecorded hnew with he | ⟨hno, -⟩
    · rw [Maps.within, he] at hwithin
      cases hwithin
    · rw [(hrecorded.detached hno).owned] at ht
      cases ht
  refine ⟨h.known, h.owned, h.delivered, fun key => ?_, ?_, fun hno => Bool.noConfusion hno⟩
  · exact .of_empty fun t ht => hshadow key t ht.1 ht.2
  · show (e.resume (snapshot, generation)).durable handed
    rcases resume_cases hrecorded hnew with he | ⟨hno, hsaved⟩
    · rw [he]
      exact fun key => .of_empty fun t ht => by cases ht.2.2
    · exact h.saved hno _ _ hsaved

end Calls

end PlcnextIot.Reporting
