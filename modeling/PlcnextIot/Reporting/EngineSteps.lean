/-
  PlcnextIot.Reporting.EngineSteps

  What each part of `ReportEngine` does to its state.

  The reference counts are treated apart: `Booked e M` says that they count the
  samples of the multiset `M`, and that the used bytes are the charge of these and of
  the frozen batches.  A part that takes or gives up references is specified by what
  it does to `M`; the rest of the state it leaves is written out.
-/

import PlcnextIot.Reporting.Engine
import PlcnextIot.Python.RefCounts

namespace PlcnextIot.Reporting

open PlcnextIot.Python PlcnextIot.Config PlcnextIot.Points PlcnextIot.Effect PlcnextIot.Effect.Prog

/-! ## References -/

/-- The samples that the ownership map, the latest view and the baselines hold. -/
def Engine.held (e : Engine) : Multiset Sample :=
  (e.owned.values : Multiset Sample) + (e.latest.values : Multiset Sample) +
    (e.maps.baselines.values : Multiset Sample)

/-- The charges of the frozen batches. -/
def Engine.frozenCharge (e : Engine) : ℤ := (e.frozen.values.map batchCharge).sum

variable [EventCharge]

structure Booked (e : Engine) (held : Multiset Sample) : Prop where
  counted : Counted identity e.refs held
  used : e.usedBytes = weight eventCharge held + e.frozenCharge

theorem forget_spec {e : Engine} {s : Sample} {held : Multiset Sample}
    (h : Booked e (s ::ₘ held)) :
    wp (forget s)
      (fun _ e' => ∃ refs usedBytes, e' = { e with refs, usedBytes } ∧ Booked e' held)
      (fun _ _ => False) e := by
  rw [forget, wp_bind, wp_get, h.counted.get?_cons]
  show wp (if (Multiset.count s held : ℤ) + 1 - 1 = 0 then _ else _) _ _ e
  rw [wp_ite]
  refine ⟨fun hzero => ?_, fun hmore => ?_⟩
  · have hlast : s ∉ held := by
      rw [← Multiset.count_eq_zero]
      omega
    refine ⟨_, _, rfl, h.counted.forget_last hlast, ?_⟩
    have hused := h.used
    rw [weight_cons_of_notMem hlast] at hused
    show e.usedBytes - eventCharge s = weight eventCharge held + e.frozenCharge
    omega
  · have hmem : s ∈ held := by
      rw [← Multiset.count_ne_zero]
      omega
    refine ⟨_, _, rfl, ?_, ?_⟩
    · have hone := h.counted.forget_one hmem
      rwa [← add_sub_cancel_right (Multiset.count s held : ℤ) 1] at hone
    · rw [← weight_cons_of_mem hmem]
      exact h.used

theorem retain_spec {e : Engine} {s : Sample} {held : Multiset Sample} (h : Booked e held)
    (hkey : ∀ t ∈ held, identity t = identity s → t = s) :
    wp (retain s)
      (fun _ e' => ∃ refs usedBytes, e' = { e with refs, usedBytes } ∧ Booked e' (s ::ₘ held))
      (fun _ _ => False) e := by
  rw [retain, wp_modify]
  have hretain := h.counted.retain hkey
  by_cases hs : s ∈ held
  · rw [h.counted.entry s hs]
    refine ⟨_, _, rfl, hretain, ?_⟩
    rw [weight_cons_of_mem hs]
    exact h.used
  · rw [h.counted.get?_of_notMem hs hkey]
    rw [Multiset.count_eq_zero.mpr hs] at hretain
    refine ⟨_, _, rfl, hretain, ?_⟩
    rw [weight_cons_of_notMem hs]
    have hused := h.used
    show e.usedBytes + eventCharge s = eventCharge s + weight eventCharge held + e.frozenCharge
    omega

/-- Every sample of a list is given up. -/
theorem each_forget {e : Engine} {xs : List Sample} {held : Multiset Sample}
    (h : Booked e ((xs : Multiset Sample) + held)) :
    wp (each xs forget)
      (fun _ e' => ∃ refs usedBytes, e' = { e with refs, usedBytes } ∧ Booked e' held)
      (fun _ _ => False) e := by
  induction xs generalizing e with
  | nil =>
      rw [Multiset.coe_nil, zero_add] at h
      exact ⟨e.refs, e.usedBytes, rfl, h⟩
  | cons s rest ih =>
      rw [each, wp_bind]
      rw [← Multiset.cons_coe, Multiset.cons_add] at h
      refine (forget_spec h).mono ?_ fun _ _ hf => hf
      rintro - e₁ ⟨refs, usedBytes, rfl, h₁⟩
      refine (ih h₁).mono ?_ fun _ _ hf => hf
      rintro - e₂ ⟨refs', usedBytes', rfl, h₂⟩
      exact ⟨refs', usedBytes', rfl, h₂⟩

/-- Every sample of a list is held once more. -/
theorem each_retain {e : Engine} {xs : List Sample} {held : Multiset Sample} (h : Booked e held)
    (hkey : ∀ s ∈ (xs : Multiset Sample) + held, ∀ t ∈ (xs : Multiset Sample) + held,
      identity t = identity s → t = s) :
    wp (each xs retain)
      (fun _ e' => ∃ refs usedBytes, e' = { e with refs, usedBytes } ∧
        Booked e' ((xs : Multiset Sample) + held))
      (fun _ _ => False) e := by
  induction xs generalizing e held with
  | nil =>
      refine ⟨e.refs, e.usedBytes, rfl, ?_⟩
      rw [Multiset.coe_nil, zero_add]
      exact h
  | cons s rest ih =>
      have hperm : ((s :: rest : List Sample) : Multiset Sample) + held =
          (rest : Multiset Sample) + (s ::ₘ held) := by
        rw [← Multiset.cons_coe, Multiset.cons_add, Multiset.add_cons]
      rw [hperm] at hkey ⊢
      have hs : s ∈ (rest : Multiset Sample) + (s ::ₘ held) :=
        Multiset.mem_add.mpr (.inr (Multiset.mem_cons_self s held))
      rw [each, wp_bind]
      refine (retain_spec h fun t ht => hkey s hs t (Multiset.mem_add.mpr
        (.inr (Multiset.mem_cons_of_mem ht)))).mono ?_ fun _ _ hf => hf
      rintro - e₁ ⟨refs, usedBytes, rfl, h₁⟩
      refine (ih h₁ hkey).mono ?_ fun _ _ hf => hf
      rintro - e₂ ⟨refs', usedBytes', rfl, h₂⟩
      exact ⟨refs', usedBytes', rfl, h₂⟩

omit [EventCharge] in
theorem coe_values_set {κ : Type} [DecidableEq κ] (d : Dict κ Sample) (key : κ) (s : Sample) :
    ((d.set key s).values : Multiset Sample) = s ::ₘ ((d.erase key).values : Multiset Sample) :=
  Multiset.coe_eq_coe.mpr (Dict.values_set d key s)

/-- The sample that a map had for a key is given up. -/
theorem forgetOld_spec {κ : Type} [DecidableEq κ] {e : Engine} {d : Dict κ Sample} {key : κ}
    {held : Multiset Sample} (h : Booked e ((d.values : Multiset Sample) + held)) :
    wp (forgetOld (d.get? key))
      (fun _ e' => ∃ refs usedBytes, e' = { e with refs, usedBytes } ∧
        Booked e' (((d.erase key).values : Multiset Sample) + held))
      (fun _ _ => False) e := by
  cases hold : d.get? key with
  | none =>
      rw [Dict.erase_of_none hold]
      exact ⟨e.refs, e.usedBytes, rfl, h⟩
  | some old =>
      rw [Multiset.coe_eq_coe.mpr (Dict.values_erase hold), ← Multiset.cons_coe,
        Multiset.cons_add] at h
      exact forget_spec h

/-! ## `accept` -/

/-- The maps with the epoch of a sample entered. -/
def Maps.enter (m : Maps) (s : Sample) : Maps :=
  { m with
    epochs := m.epochs.set (keyOf s) (epochOf s)
    baselines := m.baselines.erase (keyOf s)
    nextDue := m.nextDue.set (keyOf s) (s.nominalOriginMonoMs.getD 0)
    grids := Function.update m.grids (keyOf s) ⟨s.nominalOriginMonoMs.getD 0, []⟩ }

/-- The point's epoch is that of the sample. -/
def Maps.within (m : Maps) (s : Sample) : Prop := m.epochs.get? (keyOf s) = some (epochOf s)

instance (m : Maps) (s : Sample) : Decidable (m.within s) :=
  inferInstanceAs (Decidable (_ = _))

/-- The engine with the epoch of a sample entered. -/
def Engine.entered (e : Engine) (s : Sample) : Engine :=
  { e with
    maps := if e.maps.within s then e.maps else e.maps.enter s
    shadows := if e.maps.within s then e.shadows else e.shadows.erase (keyOf s) }

omit [EventCharge] in
theorem entered_maps (e : Engine) (s : Sample) :
    (e.entered s).maps = if e.maps.within s then e.maps else e.maps.enter s := rfl

theorem enterEpoch_spec {e : Engine} (s : Sample) (h : Booked e e.held) :
    wp (enterEpoch s)
      (fun _ e' => ∃ refs usedBytes, e' = { e.entered s with refs, usedBytes } ∧ Booked e' e'.held)
      (fun _ _ => False) e := by
  rw [enterEpoch, wp_bind, wp_get, wp_ite, Engine.entered]
  refine ⟨fun (hsame : e.maps.within s) => ?_, fun (hnew : ¬ e.maps.within s) => ?_⟩
  · rw [if_pos hsame, if_pos hsame]
    exact ⟨e.refs, e.usedBytes, rfl, h⟩
  · rw [if_neg hnew, if_neg hnew]
    rw [wp_bind, wp_modify, wp_bind]
    have h₁ : Booked (e.setMaps fun m => { m with
        epochs := m.epochs.set (keyOf s) (epochOf s), baselines := m.baselines.erase (keyOf s) })
        ((e.maps.baselines.values : Multiset Sample) + ((e.owned.values : Multiset Sample) +
          (e.latest.values : Multiset Sample))) := by
      rw [add_comm]
      exact ⟨h.counted, h.used⟩
    refine (forgetOld_spec h₁).mono ?_ fun _ _ hf => hf
    rintro - e' ⟨refs, usedBytes, rfl, h'⟩
    rw [add_comm] at h'
    exact ⟨refs, usedBytes, rfl, h'.counted, h'.used⟩

/-- What admission leaves free, and the limit itself. -/
structure Fits (e : Engine) : Prop where
  events : weight eventCharge e.held ≤ e.maxBytes - e.reserve
  used : e.usedBytes ≤ e.maxBytes

omit [EventCharge] in
theorem batchCharge_pos (b : ReportBatch) : 0 < batchCharge b := by
  rw [batchCharge]
  omega

omit [EventCharge] in
theorem frozenCharge_nonneg (e : Engine) : 0 ≤ e.frozenCharge := by
  refine List.sum_nonneg fun c hc => ?_
  obtain ⟨b, -, rfl⟩ := List.mem_map.mp hc
  exact (batchCharge_pos b).le

omit [EventCharge] in
theorem reserve_nonneg (e : Engine) : 0 ≤ e.reserve := by
  rw [Engine.reserve]
  omega

/-- Holding no other samples than before. -/
theorem Fits.mono {e e' : Engine} (h : Fits e) (hb : Booked e e.held) (hb' : Booked e' e'.held)
    (hheld : e'.held ⊆ e.held) (hmax : e'.maxBytes = e.maxBytes) (hfrozen : e'.frozen = e.frozen) :
    Fits e' := by
  have hweight : weight eventCharge e'.held ≤ weight eventCharge e.held := weight_mono hheld
  have hreserve : e'.reserve = e.reserve := by rw [Engine.reserve, hmax, Engine.reserve]
  have hcharge : e'.frozenCharge = e.frozenCharge := by
    rw [Engine.frozenCharge, hfrozen, Engine.frozenCharge]
  refine ⟨?_, ?_⟩
  · rw [hmax, hreserve]
    exact hweight.trans h.events
  · rw [hb'.used, hmax, hcharge]
    have hused := h.used
    rw [hb.used] at hused
    omega

/-- Room below the reserve is room for the samples. -/
theorem Booked.fits {e : Engine} (h : Booked e e.held) (hroom : e.usedBytes ≤ e.maxBytes - e.reserve) :
    Fits e := by
  have hused := h.used
  have hfrozen := frozenCharge_nonneg e
  have hreserve := reserve_nonneg e
  exact ⟨by omega, by omega⟩

omit [EventCharge] in
theorem mem_values_of_erase {κ : Type} [DecidableEq κ] {d : Dict κ Sample} {key : κ} {t : Sample}
    (h : t ∈ (d.erase key).values) : t ∈ d.values := by
  obtain ⟨k, hk⟩ := Dict.mem_values.mp h
  rw [Dict.get?_erase] at hk
  split at hk
  · cases hk
  · exact Dict.mem_values.mpr ⟨k, hk⟩

/-- The latest view takes a sample when there is room for it. -/
theorem showLatest_spec {e : Engine} {s : Sample} (h : Booked e e.held) (hfits : Fits e)
    (hkey : ∀ t ∈ e.held, identity t = identity s → t = s) :
    wp (showLatest s)
      (fun _ e' => ∃ latest refs usedBytes, e' = { e with latest, refs, usedBytes } ∧
        Booked e' e'.held ∧ Fits e' ∧ ∀ t ∈ latest.values, t = s ∨ t ∈ e.latest.values)
      (fun _ _ => False) e := by
  -- The old view goes first, whether or not there is room for the new one.
  have hsub : ({ e with latest := e.latest.erase (keyOf s) } : Engine).held ⊆ e.held := by
    intro t ht
    simp only [Engine.held, Multiset.mem_add, Multiset.mem_coe] at ht ⊢
    rcases ht with (ht | ht) | ht
    · exact .inl (.inl ht)
    · exact .inl (.inr (mem_values_of_erase ht))
    · exact .inr ht
  rw [showLatest, wp_bind, wp_get, wp_bind, wp_modify, wp_bind]
  have h₁ : Booked { e with latest := e.latest.erase (keyOf s) }
      ((e.latest.values : Multiset Sample) + ((e.owned.values : Multiset Sample) +
        (e.maps.baselines.values : Multiset Sample))) := by
    rw [add_left_comm, ← add_assoc]
    exact ⟨h.counted, h.used⟩
  refine (forgetOld_spec h₁).mono ?_ fun _ _ hf => hf
  rintro - e₁ ⟨refs, usedBytes, rfl, h₂⟩
  rw [add_left_comm, ← add_assoc] at h₂
  have hdropped := hfits.mono h
    ⟨h₂.counted, h₂.used⟩ hsub rfl rfl
  rw [wp_bind, wp_get, wp_ite]
  refine ⟨fun hroom => ?_, fun _ => ?_⟩
  · rw [wp_bind, wp_modify]
    have h₃ : Booked { e with latest := (e.latest.erase (keyOf s)).set (keyOf s) s, refs, usedBytes }
        ({ e with latest := e.latest.erase (keyOf s) } : Engine).held := ⟨h₂.counted, h₂.used⟩
    refine (retain_spec h₃ fun t ht => hkey t (hsub ht)).mono ?_ fun _ _ hf => hf
    rintro - e₂ ⟨refs', usedBytes', rfl, h₄⟩
    have herased : (e.latest.erase (keyOf s)).erase (keyOf s) = e.latest.erase (keyOf s) :=
      Dict.erase_of_none (by rw [Dict.get?_erase, if_pos rfl])
    have hheld : ({ e with latest := (e.latest.erase (keyOf s)).set (keyOf s) s } : Engine).held =
        s ::ₘ ({ e with latest := e.latest.erase (keyOf s) } : Engine).held := by
      show (e.owned.values : Multiset Sample) +
        (((e.latest.erase (keyOf s)).set (keyOf s) s).values : Multiset Sample) + _ = _
      rw [coe_values_set, herased, Multiset.add_cons, Multiset.cons_add]
      rfl
    rw [← hheld] at h₄
    -- The reference charges the sample once at most.
    have hroom' : usedBytes' ≤ e.maxBytes - e.reserve := by
      have hused : usedBytes' = weight eventCharge _ + e.frozenCharge := h₄.used
      have hused₁ : usedBytes = weight eventCharge _ + e.frozenCharge := h₂.used
      have hle : weight eventCharge
            (s ::ₘ ({ e with latest := e.latest.erase (keyOf s) } : Engine).held) ≤
          eventCharge s + weight eventCharge
            ({ e with latest := e.latest.erase (keyOf s) } : Engine).held :=
        weight_cons_le
      have hbelow : usedBytes + eventCharge s ≤ e.maxBytes - e.reserve := hroom
      rw [hheld] at hused
      have hsame : weight eventCharge ({ e with latest := e.latest.erase (keyOf s) } : Engine).held +
          e.frozenCharge = usedBytes := hused₁.symm
      omega
    refine ⟨_, refs', usedBytes', rfl, ⟨h₄.counted, h₄.used⟩,
      Booked.fits ⟨h₄.counted, h₄.used⟩ hroom', fun t ht => ?_⟩
    obtain ⟨k, hk⟩ := Dict.mem_values.mp ht
    rw [Dict.get?_set] at hk
    split at hk
    · exact .inl (Option.some.inj hk).symm
    · exact .inr (mem_values_of_erase (Dict.mem_values.mpr ⟨k, hk⟩))
  · exact ⟨_, refs, usedBytes, rfl, ⟨h₂.counted, h₂.used⟩, hdropped,
      fun t ht => .inr (mem_values_of_erase ht)⟩

/-! ### The selection -/

/-- The report slots up to that of `q` are consumed. -/
def Engine.chargeSlot (e : Engine) (s : Sample) (p : PointConfig) (q due : ℤ) : Engine :=
  let missed := Int.fdiv (q - due) p.reportIntervalMs
  { e with
    missedReportSlots := e.missedReportSlots + missed
    accounting := e.accounting.add .missedReportSlots missed
    maps := { e.maps with
      nextDue := e.maps.nextDue.set (keyOf s) (due + (missed + 1) * p.reportIntervalMs)
      grids := Function.update e.maps.grids (keyOf s) { e.maps.grids (keyOf s) with
        charges := (e.maps.grids (keyOf s)).charges ++
          [⟨q, due + missed * p.reportIntervalMs, missed⟩] } } }

/-- What the cyclic rule says of a sample of a point whose next report slot is `due`: how
    many slots it counts as missed, and whether the sample serves one. -/
def slotRule (s : Sample) (p : PointConfig) (due : ℤ) : ℤ × Except EngineExc Bool :=
  if p.reportMode ≠ py "change" ∧ s.kind = .physicalResult then
    match s.nominalPollDueMonoMs with
    | none => (0, .error (.value "Invalid physical slot"))
    | some q =>
      if q ≤ s.completedMonoMs.getD 0 then
        if due ≤ q then
          if p.reportIntervalMs = 0 then (0, .error .zeroDivision)
          else (Int.fdiv (q - due) p.reportIntervalMs,
            if 0 ≤ Int.fdiv (q - due) p.reportIntervalMs then .ok true
            else .error (.value "Counter increment must be a nonnegative integer"))
        else (0, .ok false)
      else (0, .error (.value "Invalid physical slot"))
  else (0, .ok false)

/-- What the cyclic rule makes of a sample. -/
inductive Serves (e : Engine) (s : Sample) (p : PointConfig) : Bool → Engine → Prop
  | rule (h : p.reportMode = py "change" ∨ s.kind ≠ .physicalResult) : Serves e s p false e
  | early {q due : ℤ} (hmode : p.reportMode ≠ py "change") (hkind : s.kind = .physicalResult)
      (hq : s.nominalPollDueMonoMs = some q) (hdue : e.maps.nextDue.get? (keyOf s) = some due)
      (hlt : q < due) : Serves e s p false e
  | due {q due : ℤ} (hmode : p.reportMode ≠ py "change") (hkind : s.kind = .physicalResult)
      (hq : s.nominalPollDueMonoMs = some q) (hdue : e.maps.nextDue.get? (keyOf s) = some due)
      (hle : due ≤ q) (hnonneg : 0 ≤ Int.fdiv (q - due) p.reportIntervalMs)
      (hinterval : p.reportIntervalMs ≠ 0) : Serves e s p true (e.chargeSlot s p q due)

omit [EventCharge] in
theorem serveSlot_spec {e : Engine} {due : ℤ} (s : Sample) (p : PointConfig)
    (hdue : e.maps.nextDue.get? (keyOf s) = some due) :
    wp (serveSlot s p)
      (fun served e' => Serves e s p served e' ∧
        slotRule s p due = (e'.missedReportSlots - e.missedReportSlots, .ok served))
      (fun err e' => err ≠ .key ∧ ∃ missed, slotRule s p due = (missed, .error err) ∧
        e' = { e with missedReportSlots := e.missedReportSlots + missed }) e := by
  have hkeep : e = { e with missedReportSlots := e.missedReportSlots + 0 } := by rw [add_zero]
  rw [serveSlot, wp_ite, slotRule]
  refine ⟨fun hcyclic => ?_, fun h => ⟨.rule ?_, ?_⟩⟩
  · rw [if_pos hcyclic]
    obtain ⟨hmode, hkind⟩ := hcyclic
    cases hq : s.nominalPollDueMonoMs with
    | none => exact ⟨by simp, 0, rfl, hkeep⟩
    | some q =>
        show wp (check (q ≤ s.completedMonoMs.getD 0) _ >>= _) _ _ e
        rw [wp_bind, wp_check]
        refine ⟨fun hvalid => ?_, fun hlate => ⟨by simp, 0, if_neg hlate, hkeep⟩⟩
        simp only [if_pos hvalid]
        rw [wp_bind, wp_get, hdue]
        show wp (if due ≤ q then _ else _) _ _ e
        rw [wp_ite]
        refine ⟨fun hle => ?_, fun hlt => ⟨.early hmode hkind hq hdue (not_le.mp hlt), ?_⟩⟩
        · simp only [if_pos hle]
          rw [wp_bind, wp_check]
          refine ⟨fun hinterval => ?_, fun hzero => ⟨by simp, 0, if_pos (not_not.mp hzero), hkeep⟩⟩
          rw [if_neg hinterval]
          show wp (modify _ >>= _) _ _ e
          have hcount : Int.fdiv (q - due) p.reportIntervalMs + 1 - 1 =
              Int.fdiv (q - due) p.reportIntervalMs := by omega
          rw [wp_bind, wp_modify, wp_bind, wp_check, hcount]
          refine ⟨fun hnonneg => ?_, fun hneg => ⟨by simp, _, by rw [if_neg hneg], rfl⟩⟩
          have hserves := Serves.due (e := e) (p := p) hmode hkind hq hdue hle hnonneg hinterval
          rw [Engine.chargeSlot] at hserves
          rw [wp_bind, wp_modify, if_pos hnonneg]
          refine ⟨hserves, ?_⟩
          show _ = (e.missedReportSlots + _ - e.missedReportSlots, _)
          rw [add_sub_cancel_left]
        · rw [if_neg hlt, sub_self]
  -- The slots of `change` and of samples that are no cyclic sample are not looked at.
  · by_cases hmode : p.reportMode = py "change"
    · exact .inl hmode
    · exact .inr fun hkind => h ⟨hmode, hkind⟩
  · rw [if_neg h, sub_self]

/-- What the whole selection says: the comparison, or the cyclic rule. -/
structure Selects [FloatArith] (e : Engine) (s : Sample) (p : PointConfig) (selected : Bool)
    (e' : Engine) (changed served : Bool) : Prop where
  compared : differs (e.baseline (keyOf s)) s p = .ok changed
  cyclic : Serves e s p served e'
  ruled : ∀ due, e.maps.nextDue.get? (keyOf s) = some due →
    slotRule s p due = (e'.missedReportSlots - e.missedReportSlots, .ok served)
  either : selected = (changed || served)

/-- Why the selection fails, with the slots that were counted as missed before. -/
inductive Fails [FloatArith] (e : Engine) (s : Sample) (p : PointConfig) :
    EngineExc → ℤ → Prop
  | comparison {err : EngineExc} (h : differs (e.baseline (keyOf s)) s p = .error err) :
      Fails e s p err 0
  | slot {err : EngineExc} {changed : Bool} {due missed : ℤ}
      (hcompared : differs (e.baseline (keyOf s)) s p = .ok changed)
      (hdue : e.maps.nextDue.get? (keyOf s) = some due)
      (h : slotRule s p due = (missed, .error err)) : Fails e s p err missed

omit [EventCharge] in
theorem changed_ne_key [FloatArith] {new old : Option Value} {deadband : PyNum} {err : EngineExc}
    (h : changed new old deadband = .error err) : err ≠ .key := by
  unfold changed at h
  split at h <;> cases h
  simp

omit [EventCharge] in
theorem select_spec [FloatArith] {e : Engine} (s : Sample) (p : PointConfig)
    (hdue : ∃ due, e.maps.nextDue.get? (keyOf s) = some due) :
    wp (select s p) (fun selected e' => ∃ changed served, Selects e s p selected e' changed served)
      (fun err e' => err ≠ .key ∧ ∃ missed, Fails e s p err missed ∧
        e' = { e with missedReportSlots := e.missedReportSlots + missed }) e := by
  obtain ⟨due, hdue⟩ := hdue
  rw [select, wp_bind, wp_get, wp_bind, wp_result]
  refine ⟨fun changed hchanged => ?_, fun err herr => ⟨?_, 0, .comparison herr, by rw [add_zero]⟩⟩
  · rw [wp_bind]
    refine (serveSlot_spec s p hdue).mono ?_ ?_
    · rintro served e' ⟨hserves, hruled⟩
      refine ⟨changed, served, hchanged, hserves, fun due' hdue' => ?_, rfl⟩
      rw [hdue] at hdue'
      rw [← Option.some.inj hdue', hruled]
    · rintro err e' ⟨herr, missed, hruled, rfl⟩
      exact ⟨herr, missed, .slot hchanged hdue hruled, rfl⟩
  · unfold differs at herr
    split at herr
    · cases herr
    · split at herr
      · cases herr
      · split at herr
        · exact changed_ne_key herr
        · cases herr

/-! ### The admission -/

/-- The limit that the batch of an event has from its configuration. -/
def Engine.sampleLimit (e : Engine) : ℤ :=
  min 500 ((e.snapshot.map (·.report.maxBatchPoints)).getD 500)

/-- The event is owned and queued; the references apart. -/
def Engine.owning (e : Engine) (s : Sample) : Engine :=
  { e with
    owned := e.owned.set (identity s) s
    admitted := e.admitted ++ [s]
    owners := e.owners.set (epochOf s, keyOf s)
      (((e.owners.get? (epochOf s, keyOf s)).getD .empty).set (seqOf s) s)
    shadows := e.shadows.set (keyOf s) s
    history := if seqOf s ≤ e.watermark then e.history ++ [(s, e.sampleLimit)] else e.history
    queue := if seqOf s ≤ e.watermark then e.queue else e.queue ++ [(s, e.sampleLimit)] }

theorem own_spec {e : Engine} {s : Sample} (h : Booked e e.held)
    (hkey : ∀ t ∈ e.held, identity t = identity s → t = s) (hnew : e.owned.get? (identity s) = none) :
    wp (own s)
      (fun _ e' => ∃ refs usedBytes, e' = { e.owning s with refs, usedBytes } ∧
        Booked e' e'.held ∧ Booked e' (s ::ₘ e.held))
      (fun _ _ => False) e := by
  rw [own, wp_bind, wp_modify, wp_bind]
  have h₁ : Booked { e with
      owned := e.owned.set (identity s) s, admitted := e.admitted ++ [s] } e.held :=
    ⟨h.counted, h.used⟩
  refine (retain_spec h₁ hkey).mono ?_ fun _ _ hf => hf
  rintro - e₁ ⟨refs, usedBytes, rfl, h₂⟩
  have hheld : (e.owning s).held = s ::ₘ e.held := by
    show ((e.owned.set (identity s) s).values : Multiset Sample) + _ + _ = _
    rw [coe_values_set, Dict.erase_of_none hnew, Multiset.cons_add, Multiset.cons_add]
    rfl
  have hdone : ∀ e', e' = { e.owning s with refs, usedBytes } →
      ∃ refs usedBytes, e' = { e.owning s with refs, usedBytes } ∧
        Booked e' e'.held ∧ Booked e' (s ::ₘ e.held) := by
    rintro - rfl
    have h₃ : Booked { e.owning s with refs, usedBytes } (s ::ₘ e.held) := ⟨h₂.counted, h₂.used⟩
    refine ⟨refs, usedBytes, rfl, ?_, h₃⟩
    rw [← hheld] at h₃
    exact h₃
  rw [wp_modify]
  refine hdone _ ?_
  rw [Engine.owning, Engine.sampleLimit]
  by_cases hseq : seqOf s ≤ e.watermark
  · simp only [if_pos hseq]
  · simp only [if_neg hseq]

/-- The engine after an event was found to be eligible. -/
def Engine.eligible (e : Engine) (accounting : Accounting) : Engine :=
  { e with eligibleEvents := e.eligibleEvents + 1, accounting }

variable [Footprint]

/-- The time of an event may be reported. -/
def timely (s : Sample) : Prop :=
  s.timestamp.isSome ∧ (s.timeValid = true ∨ s.timeSource = .systemRtcCompat)

/-- What becomes of a sample that was compared, and the answer of `accept`. -/
inductive Concludes (e : Engine) (s : Sample) : Bool → Bool → Engine → Prop
  | filtered : Concludes e s false false
      { e with
        policyFilteredEvents := e.policyFilteredEvents + 1, accounting := e.accounting.filtered s }
  | untimely (h : ¬ timely s) : Concludes e s true false
      { e.eligible (e.accounting.refused s .timeInvalid) with
        timeInvalidEvents := e.timeInvalidEvents + 1, knownUnsentEvents := e.knownUnsentEvents + 1 }
  | rejected (h : timely s) (hfull : e.canAdmit s = false) : Concludes e s true false
      { e.eligible (e.accounting.refused s .capacityEviction) with
        admissionRejectedEvents := e.admissionRejectedEvents + 1
        knownUnsentEvents := e.knownUnsentEvents + 1 }
  | decided (h : timely s) (hroom : e.canAdmit s = true) (hawaits : e.accounting.awaits s = false) :
      Concludes e s true false (e.eligible (e.accounting.admitted s))
  | admitted {refs : Dict Identity (Sample × ℤ)} {usedBytes : ℤ} (h : timely s)
      (hroom : e.canAdmit s = true) (hawaits : e.accounting.awaits s = true) :
      Concludes e s true true
        { (e.eligible (e.accounting.admitted s)).owning s with refs, usedBytes }

omit [Footprint] in
/-- An event that may be admitted fits below the reserve. -/
theorem canAdmit_room {e : Engine} {s : Sample} (h : Booked e e.held)
    (hkey : ∀ t ∈ e.held, identity t = identity s → t = s) (hroom : e.canAdmit s = true) :
    weight eventCharge (s ::ₘ e.held) + e.frozenCharge ≤ e.maxBytes - e.reserve := by
  have hused := h.used
  rw [Engine.canAdmit, Bool.and_eq_true, decide_eq_true_eq, decide_eq_true_eq] at hroom
  obtain ⟨-, hroom⟩ := hroom
  by_cases hs : s ∈ e.held
  · rw [h.counted.entry s hs] at hroom
    simp only [Option.isSome_some, ↓reduceIte] at hroom
    rw [weight_cons_of_mem hs]
    omega
  · rw [h.counted.get?_of_notMem hs hkey] at hroom
    simp only [Option.isSome_none, Bool.false_eq_true, ↓reduceIte] at hroom
    rw [weight_cons_of_notMem hs]
    omega

theorem conclude_spec {e : Engine} {s : Sample} (selected : Bool) (h : Booked e e.held)
    (hfits : Fits e) (hkey : ∀ t ∈ e.held, identity t = identity s → t = s)
    (hnew : e.owned.get? (identity s) = none) :
    wp (conclude s selected)
      (fun answer e' => Concludes e s selected answer e' ∧ Booked e' e'.held ∧ Fits e')
      (fun _ _ => False) e := by
  have hkeep : ∀ {e' : Engine}, e'.refs = e.refs → e'.usedBytes = e.usedBytes →
      e'.held = e.held → e'.frozen = e.frozen → e'.maxBytes = e.maxBytes →
      Booked e' e'.held ∧ Fits e' := by
    intro e' hrefs hused hheld hfrozen hmax
    have hb : Booked e' e'.held := by
      refine ⟨?_, ?_⟩
      · rw [hrefs, hheld]
        exact h.counted
      · rw [hused, hheld, Engine.frozenCharge, hfrozen]
        exact h.used
    exact ⟨hb, hfits.mono h hb (by rw [hheld]; exact Multiset.Subset.refl _) hmax hfrozen⟩
  rw [conclude]
  cases selected with
  | false => exact ⟨.filtered, hkeep rfl rfl rfl rfl rfl⟩
  | true =>
      simp only [not_true_eq_false, ↓reduceIte, wp_bind, wp_modify, wp_ite, wp_get, wp_pure]
      refine ⟨fun htime => ⟨.untimely ?_, hkeep rfl rfl rfl rfl rfl⟩, fun htime => ?_⟩
      · rintro ⟨hsome, hvalid⟩
        rcases htime with hnone | hinvalid
        · rw [Option.isNone_iff_eq_none] at hnone
          rw [hnone] at hsome
          cases hsome
        · exact hinvalid hvalid
      · have htimely : timely s := by
          rw [not_or, not_not] at htime
          exact ⟨Option.isSome_iff_ne_none.mpr (by simpa using htime.1), htime.2⟩
        refine ⟨fun hfull => ⟨.rejected htimely (Bool.eq_false_iff.mpr hfull), hkeep rfl rfl rfl rfl rfl⟩,
          fun hroom => ?_⟩
        have hroom : e.canAdmit s = true := not_not.mp hroom
        refine ⟨fun hawaits => ?_, fun hawaits => ?_⟩
        · have h₁ : Booked (e.eligible (e.accounting.admitted s))
              (e.eligible (e.accounting.admitted s)).held := ⟨h.counted, h.used⟩
          refine (own_spec h₁ hkey hnew).mono ?_ fun _ _ hf => hf
          rintro - e' ⟨refs, usedBytes, rfl, hb, hcons⟩
          refine ⟨.admitted htimely hroom hawaits, hb, hb.fits ?_⟩
          have hused : usedBytes = weight eventCharge (s ::ₘ e.held) + e.frozenCharge := hcons.used
          have hbefore := h.used
          have hcan := canAdmit_room h hkey hroom
          show usedBytes ≤ e.maxBytes - e.reserve
          omega
        · exact ⟨.decided htimely hroom (Bool.eq_false_iff.mpr hawaits), hkeep rfl rfl rfl rfl rfl⟩

/-! ### The whole call -/

/-- The engine with a sample listed: its number is seen and its epoch entered. -/
def Engine.listed (e : Engine) (s : Sample) : Engine :=
  ({ e with
    offered := e.offered ++ [s]
    maps := { e.maps with seen := e.maps.seen.set (keyOf s) (seqOf s) } } : Engine).entered s

/-- The sample has what reporting requires. -/
def Engine.identifies (e : Engine) (s : Sample) : Except EngineExc Unit :=
  if s.captureBootId.isSome ∧ s.sampleSeq.isSome ∧ s.completedMonoMs.isSome ∧
      s.nominalOriginMonoMs.isSome then
    if s.captureBootId = some e.bootId then .ok ()
    else .error (.value "Capture boot differs from reporting process boot")
  else .error (.value "Reporting requires a captured event identity and scheduler origin")

/-- The sample belongs to the configuration that is reported, and is newer than those
    seen of its point. -/
structure Current (e : Engine) (s : Sample) : Prop where
  configured : e.foreign s = false
  identified : e.identifies s = .ok ()
  unseen : (e.maps.seen.get? (keyOf s)).getD 0 < seqOf s

/-- How `accept` may end.  A refused or failed call has changed less than one that was
    concluded. -/
inductive Accepts [FloatArith] (e : Engine) (s : Sample) : Except EngineExc Bool → Engine → Prop
  | foreign (h : e.foreign s = true) : Accepts e s (.ok false)
      { e with
        offered := e.offered ++ [s], discarded := e.discarded + 1
        accounting := e.accounting.undecided s false }
  | seen (hours : e.foreign s = false) (hidentified : e.identifies s = .ok ())
      (h : seqOf s ≤ (e.maps.seen.get? (keyOf s)).getD 0) :
      Accepts e s (.ok false) { e with offered := e.offered ++ [s] }
  | unidentified {err : EngineExc} (hours : e.foreign s = false) (h : e.identifies s = .error err) :
      Accepts e s (.error err) { e with offered := e.offered ++ [s] }
  | failed {err : EngineExc} {latest : Dict Key Sample} {refs : Dict Identity (Sample × ℤ)}
      {usedBytes missed : ℤ} {p : PointConfig} (h : Current e s)
      (hlatest : ∀ t ∈ latest.values, t = s ∨ t ∈ e.latest.values)
      (hpoint : e.points.get? (keyOf s) = some p)
      (hfails : Fails { e.listed s with latest, refs, usedBytes } s p err missed) :
      Accepts e s (.error err) { e.listed s with
        latest, refs, usedBytes, missedReportSlots := e.missedReportSlots + missed }
  | concluded {latest : Dict Key Sample} {refs : Dict Identity (Sample × ℤ)} {usedBytes : ℤ}
      {p : PointConfig} {selected changed served answer : Bool} {e₁ e₂ : Engine} (h : Current e s)
      (hlatest : ∀ t ∈ latest.values, t = s ∨ t ∈ e.latest.values)
      (hpoint : e.points.get? (keyOf s) = some p)
      (hselects : Selects { e.listed s with latest, refs, usedBytes } s p selected e₁ changed served)
      (hconcludes : Concludes e₁ s selected answer e₂) : Accepts e s (.ok answer) e₂

omit [EventCharge] [Footprint] in
theorem entered_baselines {e : Engine} {s t : Sample}
    (h : t ∈ (e.entered s).maps.baselines.values) : t ∈ e.maps.baselines.values := by
  rw [entered_maps] at h
  by_cases hsame : e.maps.within s
  · rwa [if_pos hsame] at h
  · rw [if_neg hsame] at h
    exact mem_values_of_erase h

omit [EventCharge] [Footprint] in
theorem entered_held {e : Engine} {s : Sample} : (e.entered s).held ⊆ e.held := by
  intro t ht
  simp only [Engine.held, Multiset.mem_add, Multiset.mem_coe] at ht ⊢
  rcases ht with ht | ht
  · exact .inl ht
  · exact .inr (entered_baselines ht)

/-- Every point with an epoch has a next report slot. -/
def Scheduled (m : Maps) : Prop :=
  ∀ key epoch, m.epochs.get? key = some epoch → ∃ due, m.nextDue.get? key = some due

omit [EventCharge] [Footprint] in
/-- After its epoch is entered, a point has a next report slot. -/
theorem entered_due {e : Engine} {s : Sample} (h : Scheduled e.maps) :
    ∃ due, (e.entered s).maps.nextDue.get? (keyOf s) = some due := by
  rw [entered_maps]
  by_cases hsame : e.maps.within s
  · rw [if_pos hsame]
    exact h _ _ hsame
  · rw [if_neg hsame]
    exact ⟨_, Dict.get?_set_self _ _ _⟩

omit [Footprint] in
/-- The selection leaves the samples that are held. -/
theorem Serves.books {e e' : Engine} {s : Sample} {p : PointConfig} {served : Bool}
    (hs : Serves e s p served e') (h : Booked e e.held) (hfits : Fits e) :
    Booked e' e'.held ∧ Fits e' ∧ e'.held = e.held ∧ e'.owned = e.owned := by
  cases hs with
  | rule => exact ⟨h, hfits, rfl, rfl⟩
  | early => exact ⟨h, hfits, rfl, rfl⟩
  | due => exact ⟨⟨h.counted, h.used⟩, ⟨hfits.events, hfits.used⟩, rfl, rfl⟩

theorem accept_spec [FloatArith] {e : Engine} {s : Sample} (h : Booked e e.held) (hfits : Fits e)
    (hscheduled : Scheduled e.maps) (hkey : ∀ t ∈ e.held, identity t = identity s → t = s)
    (hnew : e.owned.get? (identity s) = none) :
    wp (accept s)
      (fun answer e' => Accepts e s (.ok answer) e' ∧ Booked e' e'.held ∧ Fits e')
      (fun err e' => err ≠ .key ∧ Accepts e s (.error err) e' ∧ Booked e' e'.held ∧ Fits e') e := by
  have h₀ : Booked { e with offered := e.offered ++ [s] } e.held := ⟨h.counted, h.used⟩
  have hfits₀ : Fits { e with offered := e.offered ++ [s] } := ⟨hfits.events, hfits.used⟩
  rw [accept, wp_bind, wp_modify, wp_bind, wp_get, wp_ite]
  refine ⟨fun hforeign => ⟨.foreign hforeign, ⟨h.counted, h.used⟩, hfits.events, hfits.used⟩,
    fun hours => ?_⟩
  simp only [wp_bind, wp_check, wp_ite, wp_pure, wp_modify]
  have hours : e.foreign s = false := Bool.eq_false_iff.mpr hours
  refine ⟨fun hidentity => ⟨fun hboot => ?_, fun hboot => ⟨by simp, .unidentified hours ?_, h₀, hfits₀⟩⟩,
    fun hidentity => ⟨by simp, .unidentified hours ?_, h₀, hfits₀⟩⟩
  rotate_left
  · rw [Engine.identifies, if_pos hidentity, if_neg hboot]
  · rw [Engine.identifies, if_neg hidentity]
  have hidentified : e.identifies s = .ok () := by
    rw [Engine.identifies, if_pos hidentity, if_pos hboot]
  refine ⟨fun hseen => ⟨.seen hours hidentified hseen, h₀, hfits₀⟩, fun hunseen => ?_⟩
  have hcurrent : Current e s := ⟨hours, hidentified, not_le.mp hunseen⟩
  have hpoint : ∃ p, e.points.get? (keyOf s) = some p := by
    have hknown := hcurrent.configured
    simp only [Engine.foreign, Bool.or_eq_false_iff] at hknown
    exact Option.isSome_iff_exists.mp (by simpa using hknown.1.2)
  obtain ⟨p, hp⟩ := hpoint
  have h₁ : Booked { e with
      offered := e.offered ++ [s]
      maps := { e.maps with seen := e.maps.seen.set (keyOf s) (seqOf s) } } e.held :=
    ⟨h.counted, h.used⟩
  refine (enterEpoch_spec s h₁).mono ?_ fun _ _ hf => hf.elim
  rintro - e₁ ⟨refs₁, usedBytes₁, rfl, hb₁⟩
  have hsub : (e.listed s).held ⊆ e.held := entered_held
  have hb₁ : Booked { e.listed s with refs := refs₁, usedBytes := usedBytes₁ } (e.listed s).held := hb₁
  have hfits₁ : Fits { e.listed s with refs := refs₁, usedBytes := usedBytes₁ } :=
    hfits.mono h hb₁ hsub rfl rfl
  refine (showLatest_spec (s := s) hb₁ hfits₁ fun t ht => hkey t (hsub ht)).mono ?_
    fun _ _ hf => hf.elim
  rintro - e₂ ⟨latest, refs, usedBytes, rfl, hb₂, hfits₂, hlatest⟩
  -- A held sample with the identity of `s` is `s`, also after it is shown.
  have hkey₂ : ∀ t ∈ ({ e.listed s with latest } : Engine).held, identity t = identity s → t = s := by
    intro t ht he
    simp only [Engine.held, Multiset.mem_add, Multiset.mem_coe] at ht
    have hin : ∀ t ∈ (e.listed s).held, identity t = identity s → t = s :=
      fun t ht => hkey t (hsub ht)
    simp only [Engine.held, Multiset.mem_add, Multiset.mem_coe] at hin
    rcases ht with (ht | ht) | ht
    · exact hin t (.inl (.inl ht)) he
    · rcases hlatest t ht with rfl | ht
      · rfl
      · exact hin t (.inl (.inr ht)) he
    · exact hin t (.inr ht) he
  rw [hp]
  show wp (select s p >>= fun selected => conclude s selected) _ _ _
  rw [wp_bind]
  have hdue : ∃ due, (e.listed s).maps.nextDue.get? (keyOf s) = some due := entered_due hscheduled
  refine (select_spec (e := { e.listed s with latest, refs, usedBytes }) s p hdue).mono ?_ ?_
  · rintro selected e₃ ⟨changed, served, hselects⟩
    obtain ⟨hb₃, hfits₃, hheld₃, howned₃⟩ := hselects.cyclic.books hb₂ hfits₂
    refine (conclude_spec selected hb₃ hfits₃ (by rw [hheld₃]; exact hkey₂)
      (by rw [howned₃]; exact hnew)).mono ?_ fun _ _ hf => hf.elim
    rintro answer e₄ ⟨hconcludes, hb₄, hfits₄⟩
    exact ⟨.concluded hcurrent hlatest hp hselects hconcludes, hb₄, hfits₄⟩
  · rintro err e₃ ⟨herr, missed, hfails, rfl⟩
    exact ⟨herr, .failed hcurrent hlatest hp hfails, ⟨hb₂.counted, hb₂.used⟩, hfits₂.events, hfits₂.used⟩

end PlcnextIot.Reporting
