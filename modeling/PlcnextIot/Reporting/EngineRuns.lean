/-
  PlcnextIot.Reporting.EngineRuns

  The memory of the engines of one boot, over any sequence of their calls.

  Samples are numbered in the order of their capture, so that each offered sample has
  the greatest number so far (`Fresh`).  `prepare` raises a `RuntimeError` when the
  accounting has no place for a batch; by then the batch is frozen and nothing is
  charged for it, so the runs considered here have no such call (`Placed`).
-/

import PlcnextIot.Reporting.Memory
import PlcnextIot.Drivers.Values

namespace PlcnextIot.Reporting

open PlcnextIot.Python PlcnextIot.Config PlcnextIot.Points PlcnextIot.Effect PlcnextIot.Effect.Prog

/-! ## Steps -/

abbrev EngineStep := Step EngineCall Engine EngineExc (List ReportBatch)

/-- An offered sample is newer than those offered before it. -/
def Fresh (e : Engine) : EngineCall → Prop
  | .accept s => ∀ t ∈ e.offered, seqOf t < seqOf s
  | _ => True

instance (e : Engine) (c : EngineCall) : Decidable (Fresh e c) := by
  cases c <;> unfold Fresh <;> infer_instance

/-- The accounting had a place for the batches of the call. -/
def Placed (st : EngineStep) : Prop :=
  match st.result with
  | .error (.runtime _) => False
  | _ => True

instance (st : EngineStep) : Decidable (Placed st) := by
  unfold Placed
  split <;> infer_instance

theorem Placed.ne_runtime {st : EngineStep} (h : Placed st) (text : String) :
    st.result ≠ .error (.runtime text) := by
  intro he
  rw [Placed, he] at h
  exact h

/-- The sample brings its point no epoch in which the point had an event admitted. -/
def Onward (admitted : List Sample) (e : Engine) (s : Sample) : Prop :=
  e.maps.within s ∨ ∀ t ∈ admitted, keyOf t = keyOf s → epochOf t ≠ epochOf s

instance (admitted : List Sample) (e : Engine) (s : Sample) : Decidable (Onward admitted e s) :=
  inferInstanceAs (Decidable (_ ∨ _))

/-- The call neither gives events up nor replaces the engine. -/
def EngineCall.Reports : EngineCall → Prop
  | .abandon => False
  | .reload => False
  | _ => True

instance (c : EngineCall) : Decidable c.Reports := by
  cases c <;> unfold EngineCall.Reports <;> infer_instance

instance (e : Engine) (s : Sample) : Decidable (Current e s) :=
  decidable_of_iff (e.foreign s = false ∧ e.identifies s = .ok () ∧
      (e.maps.seen.get? (keyOf s)).getD 0 < seqOf s)
    ⟨fun h => ⟨h.1, h.2.1, h.2.2⟩, fun h => ⟨h.configured, h.identified, h.unseen⟩⟩

/-- A sample that the engine takes for its own brings its point no epoch in which the
    point had one of these events admitted. -/
def Advances (admitted : List Sample) (e : Engine) : EngineCall → Prop
  | .accept s => Current e s → Onward admitted e s
  | _ => True

instance (admitted : List Sample) (e : Engine) (c : EngineCall) :
    Decidable (Advances admitted e c) := by
  cases c <;> unfold Advances <;> infer_instance

section Memory

variable [EventCharge]

section Steps

theorem openGate_sound (watermark : ℤ) {e : Engine} (h : Sound e) :
    wp (openGate watermark) (fun _ e' => Sound e' ∧ e'.maxBytes = e.maxBytes)
      (fun _ _ => False) e := by
  rw [openGate, wp_modify]
  exact ⟨⟨⟨h.booked.counted, h.booked.used⟩, ⟨h.fits.events, h.fits.used⟩, h.queued.gate watermark,
    h.recorded.fewer rfl (fun _ ht => ht) h.recorded.scheduled rfl rfl rfl rfl rfl
      fun hno => (h.recorded.detached hno).congr rfl rfl rfl rfl rfl rfl⟩, rfl⟩

/-- Whatever the accounting has become. -/
theorem Sound.shared {e : Engine} (h : Sound e) (accounting : Accounting) :
    Sound { e with accounting } :=
  ⟨⟨h.booked.counted, h.booked.used⟩, ⟨h.fits.events, h.fits.used⟩,
    h.queued.congr rfl rfl rfl rfl rfl rfl le_rfl,
    h.recorded.fewer rfl (fun _ ht => ht) h.recorded.scheduled rfl rfl rfl rfl rfl
      fun hno => (h.recorded.detached hno).congr rfl rfl rfl rfl rfl rfl⟩

/-- The greatest charge of a frozen batch. -/
def maxCharge : ℤ := maxPayload + 256 + 8 * 500

omit [EventCharge] in
theorem batchCharge_le {batch : ReportBatch} (hpayload : batch.payload.length ≤ maxPayload)
    (hsamples : batch.samples.length ≤ 500) : batchCharge batch ≤ maxCharge := by
  rw [batchCharge, maxCharge]
  omega

omit [EventCharge] in
theorem charges_le {batches : List ReportBatch}
    (h : ∀ batch ∈ batches, batch.payload.length ≤ maxPayload ∧ batch.samples.length ≤ 500) :
    (batches.map batchCharge).sum ≤ maxCharge * batches.length := by
  have hle : ∀ n ∈ batches.map batchCharge, n ≤ maxCharge := by
    intro n hn
    obtain ⟨batch, hbatch, rfl⟩ := List.mem_map.mp hn
    exact batchCharge_le (h batch hbatch).1 (h batch hbatch).2
  have hsum := List.sum_le_card_nsmul _ _ hle
  rwa [List.length_map, nsmul_eq_mul, mul_comm] at hsum

omit [EventCharge] in
/-- A class has at most as many frozen batches as there are. -/
theorem frozenOf_le {e : Engine} (h : Queued [] e) (c : Category) :
    e.frozenOf c ≤ e.frozen.items.length := by
  have hsub : e.classes.keys ⊆ e.frozen.keys := by
    intro k hk
    by_contra hno
    cases hclass : e.classes.get? k with
    | none => exact Dict.get?_eq_none.mp hclass hk
    | some c =>
        obtain ⟨batch, hbatch⟩ := h.classed k c hclass
        rw [Dict.get?_eq_none.mpr hno] at hbatch
        cases hbatch
  have hlen := (List.subperm_of_subset e.classes.nodup hsub).length_le
  simp only [Dict.keys, List.length_map] at hlen
  have hcount : e.frozenOf c ≤ e.classes.values.length := List.count_le_length
  rw [Dict.values, List.length_map] at hcount
  exact hcount.trans hlen

/-- Eight batches are frozen, or each class with queued events has seven of them. -/
def Drained (e : Engine) : Prop :=
  e.frozen.items.length = 8 ∨ ∀ c, e.classQueue c ≠ [] → e.frozenOf c = 7

/-- With room for eight batches in the reserve, `prepare` ends when no class can go on. -/
theorem Ends.drained {inp : EngineInputs} {now : ℚ} {wallMs : ℤ} {e : Engine} (h : Sound e)
    (hends : Ends inp now wallMs e) (hreserve : 8 * maxCharge ≤ e.reserve) : Drained e := by
  cases hends with
  | idle hnext =>
      have hcount := h.queued.count
      rcases nextClass_none hnext with hroom | hnone
      · exact .inl (le_antisymm hcount hroom)
      · by_cases height : e.frozen.items.length = 8
        · exact .inl height
        · refine .inr fun c hqueue => ?_
          have hle := frozenOf_le h.queued c
          have hno := hnone c
          rw [Engine.available, Bool.and_eq_false_iff] at hno
          rcases hno with hempty | hseven
          · simp [hqueue] at hempty
          · have hseven := of_decide_eq_false hseven
            omega
  | @full e c batch taken rest hcollects hfull =>
      exfalso
      -- the events leave the reserve free, and seven batches leave room for one more
      have hlen := (nextClass_some hcollects.next).1
      have hsmall : ∀ batch ∈ e.frozen.values,
          batch.payload.length ≤ maxPayload ∧ batch.samples.length ≤ 500 := h.queued.small
      have hfrozen := charges_le hsmall
      rw [Dict.values, List.length_map] at hfrozen
      have hsamples : batch.samples.length ≤ 500 := by
        rw [hcollects.samples, List.length_map]
        exact hcollects.count
      have hbatch := batchCharge_le hcollects.small hsamples
      have hused : e.usedBytes = weight eventCharge e.held + e.frozenCharge := h.booked.used
      have hevents : weight eventCharge e.held ≤ e.maxBytes - e.reserve := h.fits.events
      have hreserve : 8 * maxCharge ≤ e.reserve := hreserve
      have hseven : maxCharge * (e.frozen.items.length : ℤ) ≤ maxCharge * 7 := by
        refine mul_le_mul_of_nonneg_left ?_ (by decide)
        omega
      rw [Engine.frozenCharge, Dict.values] at hused
      omega

/-! ## Runs -/

variable [Footprint] [FloatArith]

/-- Every call keeps the invariant. -/
theorem step_sound (inp : EngineInputs) (c : EngineCall) {e : Engine} (h : Sound e)
    (hfresh : Fresh e c) :
    wp (c.exec inp)
      (fun _ e' => (Sound e' ∧ e'.maxBytes = e.maxBytes) ∧
        ∀ now wallMs, c = .prepare now wallMs true → Ends inp now wallMs e')
      (fun err e' => err ≠ .key ∧ ((∃ text, err = .runtime text) ∨
        Sound e' ∧ e'.maxBytes = e.maxBytes)) e := by
  cases c with
  | configure snapshot now generation =>
      rw [EngineCall.exec, wp_bind]
      refine (configure_sound snapshot now generation h).mono ?_ fun _ _ hf => hf.elim
      exact fun _ e' h' => ⟨⟨h'.1, h'.2.maxBytes⟩, fun _ _ hc => by cases hc⟩
  | accept s =>
      rw [EngineCall.exec, wp_bind]
      refine (accept_sound h hfresh).mono ?_ ?_
      · exact fun _ e' h' => ⟨⟨h'.2, h'.1.maxBytes⟩, fun _ _ hc => by cases hc⟩
      · exact fun err e' h' => ⟨h'.1, .inr ⟨h'.2.2, h'.2.1.maxBytes⟩⟩
  | openGate watermark =>
      rw [EngineCall.exec, wp_bind]
      refine (openGate_sound watermark h).mono ?_ fun _ _ hf => hf.elim
      exact fun _ e' h' => ⟨h', fun _ _ hc => by cases hc⟩
  | prepare now wallMs force =>
      refine (prepare_sound inp now wallMs force h).mono ?_ fun _ _ h' => h'
      rintro batches e' ⟨h', hends⟩
      refine ⟨h', fun now' wallMs' hc => ?_⟩
      obtain ⟨rfl, rfl, rfl⟩ := EngineCall.prepare.inj hc
      exact hends rfl
  | committed batch =>
      rw [EngineCall.exec, wp_bind]
      refine (committed_sound batch h).mono ?_ fun _ _ hf => hf.elim
      exact fun _ e' h' => ⟨h', fun _ _ hc => by cases hc⟩
  | abandon =>
      rw [EngineCall.exec, wp_bind]
      refine (abandon_sound h).mono ?_ fun _ _ hf => hf.elim
      rintro _ e' ⟨h', refs, usedBytes, rfl⟩
      exact ⟨⟨h', rfl⟩, fun _ _ hc => by cases hc⟩
  | reload => exact ⟨⟨h.reload, rfl⟩, fun _ _ hc => by cases hc⟩
  | share accounting =>
      refine ⟨⟨⟨⟨h.booked.counted, h.booked.used⟩, ⟨h.fits.events, h.fits.used⟩,
        h.queued.congr rfl rfl rfl rfl rfl rfl le_rfl,
        h.recorded.fewer rfl (fun _ ht => ht) h.recorded.scheduled rfl rfl rfl rfl rfl
          fun hno => (h.recorded.detached hno).congr rfl rfl rfl rfl rfl rfl⟩, rfl⟩,
        fun _ _ hc => by cases hc⟩

end Steps

/-- What the memory of an engine holds. -/
structure Remembers (e : Engine) : Prop where
  used : e.usedBytes = weight eventCharge e.held + e.frozenCharge
  bounded : e.usedBytes ≤ e.maxBytes
  released : e.owned.items = [] → e.latest.items = [] → e.maps.baselines.items = [] →
    e.frozen.items = [] → e.usedBytes = 0
  counted : ∀ id s n, e.refs.get? id = some (s, n) → n = e.held.count s ∧ 0 < n

theorem Sound.remembers {e : Engine} (h : Sound e) : Remembers e where
  used := h.booked.used
  bounded := h.fits.used
  released howned hlatest hbaselines hfrozen := by
    have hheld : e.held = 0 := by
      rw [Engine.held, Dict.values, howned, Dict.values, hlatest, Dict.values, hbaselines]
      rfl
    rw [h.booked.used, hheld, Engine.frozenCharge, Dict.values, hfrozen]
    rfl
  counted id s n hid := by
    obtain ⟨hn, hs⟩ := h.booked.counted.entry_eq hid
    refine ⟨hn, ?_⟩
    have hpos := Multiset.count_pos.mpr hs
    omega

/-- The memory bound and the progress of `prepare`: in every run of new engines on one
    boot context, with samples in the order of their capture and a place in the
    accounting for each frozen batch, the used bytes are the charge of what is held and
    frozen, within the limit; every reference is counted; no call raises a `KeyError`;
    and with the default limit a forced `prepare` goes on until eight batches are
    frozen or each class with queued events has seven. -/
theorem memory_bounded [FloatArith] [Footprint] (inp : EngineInputs) (gateway bootId : PyStr)
    (capacity maxBytes : ℕ) (accounting : Accounting) (sequence : ℤ) (calls : List EngineCall)
    (hcalls : ∀ st ∈ trace (EngineCall.exec inp)
        ({ gateway, bootId, capacity, maxBytes, accounting, sequence } : Engine) calls,
      Fresh st.before st.call ∧ Placed st) :
    ∀ st ∈ trace (EngineCall.exec inp)
        ({ gateway, bootId, capacity, maxBytes, accounting, sequence } : Engine) calls,
      Remembers st.after ∧ st.after.maxBytes = maxBytes ∧ st.result ≠ .error .key ∧
        (maxBytes = 32 * 1024 * 1024 → ∀ now wallMs batches, st.call = .prepare now wallMs true →
          st.result = .ok batches → Drained st.after) := by
  refine trace_forall (I := fun e => Sound e ∧ e.maxBytes = maxBytes) ?_ ?_ hcalls
  · rintro e c ⟨h, hmax⟩ ⟨hfresh, hplaced⟩
    obtain ⟨hok, herror⟩ := perform_spec (step_sound inp c h hfresh)
    cases hresult : (perform (EngineCall.exec inp) e c).result with
    | ok batches =>
        obtain ⟨⟨hsound, hsame⟩, hends⟩ := hok batches hresult
        refine ⟨⟨hsound.remembers, hsame.trans hmax, by simp, ?_⟩, hsound, hsame.trans hmax⟩
        intro hdefault now wallMs _ hc _
        refine (hends now wallMs hc).drained hsound ?_
        rw [Engine.reserve, hsame, hmax, hdefault]
        decide
    | error err =>
        obtain ⟨hkey, hcause⟩ := herror err hresult
        rcases hcause with ⟨text, rfl⟩ | ⟨hsound, hsame⟩
        · exact absurd hresult (hplaced.ne_runtime text)
        · refine ⟨⟨hsound.remembers, hsame.trans hmax, ?_, ?_⟩, hsound, hsame.trans hmax⟩
          · intro he
            exact hkey (Except.error.inj he)
          · intro _ _ _ _ _ he
            cases he
  · exact ⟨.start rfl rfl (.nothing rfl rfl rfl rfl rfl rfl) ⟨rfl, rfl, rfl, rfl, rfl, rfl⟩ rfl rfl
      List.Pairwise.nil fun _ _ h => (by cases h), rfl⟩

end Memory

/-! ### A run that fills the accounting -/

/-- The station reports one switch. -/
def switchPoint : PointConfig where
  pointId := py "p"
  name := py "p"
  enabled := true
  dataType := py "bool"
  pollIntervalMs := 1000
  scale := .int 1
  offset := .int 0
  unit := none
  reportMode := py "change"
  reportIntervalMs := 1000
  deadband := .int 0
  staleAfterMs := 3000
  modbus := some ⟨py "coil", 0, none⟩

def switchConfig : ConfigSnapshot where
  gatewayId := py "g"
  messageId := py "m"
  configVersion := 1
  timestamp := 0
  enabled := true
  report := ⟨1000, 100⟩
  devices := [⟨py "d", py "d", true, py "modbus_tcp", ⟨py "h", 502, some 1, 1000, 1000, 0, none, none, none, none,
    none⟩, [switchPoint]⟩]
  contentJson := []
  wireJson := []

/-- The `n`-th reading of the switch. -/
def reading (n : ℕ) : Sample where
  configVersion := 1
  deviceId := py "d"
  pointId := py "p"
  timestamp := some (1000 * n)
  value := some (.bool (n % 2 = 0))
  quality := .good
  captureBootId := some (py "b")
  sampleSeq := some n
  nominalPollDueMonoMs := some (1000 * n)
  completedMonoMs := some (1000 * n)
  nominalOriginMonoMs := some 1000
  configGeneration := 1
  timeValid := true
  gatewayId := some (py "g")

/-- Bookkeeping that fits into its limit. -/
@[reducible] def Footprint.spacious : Footprint := ⟨fun _ => 0, fun _ => false, fun _ => false⟩

/-- What a small sample is charged. -/
@[reducible] def flatCharge : EventCharge := ⟨fun _ => 2000⟩

attribute [local instance] Footprint.spacious flatCharge Drivers.FloatArith.rounded

/-- An engine of a process that has captured these many readings. -/
def station (captured : ℕ) : Engine where
  gateway := py "g"
  bootId := py "b"
  accounting := (List.range captured).foldl (fun a n => a.captured (reading (n + 1)))
    { bootId := py "b" }

def stationIds : EngineInputs := ⟨fun n => List.replicate 32 (48 + n % 10)⟩

/-- The batch of the `n`-th reading alone. -/
def readingBatch (n : ℕ) : ReportBatch where
  payload := (batchPayload (py "g") (py "b") (py "batch-" ++ stationIds.hex (n - 1)) 0 n
    [reading n]).toOption.getD []
  version := 1
  samples := [reading n]
  preparedAt := 0
  sequence := n

/-- Each of these many readings is handed over before the next one. -/
def handovers (count : ℕ) : List EngineCall :=
  .configure (some switchConfig) 0 (some 1) :: (List.range count).flatMap fun n =>
    [.accept (reading (n + 1)), .prepare 0 0 true, .committed (readingBatch (n + 1))]

/-- The run after which the accounting has no place. -/
def filling : List EngineCall :=
  handovers 64 ++ [.accept (reading 65), .prepare 0 0 true]

/-- The memory of a station that has handed two readings over. -/
theorem memory_bounded_station :
    (∀ st ∈ trace (EngineCall.exec stationIds) (station 2) (handovers 2),
        Fresh st.before st.call ∧ Placed st) ∧
      ∀ st ∈ trace (EngineCall.exec stationIds) (station 2) (handovers 2),
        Remembers st.after ∧ st.after.maxBytes = 32 * 1024 * 1024 ∧ st.result ≠ .error .key ∧
          (32 * 1024 * 1024 = 32 * 1024 * 1024 → ∀ now wallMs batches,
            st.call = .prepare now wallMs true → st.result = .ok batches → Drained st.after) :=
  ⟨by decide +kernel, memory_bounded stationIds (py "g") (py "b") 32768 (32 * 1024 * 1024)
    (station 2).accounting 0 (handovers 2) (by decide +kernel)⟩

/-- A reading that was taken after the clock had jumped. -/
def jumped (n : ℕ) : Sample := { reading n with timeGeneration := 1 }

/-- The batch that the last reading of that run is frozen into once more. -/
def refrozen : ReportBatch := { readingBatch 65 with
  payload := (batchPayload (py "g") (py "b") (py "batch-" ++ stationIds.hex 65) 0 66
    [reading 65]).toOption.getD []
  sequence := 66 }

/-- The engine tries again, and both batches are handed over. -/
def retrying : List EngineCall :=
  [.prepare 0 0 true, .committed (readingBatch 65), .committed refrozen]

def overfull : Engine := runCalls (EngineCall.exec stationIds) (station 65) filling

/-- After two more readings were captured, the engine gets them. -/
def relapsing : List EngineCall :=
  let accounting := (runCalls (EngineCall.exec stationIds) overfull retrying).accounting
  retrying ++ [.share ((accounting.captured (reading 66)).captured (jumped 67)),
    .accept (reading 66), .accept (jumped 67)]

-- Both runs are evaluated together, since the second begins with the first.
theorem relapse_end :
    ((∀ st ∈ trace (EngineCall.exec stationIds) (station 65) filling,
        st.call.Reports ∧ Fresh st.before st.call ∧ Advances st.before.admitted st.before st.call) ∧
      (fun e : Engine => e.usedBytes = 4000 ∧ weight eventCharge e.held = 4000 ∧
        e.frozenCharge = 502 ∧ e.queue.map Prod.fst = [reading 65] ∧
        e.frozenSamples = [reading 65]) overfull) ∧
    (∀ st ∈ trace (EngineCall.exec stationIds) overfull relapsing,
        st.call.Reports ∧ Fresh st.before st.call ∧ Advances st.before.admitted st.before st.call) ∧
      (fun e : Engine => e.maps.epochs.get? (py "d", py "p") = some (epochOf (jumped 67)) ∧
        e.baseline (py "d", py "p") = some (reading 66))
        (runCalls (EngineCall.exec stationIds) overfull relapsing) := by
  decide +kernel

/-- Where the run that fills the accounting ends: the last reading is frozen, and queued
    still. -/
theorem filling_end :
    (∀ st ∈ trace (EngineCall.exec stationIds) (station 65) filling, Fresh st.before st.call) ∧
      (fun e : Engine => e.usedBytes = 4000 ∧ weight eventCharge e.held = 4000 ∧
        e.frozenCharge = 502 ∧ e.queue.map Prod.fst = [reading 65] ∧
        e.frozenSamples = [reading 65])
        (runCalls (EngineCall.exec stationIds) (station 65) filling) :=
  ⟨fun st hst => (relapse_end.1.1 st hst).2.1, relapse_end.1.2⟩

/-- With its accounting full, an engine freezes a batch without charging it. -/
theorem full_accounting_uncharged :
    (∀ st ∈ trace (EngineCall.exec stationIds) (station 65) filling, Fresh st.before st.call) ∧
      (runCalls (EngineCall.exec stationIds) (station 65) filling).usedBytes ≠
        weight eventCharge (runCalls (EngineCall.exec stationIds) (station 65) filling).held +
          (runCalls (EngineCall.exec stationIds) (station 65) filling).frozenCharge := by
  obtain ⟨hfresh, hused, hheld, hfrozen, -⟩ := filling_end
  refine ⟨hfresh, ?_⟩
  rw [hused, hheld, hfrozen]
  decide

end PlcnextIot.Reporting
