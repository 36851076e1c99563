/-
  PlcnextIot.Reporting.SelectionRuns

  The selection over whole runs of the report engine.

  While no event is given up and the engine stays the same, the baseline of a point is
  its newest admitted event of the current epoch (`baselines_follow_admission`).
-/

import PlcnextIot.Reporting.Selection

namespace PlcnextIot.Reporting

open PlcnextIot.Python PlcnextIot.Config PlcnextIot.Points PlcnextIot.Effect PlcnextIot.Effect.Prog

/-! ## The baseline of an engine -/

/-- The events that were handed over. -/
def Engine.handedSamples (e : Engine) : List Sample := e.handed.flatMap (·.samples)

section Runs

variable [EventCharge] {admitted handed : List Sample}

/-- An engine of which it is known what was admitted and handed over. -/
structure Tracked (admitted handed : List Sample) (e : Engine) : Prop where
  sound : Sound e
  pointed : e.Pointed
  aligned : Aligned admitted handed e

/-- What a call has admitted and handed over. -/
structure Tracks (admitted handed : List Sample) (e e' : Engine) (new : List Sample)
    (batches : List ReportBatch) : Prop where
  admits : e'.admitted = e.admitted ++ new
  hands : e'.handed = e.handed ++ batches
  tracked : Tracked (admitted ++ new) (handed ++ batches.flatMap (·.samples)) e'
  together : ∀ t, (t ∈ e'.owned.values ∨ t ∈ handed ++ batches.flatMap (·.samples)) ↔
    ((t ∈ e.owned.values ∨ t ∈ handed) ∨ t ∈ new)

/-- A call that leaves the owned events and what was handed over. -/
theorem Tracks.nothing {e e' : Engine} (hsound : Sound e') (hpointed : e'.Pointed)
    (haligned : Aligned admitted handed e') (hadmitted : e'.admitted = e.admitted)
    (hhanded : e'.handed = e.handed) (howned : e'.owned = e.owned) :
    Tracks admitted handed e e' [] [] := by
  refine ⟨by rw [hadmitted, List.append_nil], by rw [hhanded, List.append_nil], ?_, fun t => ?_⟩
  · rw [List.flatMap_nil, List.append_nil, List.append_nil]
    exact ⟨hsound, hpointed, haligned⟩
  · rw [List.flatMap_nil, List.append_nil, howned]
    exact (or_iff_left List.not_mem_nil).symm

/-- The selection's maps are as before, apart from the baselines. -/
structure Beside (e e' : Engine) : Prop where
  maps : ∃ baselines, e'.maps = { e.maps with baselines }
  policy : e'.policy = e.policy
  attached : e'.attached = e.attached
  offered : e'.offered = e.offered

variable [Footprint] [FloatArith]

/-- What else a call does. -/
def Moves (c : EngineCall) (e : Engine) (r : Except EngineExc (List ReportBatch)) (e' : Engine)
    (new : List Sample) : Prop :=
  match c with
  | .configure snapshot now generation => Configures e snapshot now generation e' ∧ new = []
  | .accept s => ∃ answer, Accepts e s answer e' ∧ answer.map (fun _ => []) = r
  | _ => Beside e e' ∧ new = []

/-- The outcome of a call. -/
def Outcome (admitted handed : List Sample) (c : EngineCall) (e : Engine)
    (r : Except EngineExc (List ReportBatch)) (e' : Engine) : Prop :=
  ∃ new batches, Tracks admitted handed e e' new batches ∧ Moves c e r e' new

/-- A sample was offered. -/
theorem Tracked.accepted {e e' : Engine} {s : Sample} {answer : Except EngineExc Bool}
    (h : Tracked admitted handed e) (ha : Accepts e s answer e') (hsound : Sound e')
    (hfresh : ∀ t ∈ e.offered, seqOf t < seqOf s) (honward : Current e s → Onward admitted e s) :
    Outcome admitted handed (.accept s) e (answer.map fun _ => []) e' := by
  have hpointed := (ha.decides h.sound hfresh h.pointed).2.2.1
  have hadmits : ∀ new, Admits admitted handed e e' new → Tracks admitted handed e e' new [] := by
    rintro new ⟨hadmitted, hhanded, haligned, howned⟩
    refine ⟨hadmitted, by rw [hhanded, List.append_nil], ?_, fun t => ?_⟩
    · rw [List.flatMap_nil, List.append_nil]
      exact ⟨hsound, hpointed, haligned⟩
    · rw [List.flatMap_nil, List.append_nil, howned, or_right_comm]
  rcases ha.aligned h.aligned h.sound hfresh honward with hnone | ⟨-, hone⟩
  · exact ⟨[], [], hadmits [] hnone, answer, ha, rfl⟩
  · exact ⟨[s], [], hadmits [s] hone, answer, ha, rfl⟩

omit [Footprint] [FloatArith] in
/-- Freezing batches leaves the selection. -/
theorem Tracked.shelved {e e' : Engine} (h : Tracked admitted handed e) (hsound : Sound e')
    (hshelves : Shelves e e') : Tracks admitted handed e e' [] [] ∧ Beside e e' := by
  have haligned := hshelves.aligned h.aligned
  obtain ⟨_, _, _, _, _, _, _, _, _, _, rfl⟩ := hshelves
  exact ⟨.nothing hsound h.pointed haligned rfl rfl rfl, ⟨e.maps.baselines, rfl⟩, rfl, rfl, rfl⟩

omit [Footprint] [FloatArith] in
/-- Handing a batch over moves its events. -/
theorem Tracked.handedOver {e e' : Engine} {batch : ReportBatch} (h : Tracked admitted handed e)
    (hsound : Sound e') (hhands : HandsOver admitted handed e batch e') :
    Tracks admitted handed e e' [] [batch] ∧ Beside e e' := by
  obtain ⟨haligned, hbatches, htogether, hrest⟩ := hhands
  obtain ⟨baselines, _, _, _, _, _, _, _, _, rfl⟩ := hrest
  refine ⟨⟨(List.append_nil _).symm, hbatches, ?_, fun t => ?_⟩, ⟨baselines, rfl⟩, rfl, rfl, rfl⟩
  · rw [List.flatMap_singleton, List.append_nil]
    exact ⟨hsound, h.pointed, haligned⟩
  · rw [List.flatMap_singleton, htogether]
    exact (or_iff_left List.not_mem_nil).symm

/-- Every call keeps track of the events, unless `prepare` found no place for a batch in
    the accounting. -/
theorem step_tracked (inp : EngineInputs) (c : EngineCall) {e : Engine}
    (h : Tracked admitted handed e) (hreports : c.Reports) (hfresh : Fresh e c)
    (honward : Advances admitted e c) :
    wp (c.exec inp) (fun b e' => Outcome admitted handed c e (.ok b) e')
      (fun err e' => (∃ text, err = .runtime text) ∨ Outcome admitted handed c e (.error err) e') e := by
  cases c with
  | configure snapshot now generation =>
      rw [EngineCall.exec, wp_bind]
      refine (configure_sound snapshot now generation h.sound).mono ?_ fun _ _ hf => hf.elim
      rintro - e' ⟨hsound, hconfigures⟩
      refine ⟨[], [], ?_, hconfigures, rfl⟩
      rw [Configures] at hconfigures
      split at hconfigures
      · subst hconfigures
        exact .nothing hsound h.pointed h.aligned rfl rfl rfl
      · next hnew =>
          obtain ⟨refs, usedBytes, rfl⟩ := hconfigures
          have haligned := h.aligned.configured now h.sound.recorded hnew
          exact .nothing hsound rfl (haligned.congr (fun _ ht => ht) rfl rfl rfl rfl rfl rfl)
            rfl rfl rfl
  | accept s =>
      rw [EngineCall.exec, wp_bind]
      refine (accept_sound h.sound hfresh).mono ?_ ?_
      · rintro answer e' ⟨ha, hsound⟩
        exact h.accepted ha hsound hfresh honward
      · rintro err e' ⟨-, ha, hsound⟩
        exact .inr (h.accepted ha hsound hfresh honward)
  | openGate watermark =>
      have hgate := openGate_sound watermark h.sound
      rw [openGate, wp_modify] at hgate
      rw [EngineCall.exec, wp_bind, openGate, wp_modify]
      exact ⟨[], [], .nothing hgate.1 h.pointed
        (h.aligned.congr (fun _ ht => ht) rfl rfl rfl rfl rfl rfl) rfl rfl rfl,
        ⟨⟨e.maps.baselines, rfl⟩, rfl, rfl, rfl⟩, rfl⟩
  | prepare now wallMs force =>
      refine (prepare_shelves inp now wallMs force h.sound).mono ?_ ?_
      · rintro batches e' ⟨hsound, hshelves⟩
        obtain ⟨htracks, hbeside⟩ := h.shelved hsound hshelves
        exact ⟨[], [], htracks, hbeside, rfl⟩
      · rintro err e' ⟨-, hcause⟩
        refine hcause.imp id ?_
        rintro ⟨hsound, hshelves⟩
        obtain ⟨htracks, hbeside⟩ := h.shelved hsound hshelves
        exact ⟨[], [], htracks, hbeside, rfl⟩
  | committed batch =>
      rw [EngineCall.exec, wp_bind]
      refine (committed_aligned batch h.sound h.aligned).mono ?_ fun _ _ hf => hf.elim
      rintro - e' ⟨hsound, hhands⟩
      split at hhands
      · obtain ⟨htracks, hbeside⟩ := h.handedOver hsound hhands
        exact ⟨[], [batch], htracks, hbeside, rfl⟩
      · subst hhands
        exact ⟨[], [], .nothing hsound h.pointed h.aligned rfl rfl rfl,
          ⟨⟨_, rfl⟩, rfl, rfl, rfl⟩, rfl⟩
  | abandon => exact hreports.elim
  | reload => exact hreports.elim
  | share accounting =>
      refine ⟨[], [], .nothing ?_ h.pointed
        (h.aligned.congr (fun _ ht => ht) rfl rfl rfl rfl rfl rfl) rfl rfl rfl,
        ⟨⟨e.maps.baselines, rfl⟩, rfl, rfl, rfl⟩, rfl⟩
      exact ⟨⟨h.sound.booked.counted, h.sound.booked.used⟩, ⟨h.sound.fits.events, h.sound.fits.used⟩,
        h.sound.queued.congr rfl rfl rfl rfl rfl rfl le_rfl,
        h.sound.recorded.fewer rfl (fun _ ht => ht) h.sound.recorded.scheduled rfl rfl rfl rfl rfl
          fun hno => (h.sound.recorded.detached hno).congr rfl rfl rfl rfl rfl rfl⟩

/-- The same of a step of a run. -/
theorem perform_tracked (inp : EngineInputs) {c : EngineCall} {e : Engine}
    (h : Tracked admitted handed e) (hreports : c.Reports) (hfresh : Fresh e c)
    (honward : Advances admitted e c) (hplaced : Placed (perform (EngineCall.exec inp) e c)) :
    Outcome admitted handed c e (perform (EngineCall.exec inp) e c).result
      (perform (EngineCall.exec inp) e c).after := by
  obtain ⟨hok, herror⟩ := perform_spec (step_tracked inp c h hreports hfresh honward)
  cases hresult : (perform (EngineCall.exec inp) e c).result with
  | ok b => exact hok b hresult
  | error err =>
      rcases herror err hresult with ⟨text, rfl⟩ | hout
      · exact absurd hresult (hplaced.ne_runtime text)
      · exact hout

omit [Footprint] [FloatArith] in
/-- Events of which there is a record are told apart by their numbers. -/
theorem Tracked.distinct {e : Engine} (h : Tracked admitted handed e) {s t : Sample}
    (hs : s ∈ admitted) (ht : t ∈ admitted) (he : seqOf s = seqOf t) : s = t :=
  eq_of_seq h.sound.recorded.increasing (h.aligned.known s hs) (h.aligned.known t ht) he

/-- `accept` decides as the policy does. -/
theorem Tracked.decides {e e' : Engine} {s : Sample} {r : Except EngineExc (List ReportBatch)}
    {new : List Sample} (h : Tracked admitted handed e) (hfresh : Fresh e (.accept s))
    (hmoves : Moves (.accept s) e r e' new) :
    decided e s r e' = e.policy.decide e.selection s ∧ e'.policy = e.policy ∧
      ((timely s → e.eligibleEvents < e'.eligibleEvents → e'.admitted ≠ e.admitted) →
        e'.selection = (e.policy.offer e.selection s).2) := by
  obtain ⟨answer, ha, hanswer⟩ := hmoves
  obtain ⟨hdecided, hpolicy, -, hselection⟩ := ha.decides h.sound hfresh h.pointed
  refine ⟨?_, hpolicy, hselection⟩
  rw [← hdecided, ← hanswer]
  cases answer <;> rfl

/-! ### No event is given up -/

/-- An engine of which every admitted event is owned or was handed over. -/
structure Based (e : Engine) : Prop where
  tracked : Tracked e.admitted e.handedSamples e
  kept : ∀ s ∈ e.admitted, s ∈ e.owned.values ∨ s ∈ e.handedSamples

omit [Footprint] [FloatArith] in
/-- The baseline of a point is its newest admitted event of the epoch. -/
theorem Based.baseline {e : Engine} (h : Based e) (key : Key) :
    Newest (fun s => s ∈ e.admitted ∧ e.maps.holds key s) (e.baseline key) := by
  have haligned := h.tracked.aligned
  refine (haligned.baseline key).congr fun s => and_congr_left fun _ => ⟨h.kept s, fun hs => ?_⟩
  exact hs.elim (haligned.owned s) (haligned.delivered s)

omit [Footprint] [FloatArith] in
theorem Based.next {e e' : Engine} {new : List Sample} {batches : List ReportBatch} (h : Based e)
    (htracks : Tracks e.admitted e.handedSamples e e' new batches) : Based e' := by
  have hsamples : e'.handedSamples = e.handedSamples ++ batches.flatMap (·.samples) := by
    rw [Engine.handedSamples, htracks.hands, List.flatMap_append]
    rfl
  refine ⟨?_, fun s hs => ?_⟩
  · rw [htracks.admits, hsamples]
    exact htracks.tracked
  · rw [hsamples, htracks.together]
    rw [htracks.admits] at hs
    exact (List.mem_append.mp hs).imp (h.kept s) id

omit [Footprint] [FloatArith] in
/-- The baseline changes only with the admitted events and the epoch. -/
theorem Based.steady {e e' : Engine} (h : Based e) (h' : Based e')
    (hadmitted : e'.admitted = e.admitted) {key : Key}
    (hepoch : e'.maps.epochs.get? key = e.maps.epochs.get? key) : e'.baseline key = e.baseline key := by
  have hnewest := h'.baseline key
  rw [hadmitted] at hnewest
  refine hnewest.unique ((h.baseline key).congr fun s => and_congr_right fun _ => ?_)
    fun s t hs ht he => h.tracked.distinct hs.1 ht.1 he
  rw [Maps.holds, Maps.within, Maps.holds, Maps.within]
  refine and_congr_right fun hs => ?_
  rw [hs, hepoch]

/-- What a step compares a sample with, and what it leaves as it was. -/
structure Compares (st : EngineStep) : Prop where
  /-- The baseline of a point is its newest admitted event of the epoch. -/
  newest : ∀ key, Newest (fun t => t ∈ st.after.admitted ∧ st.after.maps.holds key t)
    (st.after.baseline key)
  /-- A sample is compared with the newest event of its point and its epoch that was
      admitted before it, and with nothing else. -/
  compared : ∀ s, st.call = .accept s → Current st.before s → ∃ baseline due,
    Newest (fun t => t ∈ st.before.admitted ∧ keyOf t = keyOf s ∧ epochOf t = epochOf s) baseline ∧
      ∀ p, st.before.points.get? (keyOf s) = some p →
        judge baseline due s p = ((decided st.before s st.result st.after).result,
          (decided st.before s st.result st.after).missed)
  /-- A sample that is not admitted leaves the baselines, apart from that of a point whose
      epoch it ends. -/
  refused : ∀ s, st.call = .accept s → st.after.admitted = st.before.admitted → ∀ key,
    st.after.maps.epochs.get? key = st.before.maps.epochs.get? key →
      st.after.baseline key = st.before.baseline key
  /-- The gate and the batches leave the baselines. -/
  passed : (∀ s, st.call ≠ .accept s) →
    (∀ snapshot now generation, st.call ≠ .configure snapshot now generation) → ∀ key,
      st.after.baseline key = st.before.baseline key

/-- The baselines follow the admission: in every run of an engine with samples in the
    order of their capture, no point coming back to an epoch in which it had an event
    admitted, and a place in the accounting for each frozen batch, each sample is
    compared with the newest event of its point that was admitted in its epoch. -/
theorem baselines_follow_admission (inp : EngineInputs) (gateway bootId : PyStr)
    (capacity maxBytes : ℕ) (accounting : Accounting) (sequence : ℤ) (calls : List EngineCall)
    (hcalls : ∀ st ∈ trace (EngineCall.exec inp)
        ({ gateway, bootId, capacity, maxBytes, accounting, sequence } : Engine) calls,
      st.call.Reports ∧ Fresh st.before st.call ∧ Placed st ∧
        Advances st.before.admitted st.before st.call) :
    ∀ st ∈ trace (EngineCall.exec inp)
        ({ gateway, bootId, capacity, maxBytes, accounting, sequence } : Engine) calls,
      Compares st := by
  refine trace_forall (I := Based) ?_ ?_ hcalls
  · intro e c h hcall
    obtain ⟨hreports, hfresh, hplaced, honward⟩ : c.Reports ∧ Fresh e c ∧
      Placed (perform (EngineCall.exec inp) e c) ∧ Advances e.admitted e c := hcall
    obtain ⟨new, batches, htracks, hmoves⟩ := perform_tracked inp h.tracked hreports hfresh honward
      hplaced
    have h' := h.next htracks
    refine ⟨⟨h'.baseline, ?_, fun s _ hsame key hepoch => h.steady h' hsame hepoch, ?_⟩, h'⟩
    · rintro s (rfl : c = .accept s) (hcurrent : Current e s)
      have hlisted := h.tracked.aligned.listed
        (Bool.eq_true_of_not_eq_false (hcurrent.attached h.tracked.sound.recorded)) (honward hcurrent)
      refine ⟨((e.selection (keyOf s)).enter s).baseline,
        ((e.selection (keyOf s)).enter s).nextDue.getD 0, ?_, fun p hp => ?_⟩
      · rw [listed_enter]
        refine (hlisted.baseline (keyOf s)).congr fun t => ?_
        rw [listed_holds, if_pos rfl]
        refine and_congr_left fun _ => ⟨h.kept t, fun ht => ?_⟩
        exact ht.elim (h.tracked.aligned.owned t) (h.tracked.aligned.delivered t)
      · have hdecided := (h.tracked.decides hfresh hmoves).1
        have hp : e.points.get? (keyOf s) = some p := hp
        rw [Policy.decide, hcurrent.offer h.tracked.pointed hp] at hdecided
        rw [perform_before, hdecided]
        rfl
    · intro hno hno' key
      have hbeside : Beside e (perform (EngineCall.exec inp) e c).after ∧ new = [] := by
        cases c with
        | configure snapshot now generation => exact absurd rfl (hno' snapshot now generation)
        | accept s => exact absurd rfl (hno s)
        | openGate => exact hmoves
        | prepare => exact hmoves
        | committed => exact hmoves
        | abandon => exact hmoves
        | reload => exact hmoves
        | share => exact hmoves
      obtain ⟨hbeside, rfl⟩ := hbeside
      refine h.steady h' (htracks.admits.trans (List.append_nil _)) ?_
      obtain ⟨baselines, hmaps⟩ := hbeside.maps
      rw [hmaps]
  · refine ⟨⟨.start rfl rfl (.nothing rfl rfl rfl rfl rfl rfl) ⟨rfl, rfl, rfl, rfl, rfl, rfl⟩ rfl rfl
      List.Pairwise.nil fun _ _ h => (by cases h), rfl, ?_⟩, fun s hs => absurd hs List.not_mem_nil⟩
    exact ⟨fun s hs => absurd hs List.not_mem_nil, fun s hs => absurd hs List.not_mem_nil,
      fun s hs => absurd hs List.not_mem_nil, fun key => .of_empty fun s hs => (by cases hs.1),
      fun key => .of_empty fun s hs => (by cases hs.1), fun _ _ _ h => (by cases h)⟩

end Runs

/-- A run ends with its last step. -/
theorem trace_last {κ σ ε β : Type} (exec : κ → Prog σ ε β) (s : σ) {calls : List κ}
    (h : calls ≠ []) : ∃ st ∈ trace exec s calls, st.after = runCalls exec s calls := by
  rcases List.eq_nil_or_concat calls with rfl | ⟨cs, c, rfl⟩
  · exact absurd rfl h
  · refine ⟨perform exec (runCalls exec s cs) c, ?_, ?_⟩
    · rw [List.concat_eq_append, trace_append]
      exact List.mem_append_right _ (List.mem_singleton_self _)
    · rw [List.concat_eq_append, runCalls_append]
      rfl

/-! ### A station -/

attribute [local instance] Footprint.spacious flatCharge Drivers.FloatArith.rounded

/-- The readings of a station, with the first one handed over between the others. -/
def steadyCalls : List EngineCall :=
  [.configure (some switchConfig) 0 (some 1), .accept (reading 1), .accept (reading 2), .openGate 1,
    .prepare 0 0 true, .accept (jumped 3), .committed (readingBatch 1), .accept (jumped 4)]

theorem baselines_follow_admission_station :
    (∀ st ∈ trace (EngineCall.exec stationIds) (station 4) steadyCalls,
        st.call.Reports ∧ Fresh st.before st.call ∧ Placed st ∧
          Advances st.before.admitted st.before st.call) ∧
      ∀ st ∈ trace (EngineCall.exec stationIds) (station 4) steadyCalls, Compares st :=
  ⟨by decide +kernel, baselines_follow_admission stationIds (py "g") (py "b") 32768 (32 * 1024 * 1024)
    (station 4).accounting 0 steadyCalls (by decide +kernel)⟩

/-- A reading whose time is not known. -/
def untimed (n : ℕ) : Sample := { reading n with timestamp := none }

/-- The clock jumps, and jumps back. -/
def jumpingBack : List EngineCall :=
  [.configure (some switchConfig) 0 (some 1), .accept (reading 1), .accept (jumped 2)]

section Missing

variable [FloatArith]

theorem Compares.unknown {st : EngineStep} (h : Compares st) (key : Key) {s : Sample}
    (hnone : st.after.baseline key = none) (hs : s ∈ st.after.admitted) :
    ¬ st.after.maps.holds key s := by
  have hnewest := h.newest key
  rw [hnone] at hnewest
  exact fun hholds => hnewest s ⟨hs, hholds⟩

/-- The baseline of a point is an event of an epoch that the point is not in. -/
theorem left_epoch {st : EngineStep} {e : Engine} {key : Key} {s : Sample} {epoch : Epoch}
    (hafter : st.after = e) (hbaseline : e.baseline key = some s)
    (hepoch : e.maps.epochs.get? key = some epoch) (hkey : keyOf s = key) (hother : epoch ≠ epochOf s) :
    ¬ Compares st := by
  intro h
  have hnewest := h.newest key
  rw [hafter, hbaseline] at hnewest
  have hwithin : e.maps.within s := hnewest.1.2.2
  rw [Maps.within, hkey, hepoch] at hwithin
  exact hother (Option.some.inj hwithin)

end Missing

/-- A point that comes back to an epoch has lost the event that was admitted in it; and
    after a batch for which the accounting had no place, a point may keep the event of an
    epoch that it has left. -/
theorem baseline_of_other_epoch :
    ((∀ st ∈ trace (EngineCall.exec stationIds) (station 3) (jumpingBack ++ [.accept (untimed 3)]),
        st.call.Reports ∧ Fresh st.before st.call ∧ Placed st) ∧
      ∃ st ∈ trace (EngineCall.exec stationIds) (station 3) (jumpingBack ++ [.accept (untimed 3)]),
        ¬ Compares st) ∧
    (∀ st ∈ trace (EngineCall.exec stationIds) (station 65) (filling ++ relapsing),
        st.call.Reports ∧ Fresh st.before st.call ∧ Advances st.before.admitted st.before st.call) ∧
      ∃ st ∈ trace (EngineCall.exec stationIds) (station 65) (filling ++ relapsing),
        ¬ Compares st := by
  obtain ⟨⟨hfilling, -⟩, hrelapsing, hepoch, hbaseline⟩ := relapse_end
  refine ⟨⟨by decide +kernel, perform (EngineCall.exec stationIds)
    (runCalls (EngineCall.exec stationIds) (station 3) jumpingBack) (.accept (untimed 3)), ?_,
    fun h => ?_⟩, ?_, ?_⟩
  · rw [trace_append]
    exact List.mem_append_right _ (List.mem_singleton_self _)
  · exact h.unknown (py "d", py "p") (s := reading 1) (by decide +kernel) (by decide +kernel)
      ⟨by decide +kernel, by decide +kernel⟩
  · rw [trace_append]
    intro st hst
    rcases List.mem_append.mp hst with hst | hst
    · exact hfilling st hst
    · exact hrelapsing st hst
  · have hne : filling ++ relapsing ≠ [] := fun hnil => by cases (List.append_eq_nil_iff.mp hnil).2
    obtain ⟨st, hst, hafter⟩ := trace_last (EngineCall.exec stationIds) (station 65) hne
    have hend : st.after = runCalls (EngineCall.exec stationIds) overfull relapsing :=
      hafter.trans (runCalls_append _ _ _)
    exact ⟨st, hst, left_epoch hend hbaseline hepoch (by decide +kernel) (by decide +kernel)⟩

end PlcnextIot.Reporting
