/-
  PlcnextIot.Reporting.Reload

  A new report engine on the boot context of the one before it.

  When the settings change, the service closes its engine, which gives up what it still
  owns, and makes a new one for the same process.  `Boot` follows the engines of a
  process that report the same configuration; a `cut` closes one and starts the next.

  `reload_transparent` says what a cut does to the selection: nothing, if every admitted
  event was handed over before it, and otherwise each point goes on from its newest
  event that was handed over.
-/

import PlcnextIot.Reporting.SelectionRuns

namespace PlcnextIot.Reporting

open PlcnextIot.Python PlcnextIot.Config PlcnextIot.Points PlcnextIot.Effect PlcnextIot.Effect.Prog

/-! ## The engines of a process -/

/-- An engine, with what it and the engines before it have admitted and handed over. -/
structure Boot where
  engine : Engine
  admitted : List Sample := []
  handed : List Sample := []

/-- The record of an engine is brought up to date. -/
def Boot.advance (b : Boot) (e : Engine) : Boot where
  engine := e
  admitted := b.admitted ++ e.admitted.drop b.engine.admitted.length
  handed := b.handed ++ (e.handed.drop b.engine.handed.length).flatMap (·.samples)

/-- A call of the engine, or its replacement. -/
inductive Turn where
  | call (c : EngineCall)
  | cut (now : ℚ)

/-- The sample that is offered. -/
def Turn.sample : Turn → Option Sample
  | .call (.accept s) => some s
  | _ => none

section Exec

variable [EventCharge] [Footprint] [FloatArith]

/-- The engine is closed, and the next one configured as it was. -/
def replaceEngine (snapshot : ConfigSnapshot) (generation : Option ℤ) (now : ℚ) :
    EngineM (List ReportBatch) := do
  let _ ← abandon
  modify Engine.reload
  configure (some snapshot) now generation
  return []

def Turn.exec (inp : EngineInputs) (snapshot : ConfigSnapshot) (generation : Option ℤ) (t : Turn) :
    Prog Boot EngineExc (List ReportBatch) :=
  zoom Boot.engine Boot.advance <|
    match t with
    | .call c => c.exec inp
    | .cut now => replaceEngine snapshot generation now

end Exec

abbrev BootStep := Step Turn Boot EngineExc (List ReportBatch)

/-- What `accept` decided in a step. -/
def decisionOf (st : BootStep) : Option Decision :=
  st.call.sample.map fun s => decided st.before.engine s st.result st.after.engine

/-! ## The conditions -/

/-- The call is one of those that an engine gets while it reports. -/
def EngineCall.Works : EngineCall → Prop
  | .configure .. => False
  | .abandon => False
  | .reload => False
  | _ => True

instance (c : EngineCall) : Decidable c.Works :=
  match c with
  | .configure .. => .isFalse id
  | .abandon => .isFalse id
  | .reload => .isFalse id
  | .accept _ => .isTrue trivial
  | .openGate _ => .isTrue trivial
  | .prepare .. => .isTrue trivial
  | .committed _ => .isTrue trivial
  | .share _ => .isTrue trivial

/-- Samples come in the order of their capture, and the accounting has a place for each
    frozen batch. -/
def Orderly (st : BootStep) : Prop :=
  match st.call with
  | .call c => c.Works ∧ Fresh st.before.engine c ∧
      Placed ⟨st.before.engine, c, st.result, st.after.engine⟩
  | .cut _ => True

instance (st : BootStep) : Decidable (Orderly st) := by
  unfold Orderly
  split <;> infer_instance

/-- No point comes back to an epoch in which it had an event admitted. -/
def Forward (st : BootStep) : Prop :=
  match st.call with
  | .call c => Advances st.before.admitted st.before.engine c
  | .cut _ => True

instance (st : BootStep) : Decidable (Forward st) := by
  unfold Forward
  split <;> infer_instance

/-- A timely event that is selected is admitted. -/
def Unrefused (st : BootStep) : Prop :=
  ∀ s ∈ st.call.sample, timely s →
    st.before.engine.eligibleEvents < st.after.engine.eligibleEvents →
      st.after.engine.admitted ≠ st.before.engine.admitted

instance (st : BootStep) : Decidable (Unrefused st) := by
  unfold Unrefused
  infer_instance

/-- Every admitted event was handed over before the engine is replaced. -/
def Settled (st : BootStep) : Prop :=
  match st.call with
  | .call _ => True
  | .cut _ => st.before.engine.owned.items = []

instance (st : BootStep) : Decidable (Settled st) := by
  unfold Settled
  split <;> infer_instance

/-! ## What a turn does -/

section Turns

variable [EventCharge] {admitted handed : List Sample}

/-- A replaced engine has the maps of the one before it, and owns nothing. -/
theorem replaceEngine_spec [Footprint] {e : Engine} {snapshot : ConfigSnapshot}
    {generation : Option ℤ} (now : ℚ) (h : Tracked admitted handed e)
    (hattached : e.attached = true) (hsnapshot : e.snapshot = some snapshot)
    (hgeneration : e.generation = generation) :
    wp (replaceEngine snapshot generation now)
      (fun _ e' => Tracked admitted handed e' ∧ e'.maps = e.maps ∧ e'.shadows = .empty ∧
        e'.owned = .empty ∧ e'.policy = e.policy ∧ e'.attached = true ∧ e'.admitted = [] ∧
        e'.handed = [])
      (fun _ _ => False) e := by
  rw [replaceEngine, wp_bind]
  refine (abandon_sound h.sound).mono ?_ fun _ _ hf => hf
  rintro - e₁ ⟨hsound₁, refs₁, usedBytes₁, he₁⟩
  rw [wp_bind, wp_modify, wp_bind]
  refine (configure_sound (some snapshot) now generation hsound₁.reload).mono ?_ fun _ _ hf => hf
  rintro - e' ⟨hsound, hconfigures⟩
  have hnew : ¬ (some snapshot = e₁.reload.snapshot ∧ generation = e₁.reload.generation) :=
    fun hsame => by cases hsame.1
  rw [Configures, if_neg hnew] at hconfigures
  obtain ⟨refs, usedBytes, rfl⟩ := hconfigures
  -- the checkpoint is for this configuration, and holds the maps
  have hmaps : (e₁.reload.configured (some snapshot) now generation).maps = e.maps := by
    obtain ⟨m, hm⟩ := h.sound.recorded.identified hattached
    rw [hsnapshot, hgeneration] at hm
    have hcurrent : e₁.reload.current = some ((some snapshot, generation), e.maps) := by
      have hbefore : e₁.current = some ((some snapshot, generation), e.maps) := by
        rw [he₁]
        show (if e.attached then e.checkpoint.map fun c => (c.1, e.maps) else e.checkpoint) = _
        rw [if_pos hattached, hm]
        rfl
      exact hbefore
    show e₁.reload.resume (some snapshot, generation) = e.maps
    rw [Engine.resume, hcurrent]
    exact if_pos rfl
  have hoffered : e₁.reload.offered = e.offered := by
    rw [he₁]
    rfl
  have hpolicy : (⟨e₁.reload.gateway, e₁.reload.bootId, some snapshot, generation⟩ : Policy) =
      e.policy := by
    rw [he₁, ← hgeneration, ← hsnapshot]
    rfl
  refine ⟨⟨hsound, rfl, ?_⟩, hmaps, rfl, rfl, hpolicy, rfl, rfl, rfl⟩
  refine ⟨fun s hs => ?_, fun s hs => absurd hs List.not_mem_nil, h.aligned.delivered,
    fun key => .of_empty fun s hs => absurd hs.1 List.not_mem_nil, ?_,
    fun hno => Bool.noConfusion hno⟩
  · show s ∈ e₁.reload.offered
    rw [hoffered]
    exact h.aligned.known s hs
  · show (e₁.reload.configured (some snapshot) now generation).maps.durable handed
    rw [hmaps]
    exact h.aligned.durable

/-- The engine reports the configuration of the process, and it is known what was
    admitted and handed over. -/
structure Serving (π : Policy) (b : Boot) : Prop where
  tracked : Tracked b.admitted b.handed b.engine
  policy : b.engine.policy = π
  attached : b.engine.attached = true

/-- A call that is neither `accept` nor `configure` leaves the selection. -/
theorem Tracks.selection {e e' : Engine} {batches : List ReportBatch}
    (h : Tracked admitted handed e) (htracks : Tracks admitted handed e e' [] batches)
    (hbeside : Beside e e') : e'.selection = e.selection := by
  obtain ⟨baselines, hmaps⟩ := hbeside.maps
  funext key
  have hbaseline : e'.baseline key = e.baseline key := by
    refine (htracks.tracked.aligned.baseline key).unique ((h.aligned.baseline key).congr fun s => ?_)
      fun s t hs ht he => htracks.tracked.distinct ?_ ?_ he
    · rw [htracks.together, Maps.holds, Maps.within, hmaps]
      exact and_congr_left fun _ => or_iff_left List.not_mem_nil
    · exact hs.1.elim (htracks.tracked.aligned.owned s) (htracks.tracked.aligned.delivered s)
    · exact ht.1.elim (htracks.tracked.aligned.owned t) (htracks.tracked.aligned.delivered t)
  rw [Engine.selection, hbaseline, hmaps]
  rfl

variable [Footprint] [FloatArith] {inp : EngineInputs} {snapshot : ConfigSnapshot}
  {generation : Option ℤ} {gateway bootId : PyStr}

/-- The step of a call, seen from its engine. -/
theorem perform_turn (b : Boot) (c : EngineCall) :
    perform (Turn.exec inp snapshot generation) b (.call c) =
      ⟨b, .call c, (perform (EngineCall.exec inp) b.engine c).result,
        b.advance (perform (EngineCall.exec inp) b.engine c).after⟩ := rfl

omit [Footprint] [FloatArith] in
theorem Boot.advance_eq {b : Boot} {e' : Engine} {new : List Sample} {batches : List ReportBatch}
    (h : Tracks admitted handed b.engine e' new batches) :
    b.advance e' = ⟨e', b.admitted ++ new, b.handed ++ batches.flatMap (·.samples)⟩ := by
  rw [Boot.advance, h.admits, h.hands, List.drop_left, List.drop_left]

/-- `accept` leaves the engine attached or not. -/
theorem Accepts.attached {e e' : Engine} {s : Sample} {r : Except EngineExc Bool}
    (h : Accepts e s r e') : e'.attached = e.attached := by
  cases h with
  | foreign => rfl
  | seen => rfl
  | unidentified => rfl
  | failed => rfl
  | concluded hcurrent hlatest hpoint hselects hconcludes =>
      obtain ⟨maps, missed, accounting, rfl, -⟩ := hselects.cyclic.beside
      cases hconcludes <;> rfl

/-- What a step does to the selection. -/
def Resumes (π : Policy) (st : BootStep) : Prop :=
  match st.call with
  | .call (.accept s) =>
    decided st.before.engine s st.result st.after.engine = π.decide st.before.engine.selection s ∧
      (Unrefused st → st.after.engine.selection = (π.offer st.before.engine.selection s).2)
  | .call _ => st.after.engine.selection = st.before.engine.selection
  | .cut _ => ∀ key,
    Newest (fun s => s ∈ st.before.handed ∧ st.after.engine.maps.holds key s)
        (st.after.engine.baseline key) ∧
      st.after.engine.selection key =
        { st.before.engine.selection key with baseline := st.after.engine.baseline key }

theorem Serving.step {b : Boot} (h : Serving ⟨gateway, bootId, some snapshot, generation⟩ b) (t : Turn)
    (horderly : Orderly (perform (Turn.exec inp snapshot generation) b t))
    (hforward : Forward (perform (Turn.exec inp snapshot generation) b t)) :
    Resumes ⟨gateway, bootId, some snapshot, generation⟩
        (perform (Turn.exec inp snapshot generation) b t) ∧
      Serving ⟨gateway, bootId, some snapshot, generation⟩
        (perform (Turn.exec inp snapshot generation) b t).after := by
  cases t with
  | call c =>
      obtain ⟨hworks, hfresh, hplaced⟩ := horderly
      have hreports : c.Reports := by
        cases c <;> first | exact trivial | exact hworks.elim
      obtain ⟨new, batches, htracks, hmoves⟩ := perform_tracked inp h.tracked hreports hfresh hforward
        hplaced
      rw [perform_turn, Boot.advance_eq htracks]
      -- what is left to show of a call that passes the selection by
      have hpasses : Beside b.engine (perform (EngineCall.exec inp) b.engine c).after ∧ new = [] →
          (perform (EngineCall.exec inp) b.engine c).after.selection = b.engine.selection ∧
            Serving ⟨gateway, bootId, some snapshot, generation⟩
              ⟨(perform (EngineCall.exec inp) b.engine c).after, b.admitted ++ new,
                b.handed ++ batches.flatMap (·.samples)⟩ := by
        rintro ⟨hbeside, rfl⟩
        exact ⟨htracks.selection h.tracked hbeside, htracks.tracked, hbeside.policy.trans h.policy,
          hbeside.attached.trans h.attached⟩
      cases c with
      | configure => exact hworks.elim
      | abandon => exact hworks.elim
      | reload => exact hworks.elim
      | openGate => exact hpasses hmoves
      | prepare => exact hpasses hmoves
      | committed => exact hpasses hmoves
      | share => exact hpasses hmoves
      | accept s =>
          obtain ⟨hdecided, hpolicy, hselection⟩ := h.tracked.decides hfresh hmoves
          rw [h.policy] at hdecided hpolicy hselection
          refine ⟨⟨hdecided, fun hunrefused => hselection ?_⟩, htracks.tracked, hpolicy, ?_⟩
          · exact hunrefused s rfl
          · obtain ⟨answer, ha, -⟩ := hmoves
            exact ha.attached.trans h.attached
  | cut now =>
      have hsnapshot : b.engine.snapshot = some snapshot := congrArg Policy.snapshot h.policy
      have hgeneration : b.engine.generation = generation := congrArg Policy.generation h.policy
      have hcut := ((replaceEngine_spec now h.tracked h.attached hsnapshot hgeneration).mono
        (fun _ _ hq => hq) fun _ _ hf => hf.elim).final
      obtain ⟨htracked, hmaps, hshadows, howned, hpolicy, hattached, hadmitted, hhanded⟩ := hcut
      have hafter : (perform (Turn.exec inp snapshot generation) b (.cut now)).after =
          ⟨((replaceEngine snapshot generation now).run b.engine).2, b.admitted, b.handed⟩ := by
        show b.advance ((replaceEngine snapshot generation now).run b.engine).2 = _
        rw [Boot.advance, hadmitted, hhanded, List.drop_nil, List.drop_nil, List.append_nil,
          List.flatMap_nil, List.append_nil]
      rw [hafter]
      refine ⟨fun key => ?_, htracked, hpolicy.trans h.policy, hattached⟩
      rw [hafter]
      refine ⟨htracked.aligned.baseline_handed key (by rw [howned]; rfl), ?_⟩
      simp only [Engine.selection, hmaps, perform_before]

/-- An engine that has handed everything over is replaced without a trace. -/
theorem Serving.settled {π : Policy} {b : Boot} (h : Serving π b) {now : ℚ}
    (hsettled : b.engine.owned.items = [])
    (hresumes : Resumes π (perform (Turn.exec inp snapshot generation) b (.cut now))) :
    (perform (Turn.exec inp snapshot generation) b (.cut now)).after.engine.selection =
      b.engine.selection := by
  funext key
  obtain ⟨hnewest, hselection⟩ := hresumes key
  rw [perform_before] at hnewest hselection
  have hepoch : (perform (Turn.exec inp snapshot generation) b (.cut now)).after.engine.maps.epochs.get?
      key = b.engine.maps.epochs.get? key := congrArg Selection.epoch hselection
  have hbaseline : (perform (Turn.exec inp snapshot generation) b (.cut now)).after.engine.baseline key =
      b.engine.baseline key := by
    refine hnewest.unique ((h.tracked.aligned.baseline_handed key hsettled).congr fun s =>
      and_congr_right fun _ => ?_) fun s t hs ht he => h.tracked.distinct
        (h.tracked.aligned.delivered s hs.1) (h.tracked.aligned.delivered t ht.1) he
    rw [Maps.holds, Maps.within, Maps.holds, Maps.within]
    refine and_congr_right fun hs => ?_
    rw [hs, hepoch]
  rw [hselection, hbaseline]
  rfl

/-- A step without a sample decides nothing. -/
theorem decisions_skip {π : Policy} {b : Boot} {t : Turn} {rest : List Turn} (hnone : t.sample = none)
    (hsame : (perform (Turn.exec inp snapshot generation) b t).after.engine.selection =
      b.engine.selection)
    (hrest : (trace (Turn.exec inp snapshot generation)
        (perform (Turn.exec inp snapshot generation) b t).after rest).filterMap decisionOf =
      π.decisions (perform (Turn.exec inp snapshot generation) b t).after.engine.selection
        (rest.filterMap Turn.sample)) :
    (trace (Turn.exec inp snapshot generation) b (t :: rest)).filterMap decisionOf =
      π.decisions b.engine.selection ((t :: rest).filterMap Turn.sample) := by
  have hdecision : decisionOf (perform (Turn.exec inp snapshot generation) b t) = none := by
    rw [decisionOf, perform_call, hnone]
    rfl
  rw [trace, List.filterMap_cons_none hdecision, List.filterMap_cons_none hnone, hrest, hsame]

/-- The decisions of a run are those of the policy. -/
theorem Serving.decisions {b : Boot} {turns : List Turn}
    (h : Serving ⟨gateway, bootId, some snapshot, generation⟩ b)
    (hturns : ∀ st ∈ trace (Turn.exec inp snapshot generation) b turns,
      Orderly st ∧ Forward st ∧ Unrefused st ∧ Settled st) :
    (trace (Turn.exec inp snapshot generation) b turns).filterMap decisionOf =
      Policy.decisions ⟨gateway, bootId, some snapshot, generation⟩ b.engine.selection
        (turns.filterMap Turn.sample) := by
  induction turns generalizing b with
  | nil => rfl
  | cons t rest ih =>
      obtain ⟨horderly, hforward, hunrefused, hsettled⟩ := hturns _ List.mem_cons_self
      obtain ⟨hresumes, hserving⟩ := h.step t horderly hforward
      have hrest := ih hserving fun st hst => hturns st (List.mem_cons_of_mem _ hst)
      cases t with
      | cut now => exact decisions_skip rfl (h.settled hsettled hresumes) hrest
      | call c =>
          cases c with
          | configure => exact decisions_skip rfl hresumes hrest
          | abandon => exact decisions_skip rfl hresumes hrest
          | reload => exact decisions_skip rfl hresumes hrest
          | openGate => exact decisions_skip rfl hresumes hrest
          | prepare => exact decisions_skip rfl hresumes hrest
          | committed => exact decisions_skip rfl hresumes hrest
          | share => exact decisions_skip rfl hresumes hrest
          | accept s =>
              obtain ⟨hdecided, hselection⟩ := hresumes
              rw [hselection hunrefused] at hrest
              rw [trace, List.filterMap_cons_some (f := decisionOf) rfl, hrest]
              exact congrArg (· :: _) hdecided

/-! ## Runs -/

/-- The first engine of a process, configured. -/
def Boot.start (gateway bootId : PyStr) (capacity maxBytes : ℕ) (accounting : Accounting)
    (sequence : ℤ) (snapshot : ConfigSnapshot) (generation : Option ℤ) (now : ℚ) : Boot where
  engine := ((configure (some snapshot) now generation).run
    { gateway, bootId, capacity, maxBytes, accounting, sequence }).2

omit [Footprint] [FloatArith] in
theorem Boot.start_serving (gateway bootId : PyStr) (snapshot : ConfigSnapshot)
    (generation : Option ℤ) (capacity maxBytes : ℕ) (accounting : Accounting) (sequence : ℤ) (now : ℚ) :
    Serving ⟨gateway, bootId, some snapshot, generation⟩
        (Boot.start gateway bootId capacity maxBytes accounting sequence snapshot generation now) ∧
      (Boot.start gateway bootId capacity maxBytes accounting sequence snapshot generation
        now).engine.selection = fun _ => ⟨none, 0, none, none⟩ := by
  have hsound : Sound ({ gateway, bootId, capacity, maxBytes, accounting, sequence } : Engine) :=
    .start rfl rfl (.nothing rfl rfl rfl rfl rfl rfl) ⟨rfl, rfl, rfl, rfl, rfl, rfl⟩ rfl rfl
      List.Pairwise.nil fun _ _ h => (by cases h)
  have hconfigures := ((configure_sound (some snapshot) now generation hsound).mono
    (fun _ _ hq => hq) fun _ _ hf => hf.elim).final
  obtain ⟨hsound', hconfigures⟩ := hconfigures
  rw [Configures, if_neg fun hsame => by cases hsame.1] at hconfigures
  obtain ⟨refs, usedBytes, he⟩ := hconfigures
  rw [Boot.start]
  rw [he] at hsound' ⊢
  refine ⟨⟨⟨hsound', rfl, ?_⟩, rfl, rfl⟩, rfl⟩
  exact ⟨fun s hs => absurd hs List.not_mem_nil, fun s hs => absurd hs List.not_mem_nil,
    fun s hs => absurd hs List.not_mem_nil, fun key => .of_empty fun s hs => (by cases hs.1),
    fun key => .of_empty fun s hs => (by cases hs.1), fun hno => Bool.noConfusion hno⟩

/-- A replaced engine goes on from what was handed over: the baseline of each point is its
    newest event of the epoch that was, and report slots and numbers stay consumed. -/
structure Recovers (st : BootStep) : Prop where
  baseline : ∀ key, Newest (fun s => s ∈ st.before.handed ∧ st.after.engine.maps.holds key s)
    (st.after.engine.baseline key)
  consumed : ∀ key, st.after.engine.selection key =
    { st.before.engine.selection key with baseline := st.after.engine.baseline key }

omit [Footprint] [FloatArith] [EventCharge] in
theorem Recovers.unknown {st : BootStep} (h : Recovers st) (key : Key) {s : Sample}
    (hnone : st.after.engine.baseline key = none) (hs : s ∈ st.before.handed) :
    ¬ st.after.engine.maps.holds key s := by
  have hbaseline := h.baseline key
  rw [hnone] at hbaseline
  exact fun hholds => hbaseline s ⟨hs, hholds⟩

/-- Replacing the engine is transparent to the selection: in every run of the engines of a
    process, with samples in the order of their capture and no point coming back to an
    epoch in which it had an event admitted, each engine goes on from what was handed
    over; and if everything was, then any other run over the same samples, with or without
    other engines, decides the same of each of them. -/
theorem reload_transparent (inp : EngineInputs) (gateway bootId : PyStr) (capacity maxBytes : ℕ)
    (accounting : Accounting) (sequence : ℤ) (snapshot : ConfigSnapshot) (generation : Option ℤ)
    (now : ℚ) (turns : List Turn)
    (hturns : ∀ st ∈ trace (Turn.exec inp snapshot generation)
        (Boot.start gateway bootId capacity maxBytes accounting sequence snapshot generation now) turns,
      Orderly st ∧ Forward st) :
    (∀ st ∈ trace (Turn.exec inp snapshot generation)
        (Boot.start gateway bootId capacity maxBytes accounting sequence snapshot generation now) turns,
      ∀ cutAt, st.call = .cut cutAt → Recovers st) ∧
    ∀ (inp' : EngineInputs) (capacity' maxBytes' : ℕ) (accounting' : Accounting) (sequence' : ℤ)
      (now' : ℚ) (turns' : List Turn),
      (∀ st ∈ trace (Turn.exec inp snapshot generation)
          (Boot.start gateway bootId capacity maxBytes accounting sequence snapshot generation now)
          turns, Unrefused st ∧ Settled st) →
      (∀ st ∈ trace (Turn.exec inp' snapshot generation)
          (Boot.start gateway bootId capacity' maxBytes' accounting' sequence' snapshot generation now')
          turns', Orderly st ∧ Forward st ∧ Unrefused st ∧ Settled st) →
      turns.filterMap Turn.sample = turns'.filterMap Turn.sample →
      (trace (Turn.exec inp snapshot generation)
          (Boot.start gateway bootId capacity maxBytes accounting sequence snapshot generation now)
          turns).filterMap decisionOf =
        (trace (Turn.exec inp' snapshot generation)
          (Boot.start gateway bootId capacity' maxBytes' accounting' sequence' snapshot generation now')
          turns').filterMap decisionOf := by
  obtain ⟨hserving, hselection⟩ := Boot.start_serving gateway bootId snapshot generation capacity
    maxBytes accounting sequence now
  refine ⟨?_, ?_⟩
  · refine trace_forall (I := Serving ⟨gateway, bootId, some snapshot, generation⟩) ?_ hserving hturns
    intro b t h hstep
    obtain ⟨hresumes, hnext⟩ := h.step t hstep.1 hstep.2
    refine ⟨?_, hnext⟩
    rintro cutAt (rfl : t = .cut cutAt)
    exact ⟨fun key => (hresumes key).1, fun key => (hresumes key).2⟩
  · intro inp' capacity' maxBytes' accounting' sequence' now' turns' hsettled hturns' hsame
    obtain ⟨hserving', hselection'⟩ := Boot.start_serving gateway bootId snapshot generation
      capacity' maxBytes' accounting' sequence' now'
    rw [hserving.decisions fun st hst => ⟨(hturns st hst).1, (hturns st hst).2, hsettled st hst⟩,
      hserving'.decisions hturns', hselection, hselection', hsame]

end Turns

/-! ### A station -/

attribute [local instance] Footprint.spacious flatCharge Drivers.FloatArith.rounded

/-- The station, configured, after it has captured these many readings. -/
def stationBoot (captured : ℕ) : Boot :=
  .start (py "g") (py "b") 32768 (32 * 1024 * 1024) (station captured).accounting 0 switchConfig
    (some 1) 0

/-- The first reading is handed over before the engine is replaced. -/
def replaced : List Turn :=
  [.call (.accept (reading 1)), .call (.prepare 0 0 true), .call (.committed (readingBatch 1)), .cut 0,
    .call (.accept (reading 2)), .call (.accept (reading 3))]

/-- The readings that the engines of `replaced` have got. -/
def unreplaced : List Turn :=
  [.call (.accept (reading 1)), .call (.accept (reading 2)), .call (.accept (reading 3))]

/-- The engine has handed over the first reading and holds the second one. -/
def holding : List Turn :=
  [.call (.accept (reading 1)), .call (.prepare 0 0 true), .call (.committed (readingBatch 1)),
    .call (.accept (reading 2))]

/-- It is replaced, and the second reading is abandoned. -/
def abandoning : List Turn := holding ++ [.cut 0, .call (.accept (reading 3))]

/-- A replaced engine changes no decision; and one that abandons a reading is followed by
    one that goes on from the reading before it. -/
theorem reload_transparent_station :
    (trace (Turn.exec stationIds switchConfig (some 1)) (stationBoot 3) replaced).filterMap decisionOf =
        (trace (Turn.exec stationIds switchConfig (some 1)) (stationBoot 3) unreplaced).filterMap
          decisionOf ∧
      ∃ st ∈ trace (Turn.exec stationIds switchConfig (some 1)) (stationBoot 3) abandoning,
        st.call = .cut 0 ∧ Recovers st ∧ ¬ Settled st ∧
          (st.before.engine.baseline (py "d", py "p")).bind (·.sampleSeq) = some 2 ∧
          (st.after.engine.baseline (py "d", py "p")).bind (·.sampleSeq) = some 1 := by
  constructor
  · exact (reload_transparent stationIds (py "g") (py "b") 32768 (32 * 1024 * 1024)
      (station 3).accounting 0 switchConfig (some 1) 0 replaced (by decide +kernel)).2 stationIds 32768
      (32 * 1024 * 1024) (station 3).accounting 0 0 unreplaced (by decide +kernel) (by decide +kernel)
      (by decide +kernel)
  · have hrecovers := (reload_transparent stationIds (py "g") (py "b") 32768 (32 * 1024 * 1024)
      (station 3).accounting 0 switchConfig (some 1) 0 abandoning (by decide +kernel)).1
    have hcut : perform (Turn.exec stationIds switchConfig (some 1))
        (runCalls (Turn.exec stationIds switchConfig (some 1)) (stationBoot 3) holding) (.cut 0) ∈
          trace (Turn.exec stationIds switchConfig (some 1)) (stationBoot 3) abandoning := by
      rw [abandoning, trace_append]
      exact List.mem_append_right _ List.mem_cons_self
    exact ⟨_, hcut, rfl, hrecovers _ hcut 0 rfl, by decide +kernel⟩

/-- The clock jumps, and jumps back. -/
def returning : List Turn :=
  [.call (.accept (reading 1)), .call (.prepare 0 0 true), .call (.committed (readingBatch 1)),
    .call (.accept (jumped 2)), .call (.accept (reading 3))]

/-- After a point came back to an epoch, the next engine does not know the event of that
    epoch that was handed over. -/
theorem returned_epoch_forgotten :
    (∀ st ∈ trace (Turn.exec stationIds switchConfig (some 1)) (stationBoot 3) (returning ++ [.cut 0]),
        Orderly st ∧ Unrefused st) ∧
      ∃ st ∈ trace (Turn.exec stationIds switchConfig (some 1)) (stationBoot 3) (returning ++ [.cut 0]),
        st.call = .cut 0 ∧ ¬ Recovers st := by
  refine ⟨by decide +kernel, perform (Turn.exec stationIds switchConfig (some 1))
    (runCalls (Turn.exec stationIds switchConfig (some 1)) (stationBoot 3) returning) (.cut 0), ?_, rfl,
    fun h => ?_⟩
  · rw [trace_append]
    exact List.mem_append_right _ (List.mem_singleton_self _)
  · exact h.unknown (py "d", py "p") (s := reading 1) (by decide +kernel)
      (by decide +kernel) ⟨by decide +kernel, by decide +kernel⟩

end PlcnextIot.Reporting
