/-
  PlcnextIot.Points.EventRuns

  Runs of `PointEvents`: activations, results and expiries of any number of runner
  objects over the sources of one boot.

  `Consistent` is the invariant.  Its first part is about contexts alone: a context
  has one source, and that source is found again until a newer generation is
  activated.  Its second part is that every source tracks the histories of its
  points.
-/

import PlcnextIot.Points.StateEvents

namespace PlcnextIot.Points

open PlcnextIot.Python PlcnextIot.Config PlcnextIot.Effect PlcnextIot.Effect.Prog

/-! ## Contexts -/

def Sampling.contexts (w : Sampling) : List SampleContext := w.sources.map (·.context)

theorem Sampling.contexts_getElem? {w : Sampling} {k : ℕ} {s : PointSource}
    (h : w.sources[k]? = some s) : w.contexts[k]? = some s.context := by
  rw [contexts, List.getElem?_map, h]
  rfl

/-- The owner of the sources of a context. -/
def SampleContext.owner (c : SampleContext) : PyStr × ℤ := (c.gatewayId, c.configVersion)

/-- A context may follow these: it is not older, and a generation belongs to one
    published configuration. -/
def Follows (contexts : List SampleContext) (c : SampleContext) : Prop :=
  ∀ old ∈ contexts, old.generation ≤ c.generation ∧
    (old.generation = c.generation → old.owner = c.owner ∧
      (old.device.deviceId = c.device.deviceId → old = c))

structure Registry (contexts : List SampleContext) (pointSources : Dict PyStr ℕ)
    (owner : Option (PyStr × ℤ)) : Prop where
  distinct : ∀ c ∈ contexts, (c.points.map (·.pointId)).Nodup
  unique : contexts.Nodup
  current : ∀ k c, contexts[k]? = some c →
    (pointSources.get? c.device.deviceId = some k ∧ owner = some c.owner) ∨
      ∃ newer ∈ contexts, c.generation < newer.generation

/-- A context that has a source and may be activated is found. -/
theorem Registry.found {contexts : List SampleContext} {pointSources : Dict PyStr ℕ}
    {owner : Option (PyStr × ℤ)} (h : Registry contexts pointSources owner) {c : SampleContext}
    (hc : Follows contexts c) {k : ℕ} (hk : contexts[k]? = some c) :
    pointSources.get? c.device.deviceId = some k ∧ owner = some c.owner := by
  rcases h.current k c hk with hfound | ⟨newer, hmem, hlt⟩
  · exact hfound
  · exact absurd hlt (not_lt.mpr (hc newer hmem).1)

/-- A new source is registered, over sources that are dropped when the owner changes. -/
theorem Registry.register {contexts : List SampleContext} {pointSources : Dict PyStr ℕ}
    {owner : Option (PyStr × ℤ)} (h : Registry contexts pointSources owner) {c : SampleContext}
    (hc : Follows contexts c) (hids : (c.points.map (·.pointId)).Nodup) (hnew : c ∉ contexts)
    {kept : Dict PyStr ℕ} (hkept : owner = some c.owner → kept = pointSources) :
    Registry (contexts ++ [c]) (kept.set c.device.deviceId contexts.length) (some c.owner) where
  distinct c' hc' := by
    rcases List.mem_append.mp hc' with hc' | hc'
    · exact h.distinct c' hc'
    · rw [List.mem_singleton.mp hc']
      exact hids
  unique := by
    rw [← List.concat_eq_append]
    exact h.unique.concat hnew
  current k c' hk := by
    rcases Nat.lt_trichotomy k contexts.length with hlt | rfl | hgt
    · rw [List.getElem?_append_left hlt] at hk
      have hmem : c' ∈ contexts := List.mem_of_getElem? hk
      obtain ⟨hle, hsame⟩ := hc c' hmem
      rcases hle.lt_or_eq with hnewer | heq
      · exact .inr ⟨c, List.mem_append_right _ (List.mem_singleton_self c), hnewer⟩
      obtain ⟨howner, hdevice⟩ := hsame heq
      rcases h.current k c' hk with ⟨hfound, how⟩ | ⟨newer, hn, hgen⟩
      · refine .inl ⟨?_, by rw [howner]⟩
        have hne : c'.device.deviceId ≠ c.device.deviceId := fun he => hnew (hdevice he ▸ hmem)
        rw [Dict.get?_set, if_neg hne, hkept (by rw [how, howner]), hfound]
      · exact .inr ⟨newer, List.mem_append_left _ hn, hgen⟩
    · rw [List.getElem?_concat_length] at hk
      obtain rfl := Option.some.inj hk
      exact .inl ⟨Dict.get?_set_self _ _ _, rfl⟩
    · rw [List.getElem?_eq_none (by rw [List.length_append]; exact hgt)] at hk
      cases hk

/-! ## The invariant -/

section Invariant

variable [Rounding]

structure Consistent (w : Sampling) : Prop where
  registry : Registry w.contexts w.pointSources w.owner
  tracks : ∀ k s, w.sources[k]? = some s → ∀ p ∈ s.context.points,
    ∃ origin, Tracks s p (w.history k p.pointId) origin
  unstarted : ∀ k, w.sources.length ≤ k → ∀ point, w.history k point = []

omit [Rounding] in
theorem OnSource.contexts {k : ℕ} {w w' : Sampling} {s s' : PointSource} (h : OnSource k w w' s')
    (hs : w.sources[k]? = some s) (hcontext : s'.context = s.context) :
    w'.contexts = w.contexts := by
  apply List.ext_getElem?
  intro j
  rw [Sampling.contexts, Sampling.contexts, List.getElem?_map, List.getElem?_map]
  by_cases hj : j = k
  · rw [hj, h.own, hs, Option.map_some, Option.map_some, hcontext]
  · rw [h.others j hj]

/-- A call on one source keeps the invariant when it keeps what the source tracks. -/
theorem Consistent.onSource {k : ℕ} {w w' : Sampling} {s s' : PointSource} (h : Consistent w)
    (hs : w.sources[k]? = some s) (hon : OnSource k w w' s') (hcontext : s'.context = s.context)
    (hhistory : ∀ j, j ≠ k → w'.history j = w.history j)
    (htracks : ∀ p ∈ s.context.points, ∃ origin, Tracks s' p (w'.history k p.pointId) origin) :
    Consistent w' where
  registry := by
    rw [hon.contexts hs hcontext, hon.pointSources, hon.owner]
    exact h.registry
  tracks j s'' hj := by
    by_cases hjk : j = k
    · subst hjk
      rw [hon.own] at hj
      obtain rfl := Option.some.inj hj
      rw [hcontext]
      exact htracks
    · rw [hon.others j hjk] at hj
      rw [hhistory j hjk]
      exact h.tracks j s'' hj
  unstarted j hj := by
    rw [hon.length] at hj
    have hjk : j ≠ k := by
      rintro rfl
      rw [List.getElem?_eq_none hj] at hs
      cases hs
    rw [hhistory j hjk]
    exact h.unstarted j hj

end Invariant

/-- Another point of the same source. -/
theorem note_other {w : Sampling} {k : ℕ} {point q : PyStr} (e : PointEvent) (hq : q ≠ point) :
    (w.note k point e).history k q = w.history k q := by simp [Sampling.note, hq]

theorem note_self {w : Sampling} {k : ℕ} {point q : PyStr} (e : PointEvent) (hq : q = point) :
    (w.note k point e).history k q = w.history k q ++ [e] := by simp [Sampling.note, hq]

theorem note_source {w : Sampling} {k j : ℕ} (point : PyStr) (e : PointEvent) (hj : j ≠ k) :
    (w.note k point e).history j = w.history j := by
  funext q
  simp [Sampling.note, hj]

/-! ## The calls -/

section Calls

variable [Rounding] [Reporting.Footprint] [EventCharge]

omit [Rounding] in
/-- An event that is not published leaves the sources alone. -/
theorem emit_discarded (inp : SamplingInputs) (k : ℕ) (p : PointConfig) (value : Option Value)
    (quality : Quality) (completed : ℚ) (nominal : Option ℚ) (kind : EventKind) (w : Sampling) :
    wp (emit inp k p value quality completed nominal kind false)
      (fun _ w' => ∃ buffer clockReads, w' = { w with buffer, clockReads })
      (fun _ w' => ∃ buffer clockReads, w' = { w with buffer, clockReads }) w := by
  rw [emit, wp_bind]
  refine (readClock_spec inp w).mono ?_ ?_
  · rintro clock w₁ ⟨-, rfl⟩
    simp only [Bool.false_eq_true, ↓reduceIte, wp_bind, wp_get, source, wp_item, wp_onBuffer,
      wp_modify]
    refine ⟨fun s _ => ⟨fun origin _ => ?_, fun _ => ⟨w.buffer, _, rfl⟩⟩,
      fun _ => ⟨w.buffer, _, rfl⟩⟩
    exact wp_of_forall (fun _ b => ⟨_, _, rfl⟩) fun _ b => ⟨_, _, rfl⟩
  · rintro e w₁ rfl
    exact ⟨w.buffer, _, rfl⟩

omit [Reporting.Footprint] [EventCharge] in
theorem Consistent.discarded {w : Sampling} (h : Consistent w) (buffer : SampleBuffer)
    (clockReads : ℕ) : Consistent { w with buffer, clockReads } :=
  ⟨h.registry, h.tracks, h.unstarted⟩

omit [Rounding] [Reporting.Footprint] [EventCharge] in
/-- The source that an object holds. -/
theorem Sampling.context?_eq_some {w : Sampling} {object k : ℕ} {context : SampleContext}
    (hk : w.holds object = some k) (h : w.context? object = some context) :
    ∃ s, w.sources[k]? = some s ∧ s.context = context := by
  rw [context?, hk, Option.bind_some] at h
  exact Option.map_eq_some_iff.mp h

omit [Reporting.Footprint] [EventCharge] in
/-- A result of another point. -/
theorem Tracks.publish_other {s : PointSource} {p : PointConfig} {events : List PointEvent}
    {origin : ℚ} (h : Tracks s p events origin) {q : PyStr} (hq : p.pointId ≠ q) (t : ℚ) :
    Tracks { s with lastResult := s.lastResult.set q t } p events origin where
  activated := h.activated
  history := h.history
  lastResult := by rw [Dict.get?_set, if_neg hq, h.lastResult]
  stale := h.stale
  held := h.held
  unmoved := h.unmoved

/-- `result` keeps the invariant, also when its event is refused. -/
theorem publishResult_keeps (inp : SamplingInputs) (object : ℕ) (context : SampleContext)
    (p : PointConfig) (value : Option Value) (quality : Quality) (nominal completed : ℚ)
    (publish : Bool) :
    Keeps Consistent (publishResult inp object context p value quality nominal completed publish) := by
  intro w h
  rw [publishResult, wp_bind, wp_get]
  cases hk : w.holds object with
  | none => exact h
  | some k =>
      show wp (if w.context? object = some context then _ else _) _ _ w
      rw [wp_ite]
      refine ⟨fun hcontext => ?_, fun _ => h⟩
      obtain ⟨s, hs, -⟩ := Sampling.context?_eq_some hk hcontext
      cases publish with
      | false =>
          refine (emit_discarded inp k p value quality completed (some nominal) .physicalResult w).mono
            ?_ ?_
          · rintro - w' ⟨buffer, clockReads, rfl⟩
            exact h.discarded buffer clockReads
          · rintro e w' ⟨buffer, clockReads, rfl⟩
            exact h.discarded buffer clockReads
      | true =>
          -- the result is recorded before its event is captured
          have h₁ : OnSource k w _ _ := ((OnSource.refl hs).setSource fun s =>
            { s with lastResult := s.lastResult.set p.pointId completed }).note k p.pointId
              (.published completed)
          have htracks : ∀ p' ∈ s.context.points, ∃ origin,
              Tracks { s with lastResult := s.lastResult.set p.pointId completed } p'
                ((w.note k p.pointId (.published completed)).history k p'.pointId) origin ∧
              (p'.pointId = p.pointId → ∃ events,
                (w.note k p.pointId (.published completed)).history k p'.pointId =
                  events ++ [.published completed]) := by
            intro p' hp'
            obtain ⟨origin, htrack⟩ := h.tracks k s hs p' hp'
            refine ⟨origin, ?_⟩
            by_cases hid : p'.pointId = p.pointId
            · rw [note_self _ hid, ← hid]
              exact ⟨htrack.publish completed, fun _ => ⟨_, rfl⟩⟩
            · rw [note_other _ hid]
              exact ⟨htrack.publish_other hid completed, fun he => absurd he hid⟩
          refine (emit_spec inp h₁.own p value quality completed (some nominal)
            .physicalResult).mono ?_ ?_
          · rintro - w' ⟨s', clock, sample, -, h₂, hset, -, -, -, hhistory, hkind, -⟩
            refine h.onSource hs (h₁.trans h₂) hset.context (fun j hj => ?_) fun p' hp' => ?_
            · rw [hhistory, note_source _ _ hj]
              exact note_source _ _ hj
            · obtain ⟨origin, htrack, hlast⟩ := htracks p' hp'
              refine ⟨origin, ?_⟩
              rw [hhistory]
              by_cases hid : p'.pointId = p.pointId
              · obtain ⟨events, hevents⟩ := hlast hid
                rw [note_self _ hid]
                rw [hevents] at htrack
                show Tracks s' p' ((w.note k p.pointId (.published completed)).history k p'.pointId ++ _) _
                rw [hevents]
                refine (htrack.touched hset hid ?_ ?_).result ?_ ?_ hkind <;> simp
              · rw [note_other _ hid]
                exact htrack.other hset hid
          · rintro e w' ⟨hhistory, s', h₂, hset⟩
            have hcontext : s'.context = s.context := by
              rcases hset with rfl | ⟨clock, hset⟩
              · rfl
              · exact hset.context
            refine h.onSource hs (h₁.trans h₂) hcontext (fun j hj => ?_) fun p' hp' => ?_
            · rw [hhistory]
              exact note_source _ _ hj
            · obtain ⟨origin, htrack, hlast⟩ := htracks p' hp'
              refine ⟨origin, ?_⟩
              rw [hhistory]
              rcases hset with rfl | ⟨clock, hset⟩
              · exact htrack
              by_cases hid : p'.pointId = p.pointId
              · obtain ⟨events, hevents⟩ := hlast hid
                refine htrack.touched hset hid ?_ ?_ <;> rw [hevents] <;> simp
              · exact htrack.other hset hid

omit [Reporting.Footprint] [EventCharge] in
/-- The points of a source have different ids. -/
theorem Consistent.point_unique {w : Sampling} (h : Consistent w) {k : ℕ} {s : PointSource}
    (hs : w.sources[k]? = some s) {p p' : PointConfig} (hp : p ∈ s.context.points)
    (hp' : p' ∈ s.context.points) (hid : p'.pointId = p.pointId) : p' = p := by
  have hmem : s.context ∈ w.contexts := List.mem_of_getElem? (Sampling.contexts_getElem? hs)
  exact List.inj_on_of_nodup_map (h.registry.distinct _ hmem) hp' hp hid

/-- The last result of the point, or the origin of its activation. -/
def PointSource.reference (s : PointSource) (p : PointConfig) (events : List PointEvent) : Option ℚ :=
  (s.activated.get? p.pointId).map fun origin => (lastPublished events).getD origin

/-- The point is STALE, or not due. -/
def Timely (w : Sampling) (k : ℕ) (s : PointSource) (now : ℚ) (p : PointConfig) : Prop :=
  s.quality.get? p.pointId = some .stale ∨
    ∀ last, s.reference p (w.history k p.pointId) = some last →
      overdue p.staleAfterMs last now = false

theorem expirePoint_spec (inp : SamplingInputs) {k : ℕ} {w : Sampling} {s : PointSource}
    (h : Consistent w) (hs : w.sources[k]? = some s) {p : PointConfig} (hp : p ∈ s.context.points)
    (now : ℚ) :
    wp (expirePoint inp k now p)
      (fun _ w' => Consistent w' ∧ w'.holds = w.holds ∧ ∃ s', w'.sources[k]? = some s' ∧
        s'.context = s.context ∧ Timely w' k s' now p ∧
        ∀ p' ∈ s.context.points, Timely w k s now p' → Timely w' k s' now p')
      (fun _ _ => True) w := by
  rw [expirePoint, wp_bind, wp_source hs, wp_ite]
  refine ⟨fun hstale => ⟨h, rfl, s, hs, rfl, .inl hstale, fun _ _ ht => ht⟩, fun hfirst => ?_⟩
  obtain ⟨origin, htrack⟩ := h.tracks k s hs p hp
  rw [wp_bind, htrack.last hfirst, wp_item]
  refine ⟨fun last hlast => ?_, fun _ => trivial⟩
  obtain rfl := Option.some.inj hlast
  rw [wp_ite]
  refine ⟨fun hdue => ?_, fun hdue => ?_⟩
  · refine (emit_spec inp hs p none .stale now none .qualityState).mono ?_ fun _ _ _ => trivial
    rintro - w' ⟨s', clock, sample, -, hon, hset, -, hquality, -, hhistory, hkind, hsample, -⟩
    refine ⟨h.onSource hs hon hset.context (fun j hj => ?_) fun p' hp' => ?_, hon.holds, s', hon.own,
      hset.context, .inl hquality, fun p' _ htimely => ?_⟩
    · rw [hhistory, note_source _ _ hj]
    · rw [hhistory]
      by_cases hid : p'.pointId = p.pointId
      · obtain rfl := h.point_unique hs hp hp' hid
        refine ⟨origin, ?_⟩
        rw [note_self _ rfl]
        exact htrack.expired hset hfirst hquality ⟨hkind, hsample⟩ hdue
      · obtain ⟨origin', htrack'⟩ := h.tracks k s hs p' hp'
        refine ⟨origin', ?_⟩
        rw [note_other _ hid]
        exact htrack'.other hset hid
    · by_cases hid : p'.pointId = p.pointId
      · left
        rw [hid, hquality]
      · rw [Timely, hset.quality _ hid, hhistory, note_other _ hid, PointSource.reference,
          hset.activated]
        exact htimely
  · refine ⟨h, rfl, s, hs, rfl, .inr fun last hlast => ?_, fun _ _ ht => ht⟩
    rw [PointSource.reference, htrack.activated] at hlast
    obtain rfl := Option.some.inj hlast
    exact Bool.eq_false_iff.mpr hdue

/-- `expire` leaves every point STALE that is due. -/
theorem expire_spec (inp : SamplingInputs) (object : ℕ) (now : ℚ) {w : Sampling} (h : Consistent w) :
    wp (expire inp object now)
      (fun _ w' => Consistent w' ∧ w'.holds = w.holds ∧
        ∀ k s', w.holds object = some k → w'.sources[k]? = some s' →
          ∀ p ∈ s'.context.points, Timely w' k s' now p)
      (fun _ _ => True) w := by
  rw [expire, wp_bind, wp_get]
  cases hk : w.holds object with
  | none => exact ⟨h, rfl, fun k _ hk' => by cases hk'⟩
  | some k =>
      show wp (do
        let s ← source k
        each s.context.points (expirePoint inp k now)) _ _ w
      cases hs : w.sources[k]? with
      | none =>
          rw [source, wp_bind, wp_bind, wp_get, wp_item, hs]
          exact ⟨fun _ he => (by cases he), fun _ => trivial⟩
      | some s =>
          rw [wp_bind, wp_source hs]
          refine (wp_each_done (I := fun done w' => Consistent w' ∧ w'.holds = w.holds ∧
            ∃ s', w'.sources[k]? = some s' ∧ s'.context = s.context ∧
              ∀ p ∈ done, Timely w' k s' now p)
            (E := fun _ _ => True) (fun done p rest hpoints w₁ h₁ => ?_)
            ⟨h, rfl, s, hs, rfl, by simp⟩).mono (fun _ w' hw' => ?_) (fun _ _ _ => trivial)
          · obtain ⟨hcons, hholds, s₁, hs₁, hcontext, hdone⟩ := h₁
            -- The points that are done stay in time while the next one is looked at.
            have hmem : ∀ q ∈ done ++ [p], q ∈ s₁.context.points := fun q hq => by
              rw [hcontext, hpoints, ← List.singleton_append, ← List.append_assoc]
              exact List.mem_append_left _ hq
            refine (expirePoint_spec inp hcons hs₁ (hmem p (by simp)) now).mono ?_ fun _ _ _ => trivial
            rintro - w₂ ⟨hcons₂, hholds₂, s₂, hs₂, hcontext₂, hlast, hkept⟩
            refine ⟨hcons₂, hholds₂.trans hholds, s₂, hs₂, hcontext₂.trans hcontext, fun q hq => ?_⟩
            rcases List.mem_append.mp hq with hq' | hq'
            · exact hkept q (hmem q hq) (hdone q hq')
            · rw [List.mem_singleton.mp hq']
              exact hlast
          · obtain ⟨hcons, hholds, s', hs', hcontext, hdone⟩ := hw'
            refine ⟨hcons, hholds, fun k' s'' hk' hs'' => ?_⟩
            obtain rfl := Option.some.inj hk'
            rw [hs'] at hs''
            obtain rfl := Option.some.inj hs''
            rw [hcontext]
            exact hdone

/-- The world as a new source is entered, before its UNKNOWN events. -/
def Sampling.enter (w : Sampling) (object : ℕ) (context : SampleContext) (origins : Dict PyStr ℚ) :
    Sampling :=
  { w with
    sources := w.sources ++ [{ context, activated := origins, origins }]
    pointSources := w.pointSources.set context.device.deviceId w.sources.length
    holds := Function.update w.holds object (some w.sources.length) }

/-- The points in `done` had their UNKNOWN, and nothing happened at the others. -/
structure Begun (context : SampleContext) (origins : Dict PyStr ℚ) (k : ℕ) (w₀ : Sampling)
    (done : List PointConfig) (w : Sampling) (s : PointSource) : Prop where
  on : OnSource k w₀ w s
  made : s.context = context
  activated : s.activated = origins
  lastResult : s.lastResult = .empty
  tracks : ∀ p ∈ done, ∃ origin, Tracks s p (w.history k p.pointId) origin
  waiting : ∀ p ∈ context.points, p ∉ done → w.history k p.pointId = [] ∧
    s.origins.get? p.pointId = origins.get? p.pointId ∧ s.timeEpochs.get? p.pointId = none
  others : ∀ j, j ≠ k → w.history j = w₀.history j

omit [Rounding] [Reporting.Footprint] [EventCharge] in
theorem Published.epochs_other {s s' : PointSource} {p : PointConfig} {clock : Core.CaptureTime}
    {completed : ℚ} {nominal : Option ℚ} (h : Published s s' p clock completed nominal) {q : PyStr}
    (hq : q ≠ p.pointId) : s'.timeEpochs.get? q = s.timeEpochs.get? q := by
  rcases h.timeEpochs with he | he
  · rw [he]
  · rw [he, Dict.get?_set, if_neg hq]

/-- One more UNKNOWN. -/
theorem Begun.emit (inp : SamplingInputs) {context : SampleContext} {origins : Dict PyStr ℚ} {k : ℕ}
    {w₀ w : Sampling} {s : PointSource} {done rest : List PointConfig} {p : PointConfig}
    (h : Begun context origins k w₀ done w s) (hpoints : context.points = done ++ p :: rest)
    (hids : (context.points.map (·.pointId)).Nodup) (now : ℚ) :
    wp (emit inp k p none .unknown now none .qualityState true)
      (fun _ w' => ∃ s', Begun context origins k w₀ (done ++ [p]) w' s') (fun _ _ => True) w := by
  have hmem : p ∈ context.points := by
    rw [hpoints]
    exact List.mem_append_right _ List.mem_cons_self
  have hfresh : p ∉ done := by
    have hnodup := hids.of_map
    rw [hpoints, List.nodup_append] at hnodup
    exact fun hp => hnodup.2.2 p hp p List.mem_cons_self rfl
  -- One point of the context has the id, so that the others are left alone.
  have hid : ∀ q ∈ context.points, q ≠ p → q.pointId ≠ p.pointId := fun q hq hne he =>
    hne (List.inj_on_of_nodup_map hids hq hmem he)
  have hdone : ∀ q ∈ done, q ∈ context.points := fun q hq => by
    rw [hpoints]
    exact List.mem_append_left _ hq
  obtain ⟨hhistory, horigin, hepoch⟩ := h.waiting p hmem hfresh
  refine (emit_spec inp h.on.own p none .unknown now none .qualityState).mono ?_ fun _ _ _ => trivial
  rintro - w' ⟨s', clock, sample, origin, hon, hset, -, hquality, -, hnote, hkind, hsample, hheld, -⟩
  have hkeep : s'.origins.get? p.pointId = origins.get? p.pointId := by
    rw [hset.origins.first hepoch, horigin]
  refine ⟨s', h.on.trans hon, hset.context.trans h.made, hset.activated.trans h.activated,
    hset.lastResult.trans h.lastResult, fun q hq => ?_, fun q hq hnew => ?_, fun j hj => ?_⟩
  · rcases List.mem_append.mp hq with hq | hq
    · obtain ⟨o, htrack⟩ := h.tracks q hq
      have hne : q.pointId ≠ p.pointId := hid q (hdone q hq) fun he => hfresh (he ▸ hq)
      refine ⟨o, ?_⟩
      rw [hnote, note_other _ hne]
      exact htrack.other hset hne
    · obtain rfl := List.mem_singleton.mp hq
      refine ⟨origin, ?_⟩
      rw [hnote, note_self _ rfl, hhistory, List.nil_append]
      have hunknown : sample.isState .unknown := ⟨hkind, hsample⟩
      exact {
        activated := by rw [hset.activated, h.activated, ← hkeep, hheld]
        history := .activated hunknown
        lastResult := by
          rw [hset.lastResult, h.lastResult]
          rfl
        -- `UNKNOWN` begins no stale time.
        stale := fun hstale => by
          have hnot : ¬ sample.isState .stale := fun hs => absurd (hunknown.unique hs) (by decide)
          have hfalse := staleSince_put [] now sample
          rw [List.nil_append, hstale, decide_eq_false hnot] at hfalse
          cases hfalse
        held := ⟨origin, hheld⟩
        unmoved := fun _ _ => hheld }
  · have hne : q.pointId ≠ p.pointId := hid q hq fun he => hnew (he ▸ by simp)
    obtain ⟨hq₁, hq₂, hq₃⟩ := h.waiting q hq fun hd => hnew (List.mem_append_left _ hd)
    rw [hnote, note_other _ hne, hset.origins.other hne, hset.epochs_other hne]
    exact ⟨hq₁, hq₂, hq₃⟩
  · rw [hnote, note_source _ _ hj, h.others j hj]

/-- A source that is made for a new context tracks its points. -/
theorem begin_spec (inp : SamplingInputs) (object : ℕ) {context : SampleContext}
    (origins : Dict PyStr ℚ) (now : ℚ) {w : Sampling}
    (htracks : ∀ k s, w.sources[k]? = some s → ∀ p ∈ s.context.points,
      ∃ origin, Tracks s p (w.history k p.pointId) origin)
    (hunstarted : ∀ k, w.sources.length ≤ k → ∀ point, w.history k point = [])
    (hregistry : Registry (w.contexts ++ [context])
      (w.pointSources.set context.device.deviceId w.sources.length) w.owner) :
    wp («begin» inp object context origins now) (fun _ => Consistent) (fun _ _ => True) w := by
  have hnew : (w.enter object context origins).sources[w.sources.length]? =
      some { context, activated := origins, origins } := List.getElem?_concat_length
  have hcontexts : (w.enter object context origins).contexts = w.contexts ++ [context] := by
    show (w.sources ++ [_]).map _ = w.sources.map _ ++ [_]
    rw [List.map_append, List.map_singleton]
  have hids : (context.points.map (·.pointId)).Nodup :=
    hregistry.distinct context (List.mem_append_right _ (List.mem_singleton_self _))
  rw [«begin», wp_bind, wp_get, wp_bind, wp_modify]
  refine (wp_each_done (I := fun done w' => ∃ s', Begun context origins w.sources.length
      (w.enter object context origins) done w' s') (E := fun _ _ => True)
      (fun done p rest hpoints w₁ ⟨s₁, h₁⟩ => h₁.emit inp hpoints hids now)
      ⟨_, OnSource.refl hnew, rfl, rfl, rfl, by simp, fun p _ _ => ?_, fun _ _ => rfl⟩).mono
      (fun _ w' ⟨s', hw'⟩ => ?_) (fun _ _ _ => trivial)
  · exact ⟨hunstarted _ le_rfl _, rfl, rfl⟩
  · refine ⟨?_, fun j s hj p hp => ?_, fun j hj point => ?_⟩
    · rw [hw'.on.contexts hnew hw'.made, hw'.on.pointSources, hw'.on.owner, hcontexts]
      exact hregistry
    · by_cases hjk : j = w.sources.length
      · subst hjk
        rw [hw'.on.own] at hj
        obtain rfl := Option.some.inj hj
        rw [hw'.made] at hp
        exact hw'.tracks p hp
      · have hlt : j < w.sources.length := by
          have hbound := (List.getElem?_eq_some_iff.mp hj).1
          rw [hw'.on.length] at hbound
          have hlength : (w.enter object context origins).sources.length = w.sources.length + 1 :=
            List.length_append
          omega
        rw [hw'.on.others j hjk] at hj
        have hold : (w.sources ++ [_])[j]? = some s := hj
        rw [List.getElem?_append_left hlt] at hold
        rw [hw'.others j hjk]
        exact htracks j s hold p hp
    · rw [hw'.on.length] at hj
      have hlength : (w.enter object context origins).sources.length = w.sources.length + 1 :=
        List.length_append
      rw [hw'.others j (by omega)]
      exact hunstarted j (by omega) point

/-- `activate` of a context that may follow: UNKNOWN for its points, if it is new. -/
theorem activate_spec (inp : SamplingInputs) (object : ℕ) {context : SampleContext}
    (origins : Dict PyStr ℚ) (now : ℚ) {w : Sampling} (h : Consistent w)
    (hfollows : Follows w.contexts context) (hids : (context.points.map (·.pointId)).Nodup) :
    wp (activate inp object context origins now) (fun _ => Consistent) (fun _ _ => True) w := by
  rw [activate, wp_bind, wp_get, wp_ite]
  refine ⟨fun _ => h, fun _ => ?_⟩
  have hbegin : ∀ kept : Dict PyStr ℕ, (w.owner = some context.owner → kept = w.pointSources) →
      context ∉ w.contexts → wp («begin» inp object context origins now) (fun _ => Consistent)
        (fun _ _ => True) { w with pointSources := kept, owner := some context.owner } := by
    intro kept hkept hnew
    refine begin_spec inp object origins now h.tracks h.unstarted ?_
    have hregister := h.registry.register hfollows hids hnew hkept
    rwa [show w.contexts.length = w.sources.length from List.length_map _] at hregister
  show wp (if w.owner ≠ some context.owner then _ else _) _ _ w
  rw [wp_ite]
  refine ⟨fun howner => ?_, fun howner => ?_⟩
  · -- the sources of another owner are dropped
    refine hbegin .empty (fun he => absurd he howner) fun hmem => ?_
    obtain ⟨k, hk⟩ := List.mem_iff_getElem?.mp hmem
    exact howner (h.registry.found hfollows hk).2
  · have howner : w.owner = some context.owner := not_not.mp howner
    have hsame : { w with pointSources := w.pointSources, owner := some context.owner } = w := by
      rw [← howner]
    have hmissing := hbegin w.pointSources fun _ => rfl
    rw [hsame] at hmissing
    rw [wp_bind, wp_get]
    cases hget : w.pointSources.get? context.device.deviceId with
    | none =>
        refine hmissing fun hmem => ?_
        obtain ⟨k, hk⟩ := List.mem_iff_getElem?.mp hmem
        rw [(h.registry.found hfollows hk).1] at hget
        cases hget
    | some k =>
        show wp (if (w.sources[k]?).map (·.context) = some context then _ else _) _ _ w
        rw [wp_ite]
        refine ⟨fun _ => ⟨h.registry, h.tracks, h.unstarted⟩, fun hother => hmissing fun hmem => ?_⟩
        obtain ⟨j, hj⟩ := List.mem_iff_getElem?.mp hmem
        rw [(h.registry.found hfollows hj).1] at hget
        obtain rfl := Option.some.inj hget
        rw [Sampling.contexts, List.getElem?_map] at hj
        exact hother hj

/-! ## Runs -/

/-- What the callers promise: the context of a runner is the published configuration of
    its device, and a published configuration gives its points different ids. -/
def SamplingCall.Promised (w : Sampling) : SamplingCall → Prop
  | .activate _ context _ _ => (context.points.map (·.pointId)).Nodup ∧ Follows w.contexts context
  | _ => True

/-- The state events of an `activate` or an `expire` were all captured. -/
def Captures (st : Step SamplingCall Sampling EventExc Unit) : Prop :=
  match st.call with
  | .activate .. | .expire .. => st.result = .ok ()
  | _ => True

/-- The state events of every source, and the time until which its runner sleeps. -/
structure StateEvents (w : Sampling) : Prop where
  /-- A context has one source. -/
  contexts : (w.sources.map (·.context)).Nodup
  unknown : ∀ k s, w.sources[k]? = some s → ∀ p ∈ s.context.points,
    ∃ now sample rest, w.history k p.pointId = .put now sample :: rest ∧ sample.isState .unknown ∧
      ∀ e ∈ rest, e.puts .unknown = false
  stale : ∀ k s, w.sources[k]? = some s → ∀ p ∈ s.context.points, ∀ before now sample after,
    w.history k p.pointId = before ++ .put now sample :: after → sample.isState .stale →
      staleSince before = false ∧ ∃ last, s.reference p before = some last ∧
        (last + (p.staleAfterMs : ℚ) ≤ now ∨ fl (now / 1000 - last / 1000) = fl (p.staleAfterMs / 1000))
  wakes : ∀ object k s, w.holds object = some k → w.sources[k]? = some s → ∀ now,
    fl (now / 1000) = now / 1000 → (∀ p ∈ s.context.points, Timely w k s now p) →
      ∀ wake, w.nextExpiry object = some wake → now ≤ wake ∧
        ∀ p ∈ s.context.points, s.quality.get? p.pointId ≠ some .stale →
          ∃ last, s.reference p (w.history k p.pointId) = some last ∧
            wake ≤ expiryAt p.staleAfterMs last
  sleeps : ∀ object k s, w.holds object = some k → w.sources[k]? = some s →
    w.nextExpiry object = none → ∀ p ∈ s.context.points, s.quality.get? p.pointId = some .stale

omit [Reporting.Footprint] [EventCharge] in
theorem Tracks.reference {s : PointSource} {p : PointConfig} {events : List PointEvent} {origin : ℚ}
    (h : Tracks s p events origin) : s.reference p events = some ((lastPublished events).getD origin) := by
  rw [PointSource.reference, h.activated, Option.map_some]

omit [Reporting.Footprint] [EventCharge] in
/-- The deadlines that `next_expiry` compares. -/
theorem Consistent.mem_deadlines {w : Sampling} (h : Consistent w) {k : ℕ} {s : PointSource}
    (hs : w.sources[k]? = some s) {t : ℚ} :
    t ∈ s.deadlines ↔ ∃ p ∈ s.context.points, s.quality.get? p.pointId ≠ some .stale ∧
      ∃ last, s.reference p (w.history k p.pointId) = some last ∧ t = expiryAt p.staleAfterMs last := by
  rw [PointSource.deadlines, List.mem_filterMap]
  constructor
  · rintro ⟨p, hp, ht⟩
    obtain ⟨hmem, hstale⟩ := List.mem_filter.mp hp
    obtain ⟨origin, htrack⟩ := h.tracks k s hs p hmem
    have hfirst : s.quality.get? p.pointId ≠ some .stale := of_decide_eq_true hstale
    rw [htrack.last hfirst] at ht
    exact ⟨p, hmem, hfirst, _, htrack.reference, (Option.some.inj ht).symm⟩
  · rintro ⟨p, hmem, hfirst, last, hlast, rfl⟩
    obtain ⟨origin, htrack⟩ := h.tracks k s hs p hmem
    refine ⟨p, List.mem_filter.mpr ⟨hmem, decide_eq_true hfirst⟩, ?_⟩
    rw [htrack.last hfirst, ← htrack.reference, hlast]
    rfl

omit [Reporting.Footprint] [EventCharge] in
theorem Consistent.stateEvents {w : Sampling} (h : Consistent w) : StateEvents w where
  contexts := h.registry.unique
  unknown k s hs p hp := by
    obtain ⟨origin, htrack⟩ := h.tracks k s hs p hp
    exact htrack.history.unknown_once
  stale k s hs p hp before now sample after hevents hsample := by
    obtain ⟨origin, htrack⟩ := h.tracks k s hs p hp
    obtain ⟨hfirst, hdue⟩ := htrack.history.stale_due hevents hsample
    refine ⟨hfirst, _, ?_, elapsed_of_overdue hdue⟩
    rw [PointSource.reference, htrack.activated, Option.map_some]
  wakes object k s hk hs now hnow htimely wake hwake := by
    rw [Sampling.nextExpiry, hk, Option.bind_some, hs, Option.bind_some,
      List.min?_eq_some_iff] at hwake
    obtain ⟨hmem, hleast⟩ := hwake
    obtain ⟨p, hp, hfirst, last, hlast, rfl⟩ := (h.mem_deadlines hs).mp hmem
    refine ⟨?_, fun q hq hq' => ?_⟩
    · rcases htimely p hp with hstale | hearly
      · exact absurd hstale hfirst
      · exact le_expiryAt hnow (hearly last hlast)
    · obtain ⟨origin, htrack⟩ := h.tracks k s hs q hq
      exact ⟨_, htrack.reference, hleast _ ((h.mem_deadlines hs).mpr
        ⟨q, hq, hq', _, htrack.reference, rfl⟩)⟩
  sleeps object k s hk hs hnone p hp := by
    rw [Sampling.nextExpiry, hk, Option.bind_some, hs, Option.bind_some,
      List.min?_eq_none_iff] at hnone
    by_contra hfirst
    obtain ⟨origin, htrack⟩ := h.tracks k s hs p hp
    have hmem := (h.mem_deadlines hs).mpr ⟨p, hp, hfirst, _, htrack.reference, rfl⟩
    rw [hnone] at hmem
    exact List.not_mem_nil hmem

theorem step_consistent (inp : SamplingInputs) {w : Sampling} (h : Consistent w) {c : SamplingCall}
    (hpromised : c.Promised w) (hcaptures : Captures (perform (SamplingCall.exec inp) w c)) :
    Consistent (perform (SamplingCall.exec inp) w c).after := by
  cases c with
  | activate object context origins now =>
      exact (perform_spec (activate_spec inp object origins now h hpromised.2 hpromised.1)).1 _
        hcaptures
  | result object context p value quality nominal completed publish =>
      exact (publishResult_keeps inp object context p value quality nominal completed publish).final h
  | expire object now => exact ((perform_spec (expire_spec inp object now h)).1 _ hcaptures).1
  | plan object point slot =>
      suffices hplan : wp (SamplingCall.exec inp (.plan object point slot)) (fun _ => Consistent)
          (fun _ _ => True) w from (perform_spec hplan).1 () rfl
      rw [SamplingCall.exec, wp_modify]
      cases w.holds object with
      | none => exact h
      | some k =>
          cases hs : w.sources[k]? with
          | none =>
              have hsame : w.sources.modify k (fun s =>
                  { s with nextNominal := s.nextNominal.set point slot }) = w.sources := by
                rw [List.modify_eq_self (List.getElem?_eq_none_iff.mp hs)]
              show Consistent { w with sources := w.sources.modify k _ }
              rw [hsame]
              exact h
          | some s =>
              refine h.onSource hs ((OnSource.refl hs).setSource _) rfl (fun _ _ => rfl) ?_
              intro p hp
              obtain ⟨origin, ht⟩ := h.tracks k s hs p hp
              exact ⟨origin, ht.activated, ht.history, ht.lastResult, ht.stale, ht.held, ht.unmoved⟩

/-- The quality-state events of every run: as long as the promises are kept and no
    state event is refused, each point of each context has its one UNKNOWN, and STALE
    when and only when it is due. -/
theorem state_events (inp : SamplingInputs) (buffer : SampleBuffer) (calls : List SamplingCall)
    (hrun : ∀ st ∈ trace (SamplingCall.exec inp) { buffer } calls,
      st.call.Promised st.before ∧ Captures st) :
    ∀ st ∈ trace (SamplingCall.exec inp) { buffer } calls,
      StateEvents st.after ∧
        ∀ object now, st.call = .expire object now →
          ∀ k s, st.before.holds object = some k → st.after.sources[k]? = some s →
            ∀ p ∈ s.context.points, ∀ last,
              s.reference p (st.after.history k p.pointId) = some last →
              last + (p.staleAfterMs : ℚ) ≤ now ∨
                fl (now / 1000) = now / 1000 ∧ expiryAt p.staleAfterMs last < now →
              s.quality.get? p.pointId = some .stale := by
  refine trace_forall (I := Consistent) (fun w c h hc => ?_) ?_ hrun
  · have hafter := step_consistent inp h hc.1 hc.2
    refine ⟨⟨hafter.stateEvents, fun object now hcall k s hk hs p hp last hlast hpast => ?_⟩,
      hafter⟩
    rw [perform_call] at hcall
    subst hcall
    obtain ⟨-, -, htimely⟩ := (perform_spec (expire_spec inp object now h)).1 _ hc.2
    have hdue : overdue p.staleAfterMs last now = true := by
      rcases hpast with helapsed | ⟨hnow, hafter⟩
      · exact overdue_of_elapsed helapsed
      · exact overdue_of_expiryAt hnow hafter
    rcases htimely k s hk hs p hp with hstale | hearly
    · exact hstale
    · exact absurd hdue (Bool.eq_false_iff.mp (hearly last hlast))
  · exact ⟨⟨fun c hc => (nomatch hc), List.nodup_nil, fun k c hk => (nomatch hk)⟩,
      fun k s hk => (nomatch hk), fun _ _ _ => rfl⟩

end Calls

/-! ## Instances -/

section Concrete

@[reducible] def unbounded : Reporting.Footprint := ⟨fun _ => 0, fun _ => false, fun _ => false⟩

@[reducible] def unitCharge : EventCharge := ⟨fun _ => 1⟩

attribute [local instance] unbounded unitCharge Rounding.double

def levelPoint : PointConfig :=
  { pointId := py "level", name := py "level", enabled := true, dataType := py "uint16",
    pollIntervalMs := 1000, scale := .int 1, offset := .int 0, unit := none,
    reportMode := py "change", reportIntervalMs := 1000, deadband := .int 0, staleAfterMs := 3000,
    modbus := some ⟨py "holding_register", 1, some (py "AB")⟩ }

def flowPoint : PointConfig := { levelPoint with pointId := py "flow" }

def tankContext : SampleContext :=
  { configVersion := 1, generation := 1, gatewayId := py "gw"
    device :=
      { deviceId := py "tank", name := py "tank", enabled := true, protocol := py "modbus_tcp"
        connection := ⟨py "host", 502, some 1, 1000, 1000, 0, none, none, none, none, none⟩
        points := [levelPoint, flowPoint] } }

/-- A clock whose readings are these, and then these again. -/
def clockOf (utc : ℕ → ℤ) : SamplingInputs :=
  ⟨fun i => some ⟨some (utc i), true, 1, 1, .systemRtcCompat, some 0⟩⟩

def tankBuffer : SampleBuffer := { accounting := { bootId := py "boot" } }

def tankOrigins : Dict PyStr ℚ := .ofItems [(py "level", 0), (py "flow", 0)]

instance (w : Sampling) (c : SamplingCall) : Decidable (c.Promised w) :=
  match c with
  | .activate .. => inferInstanceAs (Decidable (_ ∧ ∀ _ ∈ _, _ ∧ (_ → _ ∧ (_ → _))))
  | .result .. => .isTrue trivial
  | .expire .. => .isTrue trivial
  | .plan .. => .isTrue trivial

instance (st : Step SamplingCall Sampling EventExc Unit) : Decidable (Captures st) :=
  match st with
  | ⟨_, .activate .., result, _⟩ => inferInstanceAs (Decidable (result = .ok ()))
  | ⟨_, .expire .., result, _⟩ => inferInstanceAs (Decidable (result = .ok ()))
  | ⟨_, .result .., _, _⟩ => .isTrue trivial
  | ⟨_, .plan .., _, _⟩ => .isTrue trivial

def steady : SamplingInputs := clockOf fun _ => 5

/-- A result, a runner made anew, and an expiry after the deadline of the other point. -/
def tankCalls : List SamplingCall :=
  [.activate 0 tankContext tankOrigins 0,
    .result 0 tankContext levelPoint (some (.int 5)) .good 1000 1001 true,
    .activate 1 tankContext tankOrigins 2000, .expire 1 3500]

def tankExpiry : Step SamplingCall Sampling EventExc Unit :=
  perform (SamplingCall.exec steady)
    (runCalls (SamplingCall.exec steady) { buffer := tankBuffer } (tankCalls.take 3)) (.expire 1 3500)

theorem state_events_tank :
    StateEvents tankExpiry.after ∧
      (tankExpiry.after.sources[0]?.bind fun s => s.quality.get? (py "flow")) = some .stale ∧
      (tankExpiry.after.sources[0]?.bind fun s => s.quality.get? (py "level")) = some .good :=
  ⟨(state_events steady tankBuffer tankCalls (by decide +kernel) tankExpiry
    (.tail _ (.tail _ (.tail _ (.head _))))).1, by decide +kernel, by decide +kernel⟩

/-- A point that is STALE 300 ms after its last result. -/
def quickContext : SampleContext :=
  { tankContext with
    device := { tankContext.device with
      points := [{ levelPoint with pollIntervalMs := 100, staleAfterMs := 300 }] } }

/-- The quality of the point, after an activation and an expiry at these seconds. -/
def quickRun (start now : ℚ) : Sampling :=
  runCalls (SamplingCall.exec steady) { buffer := tankBuffer }
    [.activate 0 quickContext (.ofItems [(py "level", 1000 * start)]) (1000 * start),
      .expire 0 (1000 * now)]

/-- At 10000.3 s a point that was activated at 10000 s is not due, and `next_expiry` is
    now.  At 0.3 s one that was activated at 0 s is STALE, although the float is less
    than 300 ms.  And when the sequence is used up, a capture of an activation is
    refused; the context is activated again, and a point stays without UNKNOWN. -/
theorem state_events_limits :
    (((quickRun 10000 (fl (100003 / 10))).sources[0]?.bind fun s => s.quality.get? (py "level"))
        = some .unknown ∧
      (quickRun 10000 (fl (100003 / 10))).nextExpiry 0 = some (1000 * fl (100003 / 10))) ∧
    (((quickRun 0 (fl (3 / 10))).sources[0]?.bind fun s => s.quality.get? (py "level"))
        = some .stale ∧
      1000 * fl (3 / 10) < 300) ∧
    let w := runCalls (SamplingCall.exec steady)
      { buffer := { tankBuffer with sampleSequence := Contracts.maxSafe - 1 } }
      [.activate 0 tankContext tankOrigins 0]
    let st := perform (SamplingCall.exec steady) w (.activate 1 tankContext tankOrigins 1000)
    st.result = .ok () ∧ flowPoint ∈ tankContext.points ∧
      st.after.context? 1 = some tankContext ∧ st.after.sources.length = 1 ∧
      st.after.history 0 (py "flow") = [] := by
  decide +kernel

end Concrete

end PlcnextIot.Points
