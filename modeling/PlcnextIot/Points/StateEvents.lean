/-
  PlcnextIot.Points.StateEvents

  The quality-state events of a point: one UNKNOWN when its configuration is first
  activated, and STALE when no result was published for too long, once until the
  next result.

  Both are read off the point's history, which a grammar (`History`) generates; each
  call of `PointEvents` extends it by the grammar's rules.
-/

import PlcnextIot.Points.Events
import PlcnextIot.Effect.Returns

namespace PlcnextIot.Points

open PlcnextIot.Python PlcnextIot.Config PlcnextIot.Effect PlcnextIot.Effect.Prog

/-! ## Histories -/

/-- When the last result was published. -/
def lastPublished (events : List PointEvent) : Option ℚ :=
  events.foldl (fun last e => match e with
    | .published completed => some completed
    | .put _ _ => last) none

def Sample.isState (s : Sample) (quality : Quality) : Prop :=
  s.kind = .qualityState ∧ s.quality = quality

instance (s : Sample) (quality : Quality) : Decidable (s.isState quality) := instDecidableAnd

/-- A state event of this quality was put. -/
def PointEvent.puts (e : PointEvent) (quality : Quality) : Bool :=
  match e with
  | .published _ => false
  | .put _ sample => decide (sample.isState quality)

/-- STALE was put, and no result was published after it. -/
def staleSince (events : List PointEvent) : Bool :=
  events.foldl (fun stale e => match e with
    | .published _ => false
    | .put _ _ => stale || e.puts .stale) false

@[simp] theorem lastPublished_published (events : List PointEvent) (t : ℚ) :
    lastPublished (events ++ [.published t]) = some t := by simp [lastPublished]

@[simp] theorem lastPublished_put (events : List PointEvent) (t : ℚ) (sample : Sample) :
    lastPublished (events ++ [.put t sample]) = lastPublished events := by simp [lastPublished]

@[simp] theorem staleSince_published (events : List PointEvent) (t : ℚ) :
    staleSince (events ++ [.published t]) = false := by simp [staleSince]

@[simp] theorem staleSince_put (events : List PointEvent) (t : ℚ) (sample : Sample) :
    staleSince (events ++ [.put t sample]) =
      (staleSince events || decide (sample.isState .stale)) := by
  simp [staleSince, PointEvent.puts]

/-! ## Deadlines -/

section Deadlines

variable [Rounding] {staleAfterMs : ℤ} {last now : ℚ}

theorem overdue_of_elapsed (h : last + staleAfterMs ≤ now) : overdue staleAfterMs last now = true := by
  apply decide_eq_true
  apply fl_le_fl
  linarith

/-- A point that is due has waited long enough, up to the rounding of the difference. -/
theorem elapsed_of_overdue (h : overdue staleAfterMs last now = true) :
    last + staleAfterMs ≤ now ∨ fl (now / 1000 - last / 1000) = fl (staleAfterMs / 1000) := by
  have hdue : fl (staleAfterMs / 1000) ≤ fl (now / 1000 - last / 1000) := of_decide_eq_true h
  rcases hdue.eq_or_lt with heq | hlt
  · exact .inr heq.symm
  · have := lt_of_fl_lt hlt
    exact .inl (by linarith)

/-- After the rounded deadline a point is due, too: the times of the loop are floats. -/
theorem overdue_of_expiryAt (hnow : fl (now / 1000) = now / 1000)
    (h : expiryAt staleAfterMs last < now) : overdue staleAfterMs last now = true := by
  apply decide_eq_true
  have hafter : fl (last / 1000 + fl (staleAfterMs / 1000)) < fl (now / 1000) := by
    rw [hnow, lt_div_iff₀ (by norm_num)]
    unfold expiryAt at h
    linarith
  have hlt := lt_of_fl_lt hafter
  apply le_fl_of_le (fl_fl _)
  linarith

theorem le_expiryAt (hnow : fl (now / 1000) = now / 1000) (h : overdue staleAfterMs last now = false) :
    now ≤ expiryAt staleAfterMs last := by
  by_contra hlt
  rw [overdue_of_expiryAt hnow (not_le.mp hlt)] at h
  cases h

end Deadlines

/-! ## What may happen -/

section Grammar

variable [Rounding]

/-- What may happen at a point that was activated with this origin. -/
inductive History (origin : ℚ) (staleAfterMs : ℤ) : List PointEvent → Prop
  | activated {now : ℚ} {sample : Sample} (h : sample.isState .unknown) :
      History origin staleAfterMs [.put now sample]
  | published {events : List PointEvent} (t : ℚ) (h : History origin staleAfterMs events) :
      History origin staleAfterMs (events ++ [.published t])
  | result {events : List PointEvent} {t : ℚ} {sample : Sample}
      (h : History origin staleAfterMs events) (hkind : sample.kind = .physicalResult) :
      History origin staleAfterMs (events ++ [.put t sample])
  | stale {events : List PointEvent} {now : ℚ} {sample : Sample}
      (h : History origin staleAfterMs events) (hsample : sample.isState .stale)
      (hfirst : staleSince events = false)
      (hdue : overdue staleAfterMs ((lastPublished events).getD origin) now = true) :
      History origin staleAfterMs (events ++ [.put now sample])

omit [Rounding] in
theorem Sample.isState.unique {sample : Sample} {quality quality' : Quality}
    (h : sample.isState quality) (h' : sample.isState quality') : quality = quality' :=
  h.2.symm.trans h'.2

omit [Rounding] in
theorem result_isState {sample : Sample} (h : sample.kind = .physicalResult) (quality : Quality) :
    ¬ sample.isState quality := by
  rintro ⟨hkind, -⟩
  rw [h] at hkind
  cases hkind

namespace History

variable {origin : ℚ} {staleAfterMs : ℤ} {events : List PointEvent}

/-- The history begins with UNKNOWN, which is the only one. -/
theorem unknown_once (h : History origin staleAfterMs events) :
    ∃ now sample rest, events = .put now sample :: rest ∧ sample.isState .unknown ∧
      ∀ e ∈ rest, e.puts .unknown = false := by
  induction h with
  | @activated now sample h => exact ⟨now, sample, [], rfl, h, by simp⟩
  | published t _ ih =>
      obtain ⟨now, first, rest, rfl, hfirst, hrest⟩ := ih
      refine ⟨now, first, rest ++ [.published t], rfl, hfirst, fun e he => ?_⟩
      rcases List.mem_append.mp he with he | he
      · exact hrest e he
      · rw [List.mem_singleton.mp he]
        rfl
  | @result events t sample _ hkind ih =>
      obtain ⟨now, first, rest, rfl, hfirst, hrest⟩ := ih
      refine ⟨now, first, rest ++ [.put t sample], rfl, hfirst, fun e he => ?_⟩
      rcases List.mem_append.mp he with he | he
      · exact hrest e he
      · rw [List.mem_singleton.mp he]
        exact decide_eq_false (result_isState hkind .unknown)
  | @stale events t sample _ hsample _ _ ih =>
      obtain ⟨now, first, rest, rfl, hfirst, hrest⟩ := ih
      refine ⟨now, first, rest ++ [.put t sample], rfl, hfirst, fun e he => ?_⟩
      rcases List.mem_append.mp he with he | he
      · exact hrest e he
      · rw [List.mem_singleton.mp he]
        exact decide_eq_false fun h => absurd (hsample.unique h) (by decide)

omit [Rounding] in
/-- Two lists that end in one element each. -/
theorem snoc_eq_append_cons {α : Type} {xs before after : List α} {x y : α}
    (h : xs ++ [x] = before ++ y :: after) :
    (before = xs ∧ y = x ∧ after = []) ∨ ∃ after', xs = before ++ y :: after' ∧ after = after' ++ [x] := by
  rcases List.eq_nil_or_concat after with rfl | ⟨after', z, rfl⟩
  · obtain ⟨hxs, hx⟩ := List.append_inj' h rfl
    exact .inl ⟨hxs.symm, (List.singleton_inj.mp hx).symm, rfl⟩
  · rw [List.concat_eq_append, ← List.cons_append, ← List.append_assoc] at h
    obtain ⟨hxs, hx⟩ := List.append_inj' h rfl
    exact .inr ⟨after', hxs, by rw [List.concat_eq_append, List.singleton_inj.mp hx]⟩

/-- STALE is put after its deadline, and for the first time since the last result. -/
theorem stale_due (h : History origin staleAfterMs events) {before after : List PointEvent} {now : ℚ}
    {sample : Sample} (hevents : events = before ++ .put now sample :: after)
    (hsample : sample.isState .stale) :
    staleSince before = false ∧
      overdue staleAfterMs ((lastPublished before).getD origin) now = true := by
  induction h generalizing after with
  | @activated now' sample' h =>
      obtain ⟨-, he, -⟩ | ⟨after', he, -⟩ :=
        @snoc_eq_append_cons _ [] _ _ _ _ hevents
      · obtain ⟨-, rfl⟩ := PointEvent.put.inj he
        exact absurd (hsample.unique h) (by decide)
      · exact absurd he (by simp)
  | published t _ ih =>
      obtain ⟨-, he, -⟩ | ⟨after', he, -⟩ := snoc_eq_append_cons hevents
      · cases he
      · exact ih he
  | @result events t sample' _ hkind ih =>
      obtain ⟨-, he, -⟩ | ⟨after', he, -⟩ := snoc_eq_append_cons hevents
      · obtain ⟨-, rfl⟩ := PointEvent.put.inj he
        exact absurd hsample (result_isState hkind .stale)
      · exact ih he
  | @stale events t sample' _ _ hfirst hdue ih =>
      obtain ⟨rfl, he, -⟩ | ⟨after', he, -⟩ := snoc_eq_append_cons hevents
      · obtain ⟨rfl, -⟩ := PointEvent.put.inj he
        exact ⟨hfirst, hdue⟩
      · exact ih he

end History

end Grammar

/-! ## One call of `_emit` -/

/-- `w'` differs from `w` in the buffer, the clock readings, and source `k`, which is
    now `s'`. -/
structure OnSource (k : ℕ) (w w' : Sampling) (s' : PointSource) : Prop where
  pointSources : w'.pointSources = w.pointSources
  owner : w'.owner = w.owner
  holds : w'.holds = w.holds
  length : w'.sources.length = w.sources.length
  others : ∀ j, j ≠ k → w'.sources[j]? = w.sources[j]?
  own : w'.sources[k]? = some s'

theorem OnSource.refl {k : ℕ} {w : Sampling} {s : PointSource} (h : w.sources[k]? = some s) :
    OnSource k w w s := ⟨rfl, rfl, rfl, rfl, fun _ _ => rfl, h⟩

theorem OnSource.trans {k : ℕ} {w w' w'' : Sampling} {s' s'' : PointSource}
    (h : OnSource k w w' s') (h' : OnSource k w' w'' s'') : OnSource k w w'' s'' where
  pointSources := h'.pointSources.trans h.pointSources
  owner := h'.owner.trans h.owner
  holds := h'.holds.trans h.holds
  length := h'.length.trans h.length
  others j hj := (h'.others j hj).trans (h.others j hj)
  own := h'.own

theorem OnSource.setSource {k : ℕ} {w w' : Sampling} {s' : PointSource} (h : OnSource k w w' s')
    (f : PointSource → PointSource) : OnSource k w (w'.setSource k f) (f s') where
  pointSources := h.pointSources
  owner := h.owner
  holds := h.holds
  length := by
    show (w'.sources.modify k f).length = _
    rw [List.length_modify, h.length]
  others j hj := by
    show (w'.sources.modify k f)[j]? = _
    rw [List.getElem?_modify_ne _ _ (Ne.symm hj), h.others j hj]
  own := by
    show (w'.sources.modify k f)[k]? = _
    rw [List.getElem?_modify_eq, h.own]
    rfl

theorem OnSource.withBuffer {k : ℕ} {w w' : Sampling} {s' : PointSource} (h : OnSource k w w' s')
    (buffer : SampleBuffer) : OnSource k w { w' with buffer } s' :=
  ⟨h.pointSources, h.owner, h.holds, h.length, h.others, h.own⟩

theorem OnSource.note {k : ℕ} {w w' : Sampling} {s' : PointSource} (h : OnSource k w w' s')
    (j : ℕ) (point : PyStr) (e : PointEvent) : OnSource k w (w'.note j point e) s' :=
  ⟨h.pointSources, h.owner, h.holds, h.length, h.others, h.own⟩

theorem note_history {w w' : Sampling} (h : w'.history = w.history) {k : ℕ} {point : PyStr}
    {e : PointEvent} : (w'.note k point e).history = (w.note k point e).history := by
  simp only [Sampling.note, h]

theorem wp_onBuffer {α : Type} {x : BufferM α} {Q : α → Sampling → Prop}
    {E : EventExc → Sampling → Prop} {w : Sampling} :
    wp (onBuffer x) Q E w ↔ wp x (fun a buffer => Q a { w with buffer })
      (fun e buffer => E (.capture e) { w with buffer }) w.buffer := by
  show wp (onBuffer x) Q E w ↔ _
  unfold wp onBuffer
  rcases x w.buffer with ⟨r, b⟩
  cases r <;> rfl

theorem wp_item {α : Type} {x : Option α} {Q : α → Sampling → Prop}
    {E : EventExc → Sampling → Prop} {w : Sampling} :
    wp (item x) Q E w ↔ (∀ a, x = some a → Q a w) ∧ (x = none → E .keyError w) := by
  cases x with
  | none => simp [item]
  | some a => simp [item]

theorem wp_source {k : ℕ} {s : PointSource} {Q : PointSource → Sampling → Prop}
    {E : EventExc → Sampling → Prop} {w : Sampling} (hs : w.sources[k]? = some s) :
    wp (source k) Q E w ↔ Q s w := by
  rw [source, wp_bind, wp_get, wp_item, hs]
  exact ⟨fun h => h.1 s rfl, fun h => ⟨fun s' hs' => Option.some.inj hs' ▸ h, fun he => nomatch he⟩⟩

/-- What `_emit` makes of the origins: they change for the first event of a clock
    generation that is not the point's first. -/
inductive Regrids (s : PointSource) (p : PointConfig) (clock : Core.CaptureTime) (completed : ℚ)
    (nominal : Option ℚ) : Dict PyStr ℚ → Prop
  | keep (h : ∀ epoch, s.timeEpochs.get? p.pointId = some epoch → epoch = clock.generation) :
      Regrids s p clock completed nominal s.origins
  | move {epoch : ℤ} {q : ℚ} (hepoch : s.timeEpochs.get? p.pointId = some epoch)
      (hne : epoch ≠ clock.generation)
      (hq : nominal = some q ∨ nominal = none ∧ ∃ origin, s.origins.get? p.pointId = some origin ∧
        q = (s.nextNominal.get? p.pointId).getD origin) :
      Regrids s p clock completed nominal (s.origins.set p.pointId
        (gridSlot (roundHalfEven q)
          (clock.generationStartedMonoMs.getD (roundHalfEven completed)) p.pollIntervalMs))

theorem regrid_spec {k : ℕ} {w : Sampling} {s : PointSource} (hs : w.sources[k]? = some s)
    (p : PointConfig) (clock : Core.CaptureTime) (completed : ℚ) (nominal : Option ℚ) :
    wp (regrid k p clock completed nominal)
      (fun _ w' => ∃ origins, Regrids s p clock completed nominal origins ∧
        OnSource k w w' { s with origins } ∧ w'.history = w.history)
      (fun _ w' => w' = w) w := by
  have hkeep := OnSource.refl hs
  rw [regrid, wp_bind, wp_source hs]
  cases hepoch : s.timeEpochs.get? p.pointId with
  | none => exact ⟨s.origins, .keep (by simp [hepoch]), hkeep, rfl⟩
  | some epoch =>
      show wp (if epoch ≠ clock.generation then _ else _) _ _ w
      rw [wp_ite]
      refine ⟨fun hne => ?_, fun he => ?_⟩
      · cases nominal with
        | some q => exact ⟨_, .move hepoch hne (.inl rfl), hkeep.setSource _, rfl⟩
        | none =>
            show wp (item _ >>= _) _ _ w
            rw [wp_bind, wp_item]
            refine ⟨fun origin horigin => ?_, fun _ => rfl⟩
            exact ⟨_, .move hepoch hne (.inr ⟨rfl, origin, horigin, rfl⟩), hkeep.setSource _, rfl⟩
      · refine ⟨s.origins, .keep fun epoch' h' => ?_, hkeep, rfl⟩
        rw [hepoch] at h'
        cases h'
        exact not_not.mp he

theorem readClock_spec (inp : SamplingInputs) (w : Sampling) :
    wp (readClock inp)
      (fun clock w' => inp.clock w.clockReads = some clock ∧
        w' = { w with clockReads := w.clockReads + 1 })
      (fun _ w' => w' = { w with clockReads := w.clockReads + 1 }) w := by
  rw [readClock, wp_bind, wp_get, wp_bind, wp_modify]
  cases h : inp.clock w.clockReads with
  | none => exact rfl
  | some clock => exact ⟨rfl, rfl⟩

theorem postInit_eq_ok {s t : Sample} (h : s.postInit = .ok t) : ∃ value, t = { s with value } := by
  obtain ⟨-, -, h⟩ := bind_eq_ok h
  rw [Sample.checkValue] at h
  split at h
  · split at h
    · exact ⟨s.value, (Except.ok.inj h).symm⟩
    · split at h
      · exact ⟨_, (Except.ok.inj h).symm⟩
      · cases h
  · split at h
    · cases h
    · exact ⟨s.value, (Except.ok.inj h).symm⟩

section Calls

variable [Reporting.Footprint]

/-- A captured event is the one that was asked for. -/
theorem capture_spec (r : CaptureRequest) (b : SampleBuffer) :
    wp (capture r)
      (fun sample _ => ∃ bootId sequence gatewayId value,
        sample = { r.sample bootId sequence gatewayId with value })
      (fun _ _ => True) b := by
  simp only [capture, wp_bind, wp_check, wp_get]
  refine ⟨fun _ => ⟨fun _ => ?_, fun _ => trivial⟩, fun _ => trivial⟩
  refine (wp_of_forall (Q := fun _ _ => True) (E := fun _ _ => True) (fun _ _ => trivial)
    (fun _ _ => trivial)).mono (fun sequence b' _ => ?_) (fun _ _ _ => trivial)
  cases h : (r.sample b'.bootId sequence b'.gatewayId).postInit with
  | error e => trivial
  | ok sample =>
      obtain ⟨value, rfl⟩ := postInit_eq_ok h
      exact ⟨_, _, _, value, rfl⟩

variable [EventCharge]

/-- What a published event changes at its source. -/
structure Published (s s' : PointSource) (p : PointConfig) (clock : Core.CaptureTime) (completed : ℚ)
    (nominal : Option ℚ) : Prop where
  context : s'.context = s.context
  activated : s'.activated = s.activated
  lastResult : s'.lastResult = s.lastResult
  nextNominal : s'.nextNominal = s.nextNominal
  quality : ∀ q, q ≠ p.pointId → s'.quality.get? q = s.quality.get? q
  timeEpochs : s'.timeEpochs = s.timeEpochs ∨
    s'.timeEpochs = s.timeEpochs.set p.pointId clock.generation
  origins : Regrids s p clock completed nominal s'.origins

/-- `_emit` of an event that is published. -/
theorem emit_spec (inp : SamplingInputs) {k : ℕ} {w : Sampling} {s : PointSource}
    (hs : w.sources[k]? = some s) (p : PointConfig) (value : Option Value) (quality : Quality)
    (completed : ℚ) (nominal : Option ℚ) (kind : EventKind) :
    wp (emit inp k p value quality completed nominal kind true)
      (fun _ w' => ∃ s' clock sample origin, OnSource k w w' s' ∧
        Published s s' p clock completed nominal ∧ inp.clock w.clockReads = some clock ∧
        s'.quality.get? p.pointId = some quality ∧
        s'.timeEpochs.get? p.pointId = some clock.generation ∧
        w'.history = (w.note k p.pointId (.put completed sample)).history ∧
        sample.kind = kind ∧ sample.quality = quality ∧
        s'.origins.get? p.pointId = some origin ∧
        sample.nominalOriginMonoMs = some (roundHalfEven origin) ∧
        sample.nominalPollDueMonoMs = nominal.map roundHalfEven ∧
        sample.timeGeneration = clock.generation)
      (fun _ w' => w'.history = w.history ∧ ∃ s', OnSource k w w' s' ∧
        (s' = s ∨ ∃ clock, Published s s' p clock completed nominal)) w := by
  rw [emit, wp_bind]
  refine (readClock_spec inp w).mono ?_ ?_
  · rintro clock w₁ ⟨hclock, rfl⟩
    have h₁ : OnSource k w { w with clockReads := w.clockReads + 1 } s :=
      ⟨rfl, rfl, rfl, rfl, fun _ _ => rfl, hs⟩
    simp only [↓reduceIte, wp_bind, wp_modify]
    refine (regrid_spec h₁.own p clock completed nominal).mono ?_ ?_
    · rintro - w₂ ⟨origins, horigins, h₂, hhistory⟩
      have h₃ := (h₁.trans h₂).setSource fun s =>
        { s with timeEpochs := s.timeEpochs.set p.pointId clock.generation }
      have hfields : Published s
          { s with origins, timeEpochs := s.timeEpochs.set p.pointId clock.generation }
          p clock completed nominal :=
        ⟨rfl, rfl, rfl, rfl, fun _ _ => rfl, .inr rfl, horigins⟩
      rw [wp_source h₃.own, wp_item]
      -- From here on the grid and the epoch are set, also when the capture raises.
      refine ⟨fun origin horigin => ?_, fun _ => ⟨hhistory, _, h₃, .inr ⟨clock, hfields⟩⟩⟩
      rw [wp_get, wp_onBuffer]
      refine (capture_spec _ _).mono ?_ fun e buffer _ => ?_
      · rintro sample buffer ⟨bootId, sequence, gatewayId, value', hsample⟩
        have h₄ := (h₃.withBuffer buffer).setSource fun s =>
          { s with quality := s.quality.set p.pointId quality }
        have hset : Published s { s with
            origins, timeEpochs := s.timeEpochs.set p.pointId clock.generation,
            quality := s.quality.set p.pointId quality } p clock completed nominal :=
          { hfields with quality := fun q hq => by rw [Dict.get?_set, if_neg hq] }
        rw [wp_onBuffer]
        refine wp_of_forall (fun _ b => ?_) fun e b => ?_
        · refine ⟨_, clock, sample, origin, (h₄.withBuffer b).note _ _ _, hset, hclock,
            Dict.get?_set_self _ _ _, Dict.get?_set_self _ _ _, note_history hhistory, ?_, ?_,
            horigin, ?_, ?_, ?_⟩
          all_goals rw [hsample]; rfl
        · exact ⟨hhistory, _, h₄.withBuffer b, .inr ⟨clock, hset⟩⟩
      · exact ⟨hhistory, _, h₃.withBuffer buffer, .inr ⟨clock, hfields⟩⟩
    -- Without an origin the grid cannot move, and nothing is stored.
    · rintro e w₂ rfl
      exact ⟨rfl, s, h₁, .inl rfl⟩
  · rintro e w₁ rfl
    exact ⟨rfl, s, ⟨rfl, rfl, rfl, rfl, fun _ _ => rfl, hs⟩, .inl rfl⟩

end Calls

/-! ## What a source says about a point's history -/

section Tracking

variable [Rounding]

/-- Source `s` keeps what its maps should say of a point with this history, which was
    activated with this origin. -/
structure Tracks (s : PointSource) (p : PointConfig) (events : List PointEvent) (origin : ℚ) :
    Prop where
  activated : s.activated.get? p.pointId = some origin
  history : History origin p.staleAfterMs events
  lastResult : s.lastResult.get? p.pointId = lastPublished events
  stale : staleSince events = true → s.quality.get? p.pointId = some .stale
  held : ∃ o, s.origins.get? p.pointId = some o
  /-- Only an event that leaves the point STALE moves an origin that is still needed. -/
  unmoved : lastPublished events = none → s.quality.get? p.pointId ≠ some .stale →
    s.origins.get? p.pointId = some origin

theorem Tracks.last {s : PointSource} {p : PointConfig} {events : List PointEvent} {origin : ℚ}
    (h : Tracks s p events origin) (hq : s.quality.get? p.pointId ≠ some .stale) :
    s.last p.pointId = some ((lastPublished events).getD origin) := by
  obtain ⟨o, ho⟩ := h.held
  show (do
    let origin ← s.origins.get? p.pointId
    return (s.lastResult.get? p.pointId).getD origin) = _
  rw [h.lastResult]
  cases hlast : lastPublished events with
  | some t =>
      rw [ho]
      rfl
  | none =>
      rw [h.unmoved hlast hq]
      rfl

section Origins

omit [Rounding]

variable {s : PointSource} {p : PointConfig} {clock : Core.CaptureTime} {completed : ℚ}
  {nominal : Option ℚ} {origins : Dict PyStr ℚ}

theorem Regrids.other (h : Regrids s p clock completed nominal origins) {q : PyStr}
    (hq : q ≠ p.pointId) : origins.get? q = s.origins.get? q := by
  cases h with
  | keep => rfl
  | move => rw [Dict.get?_set, if_neg hq]

/-- The first event of a point does not move its origin. -/
theorem Regrids.first (h : Regrids s p clock completed nominal origins)
    (hfirst : s.timeEpochs.get? p.pointId = none) : origins = s.origins := by
  cases h with
  | keep => rfl
  | move hepoch =>
      rw [hfirst] at hepoch
      cases hepoch

theorem Regrids.held (h : Regrids s p clock completed nominal origins)
    (ho : ∃ o, s.origins.get? p.pointId = some o) : ∃ o, origins.get? p.pointId = some o := by
  cases h with
  | keep => exact ho
  | move => exact ⟨_, Dict.get?_set_self _ _ _⟩

end Origins

section Keeps

variable {s s' : PointSource} {p p' : PointConfig} {clock : Core.CaptureTime} {completed : ℚ}
  {nominal : Option ℚ} {events : List PointEvent} {origin : ℚ}

/-- An event of another point. -/
theorem Tracks.other (h : Tracks s p events origin) (hs : Published s s' p' clock completed nominal)
    (hne : p.pointId ≠ p'.pointId) : Tracks s' p events origin where
  activated := by rw [hs.activated, h.activated]
  history := h.history
  lastResult := by rw [hs.lastResult, h.lastResult]
  stale hstale := by rw [hs.quality _ hne, h.stale hstale]
  held := by
    rw [hs.origins.other hne]
    exact h.held
  unmoved hlast hq := by
    rw [hs.quality _ hne] at hq
    rw [hs.origins.other hne, h.unmoved hlast hq]

/-- An event of the point after a result: neither its quality nor its origin matters. -/
theorem Tracks.touched (h : Tracks s p events origin)
    (hs : Published s s' p' clock completed nominal) (hp : p.pointId = p'.pointId)
    (hstale : staleSince events = false) (hlast : lastPublished events ≠ none) :
    Tracks s' p events origin where
  activated := by rw [hs.activated, h.activated]
  history := h.history
  lastResult := by rw [hs.lastResult, h.lastResult]
  stale htrue := by
    rw [hstale] at htrue
    cases htrue
  held := by
    have hheld := h.held
    rw [hp] at hheld ⊢
    exact hs.origins.held hheld
  unmoved hnone := absurd hnone hlast

/-- A result of the point is put. -/
theorem Tracks.result (h : Tracks s p events origin) (hstale : staleSince events = false)
    (hlast : lastPublished events ≠ none) {t : ℚ} {sample : Sample}
    (hkind : sample.kind = .physicalResult) : Tracks s p (events ++ [.put t sample]) origin where
  activated := h.activated
  history := .result h.history hkind
  lastResult := by rw [lastPublished_put, h.lastResult]
  stale htrue := by
    rw [staleSince_put, hstale, decide_eq_false (result_isState hkind .stale)] at htrue
    cases htrue
  held := h.held
  unmoved hnone := absurd (lastPublished_put events t sample ▸ hnone) hlast

/-- A result of the point is published. -/
theorem Tracks.publish (h : Tracks s p events origin) (t : ℚ) :
    Tracks { s with lastResult := s.lastResult.set p.pointId t } p (events ++ [.published t])
      origin where
  activated := h.activated
  history := .published t h.history
  lastResult := by rw [lastPublished_published, Dict.get?_set_self]
  stale htrue := by
    rw [staleSince_published] at htrue
    cases htrue
  held := h.held
  unmoved hnone := by
    rw [lastPublished_published] at hnone
    cases hnone

/-- STALE is put. -/
theorem Tracks.expired (h : Tracks s p events origin) (hs : Published s s' p clock completed nominal)
    (hfirst : s.quality.get? p.pointId ≠ some .stale)
    (hquality : s'.quality.get? p.pointId = some .stale) {sample : Sample}
    (hsample : sample.isState .stale)
    (hdue : overdue p.staleAfterMs ((lastPublished events).getD origin) completed = true) :
    Tracks s' p (events ++ [.put completed sample]) origin where
  activated := by rw [hs.activated, h.activated]
  history := by
    refine .stale h.history hsample ?_ hdue
    exact Bool.eq_false_iff.mpr fun hstale => hfirst (h.stale hstale)
  lastResult := by rw [lastPublished_put, hs.lastResult, h.lastResult]
  stale _ := hquality
  held := hs.origins.held h.held
  unmoved _ hq := absurd hquality hq

end Keeps

end Tracking

end PlcnextIot.Points
