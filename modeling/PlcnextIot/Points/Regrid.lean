/-
  PlcnextIot.Points.Regrid

  The origin of a point's slots, when the clock generation changes.

  The first event of another generation moves the origin along the poll grid, to the
  first slot that is neither before the start of the generation nor before the slot that
  comes next for the point.  `Regridded` says what the source knows of a point, and what
  the samples that were put for it tell.
-/

import PlcnextIot.Points.EventRuns
import PlcnextIot.Points.Slots

namespace PlcnextIot.Points

open PlcnextIot.Python PlcnextIot.Config PlcnextIot.Effect PlcnextIot.Effect.Prog

/-! ## The slot that is chosen -/

theorem gridSlot_cases {q since interval : ℤ} (hpos : 0 < interval) :
    (since ≤ q ∧ gridSlot q since interval = q) ∨
      (q < since ∧ ∃ n : ℤ, gridSlot q since interval = q + n * interval ∧
        since ≤ q + n * interval ∧ q + (n - 1) * interval < since) := by
  obtain ⟨hle, hlt⟩ := ceil_spec hpos (since - q)
  rw [gridSlot, Int.fdiv_eq_ediv_of_nonneg _ hpos.le]
  by_cases hsince : since ≤ q
  · refine .inl ⟨hsince, ?_⟩
    have hquotient : (since - q + interval - 1) / interval < 1 :=
      Int.ediv_lt_of_lt_mul hpos (by omega)
    rw [max_eq_left (by omega), Int.zero_mul, Int.add_zero]
  · have hquotient : 0 ≤ (since - q + interval - 1) / interval := Int.ediv_nonneg (by omega) hpos.le
    refine .inr ⟨not_le.mp hsince, _, by rw [max_eq_right hquotient], ?_, ?_⟩
    · omega
    · omega

/-- The slot is on the grid through `q`, and the first one from both times on. -/
theorem gridSlot_spec {q since interval : ℤ} (hpos : 0 < interval) :
    interval ∣ gridSlot q since interval - q ∧ since ≤ gridSlot q since interval ∧
      ∀ t, interval ∣ t - q → q ≤ t → since ≤ t → gridSlot q since interval ≤ t := by
  rcases gridSlot_cases hpos with ⟨hsince, hslot⟩ | ⟨hsince, n, hslot, hle, hlt⟩
  · rw [hslot, Int.sub_self]
    exact ⟨dvd_zero _, hsince, fun t _ hq _ => hq⟩
  · rw [hslot, add_sub_cancel_left]
    refine ⟨dvd_mul_left _ _, hle, ?_⟩
    rintro t ⟨m, hm⟩ - ht
    -- an earlier slot of the grid is at least one interval earlier
    by_contra hearly
    have hmul : m * interval < n * interval := by
      rw [Int.mul_comm m]
      omega
    have hless : m < n := lt_of_mul_lt_mul_right hmul hpos.le
    have hbound : m * interval ≤ (n - 1) * interval :=
      Int.mul_le_mul_of_nonneg_right (by omega) hpos.le
    rw [Int.mul_comm m] at hbound
    omega

/-! ## What an event does to the origin -/

/-- The samples that were put. -/
def samplesPut (events : List PointEvent) : List Sample :=
  events.filterMap fun e => match e with
    | .published _ => none
    | .put _ sample => some sample

@[simp] theorem samplesPut_published (events : List PointEvent) (t : ℚ) :
    samplesPut (events ++ [.published t]) = samplesPut events := by simp [samplesPut]

@[simp] theorem samplesPut_put (events : List PointEvent) (t : ℚ) (sample : Sample) :
    samplesPut (events ++ [.put t sample]) = samplesPut events ++ [sample] := by simp [samplesPut]

/-- What a sample tells of the slots of its point. -/
structure Stamped (clock : Core.CaptureTime) (origin : ℚ) (nominal : Option ℚ) (kind : EventKind)
    (sample : Sample) : Prop where
  origin : sample.nominalOriginMonoMs = some (roundHalfEven origin)
  nominal : sample.nominalPollDueMonoMs = nominal.map roundHalfEven
  generation : sample.timeGeneration = clock.generation
  kind : sample.kind = kind

/-- What `_emit` has done to its source, wherever it stops. -/
inductive Emission (inp : SamplingInputs) (k : ℕ) (p : PointConfig) (completed : ℚ)
    (nominal : Option ℚ) (kind : EventKind) (w : Sampling) (s : PointSource) (w' : Sampling) : Prop
  | idle (hon : OnSource k w w' s) (hhistory : w'.history = w.history)
      (hreads : w.clockReads ≤ w'.clockReads)
  | stamped {clock : Core.CaptureTime} {origins : Dict PyStr ℚ} {quality : Dict PyStr Quality}
      (hclock : inp.clock w.clockReads = some clock) (hreads : w'.clockReads = w.clockReads + 1)
      (horigins : Regrids s p clock completed nominal origins)
      (hon : OnSource k w w' { s with
        origins, quality, timeEpochs := s.timeEpochs.set p.pointId clock.generation })
      (hhistory : w'.history = w.history ∨ ∃ sample origin,
        origins.get? p.pointId = some origin ∧ Stamped clock origin nominal kind sample ∧
        w'.history = (w.note k p.pointId (.put completed sample)).history) :
      Emission inp k p completed nominal kind w s w'

section Emit

variable [Reporting.Footprint] [EventCharge]

omit [Reporting.Footprint] [EventCharge] in
theorem regrid_reads {k : ℕ} (p : PointConfig) (clock : Core.CaptureTime) (completed : ℚ)
    (nominal : Option ℚ) (w : Sampling) :
    wp (regrid k p clock completed nominal) (fun _ w' => w'.clockReads = w.clockReads)
      (fun _ w' => w'.clockReads = w.clockReads) w := by
  rw [regrid, wp_bind, source, wp_bind, wp_get, wp_item]
  refine ⟨fun s _ => ?_, fun _ => rfl⟩
  cases s.timeEpochs.get? p.pointId with
  | none => exact rfl
  | some epoch =>
      show wp (if epoch ≠ clock.generation then _ else _) _ _ w
      rw [wp_ite]
      refine ⟨fun _ => ?_, fun _ => rfl⟩
      cases nominal with
      | some q => exact rfl
      | none =>
          show wp (item _ >>= _) _ _ w
          rw [wp_bind, wp_item]
          exact ⟨fun _ _ => rfl, fun _ => rfl⟩

/-- `_emit` of an event that is not published. -/
theorem emit_discarded_reads (inp : SamplingInputs) (k : ℕ) (p : PointConfig) (value : Option Value)
    (quality : Quality) (completed : ℚ) (nominal : Option ℚ) (kind : EventKind) (w : Sampling) :
    wp (emit inp k p value quality completed nominal kind false)
      (fun _ w' => ∃ buffer reads, w.clockReads ≤ reads ∧ w' = { w with buffer, clockReads := reads })
      (fun _ w' => ∃ buffer reads, w.clockReads ≤ reads ∧ w' = { w with buffer, clockReads := reads })
      w := by
  have hread : w.clockReads ≤ w.clockReads + 1 := Nat.le_succ _
  rw [emit, wp_bind]
  refine (readClock_spec inp w).mono ?_ ?_
  · rintro clock w₁ ⟨-, rfl⟩
    simp only [Bool.false_eq_true, ↓reduceIte, wp_bind, wp_get, source, wp_item, wp_onBuffer,
      wp_modify]
    refine ⟨fun s _ => ⟨fun origin _ => ?_, fun _ => ⟨w.buffer, _, hread, rfl⟩⟩,
      fun _ => ⟨w.buffer, _, hread, rfl⟩⟩
    exact wp_of_forall (fun _ b => ⟨_, _, hread, rfl⟩) fun _ b => ⟨_, _, hread, rfl⟩
  · rintro e w₁ rfl
    exact ⟨w.buffer, _, hread, rfl⟩

/-- `_emit` of an event that is published. -/
theorem emit_emission (inp : SamplingInputs) {k : ℕ} {w : Sampling} {s : PointSource}
    (hs : w.sources[k]? = some s) (p : PointConfig) (value : Option Value) (quality : Quality)
    (completed : ℚ) (nominal : Option ℚ) (kind : EventKind) :
    wp (emit inp k p value quality completed nominal kind true)
      (fun _ => Emission inp k p completed nominal kind w s)
      (fun _ => Emission inp k p completed nominal kind w s) w := by
  have hidle : Emission inp k p completed nominal kind w s { w with clockReads := w.clockReads + 1 } :=
    .idle ⟨rfl, rfl, rfl, rfl, fun _ _ => rfl, hs⟩ rfl (Nat.le_succ _)
  rw [emit, wp_bind]
  refine (readClock_spec inp w).mono ?_ ?_
  · rintro clock w₁ ⟨hclock, rfl⟩
    have h₁ : OnSource k w { w with clockReads := w.clockReads + 1 } s :=
      ⟨rfl, rfl, rfl, rfl, fun _ _ => rfl, hs⟩
    simp only [↓reduceIte, wp_bind, wp_modify]
    refine ((regrid_spec h₁.own p clock completed nominal).and
      (regrid_reads p clock completed nominal _)).mono ?_ ?_
    · rintro - w₂ ⟨⟨origins, horigins, h₂, hhistory⟩, hreads⟩
      have h₃ := (h₁.trans h₂).setSource fun s =>
        { s with timeEpochs := s.timeEpochs.set p.pointId clock.generation }
      rw [wp_source h₃.own, wp_item]
      refine ⟨fun origin horigin => ?_, fun _ => .stamped hclock hreads horigins h₃ (.inl hhistory)⟩
      rw [wp_get, wp_onBuffer]
      refine (capture_spec _ _).mono ?_ fun e buffer _ =>
        .stamped hclock hreads horigins (h₃.withBuffer buffer) (.inl hhistory)
      rintro sample buffer ⟨bootId, sequence, gatewayId, value', hsample⟩
      have h₄ := (h₃.withBuffer buffer).setSource fun s =>
        { s with quality := s.quality.set p.pointId quality }
      have hstamped : Stamped clock origin nominal kind sample := by
        rw [hsample]
        exact ⟨rfl, rfl, rfl, rfl⟩
      rw [wp_onBuffer]
      refine wp_of_forall (fun _ b => ?_) fun e b => ?_
      · exact .stamped hclock hreads horigins ((h₄.withBuffer b).note _ _ _)
          (.inr ⟨sample, origin, horigin, hstamped, note_history hhistory⟩)
      · exact .stamped hclock hreads horigins (h₄.withBuffer b) (.inl hhistory)
    · rintro e w₂ ⟨rfl, -⟩
      exact hidle
  · rintro e w₁ rfl
    exact hidle

end Emit

/-- The samples put for a point when a result is published. -/
theorem samplesPut_noted (w : Sampling) (k : ℕ) (point : PyStr) (t : ℚ) (q : PyStr) :
    samplesPut ((w.note k point (.published t)).history k q) = samplesPut (w.history k q) := by
  by_cases hq : q = point
  · rw [note_self _ hq, samplesPut_published]
  · rw [note_other _ hq]

/-! ## What a source knows of a point's slots -/

/-- Clock generations are entered one after the other, and each has its start. -/
structure Clocked (inp : SamplingInputs) (start : ℤ → ℤ) : Prop where
  started : ∀ i clock, inp.clock i = some clock →
    clock.generationStartedMonoMs = some (start clock.generation)
  ordered : ∀ i j clock later, inp.clock i = some clock → inp.clock j = some later → i ≤ j →
    clock.generation ≤ later.generation
  monotone : Monotone start

/-- The slot that comes next for a point, which is its first one until another is
    planned. -/
def PointSource.planned (s : PointSource) (point : PyStr) : Option ℚ :=
  (s.activated.get? point).map fun first => (s.nextNominal.get? point).getD first

/-- The slots of a point whose poll grid begins at `base`, and the samples put for it. -/
structure Regridded (inp : SamplingInputs) (start : ℤ → ℤ) (reads : ℕ) (s : PointSource)
    (p : PointConfig) (puts : List Sample) (base origin planned : ℤ) : Prop where
  activated : s.activated.get? p.pointId = some (base : ℚ)
  stands : s.origins.get? p.pointId = some (origin : ℚ)
  plans : s.planned p.pointId = some (planned : ℚ)
  onGrid : p.pollIntervalMs ∣ origin - base ∧ p.pollIntervalMs ∣ planned - base
  begun : base ≤ planned
  /-- Before the first event nothing was put. -/
  fresh : s.timeEpochs.get? p.pointId = none → puts = [] ∧ origin = base
  read : ∀ epoch, s.timeEpochs.get? p.pointId = some epoch →
    ∃ i < reads, ∃ clock, inp.clock i = some clock ∧ clock.generation = epoch
  /-- The origin is the first one, or a slot of the generation that no later slot of it
      precedes. -/
  settled : ∀ epoch, s.timeEpochs.get? p.pointId = some epoch →
    (origin = base ∧ ∀ t ∈ puts, t.timeGeneration = epoch) ∨
      (start epoch ≤ origin ∧
        ∀ t, p.pollIntervalMs ∣ t - base → planned ≤ t → start epoch ≤ t → origin ≤ t)
  /-- The samples of the current generation have this origin. -/
  current : ∀ epoch, s.timeEpochs.get? p.pointId = some epoch → ∀ t ∈ puts,
    t.timeGeneration ≤ epoch ∧ (t.timeGeneration = epoch → t.nominalOriginMonoMs = some origin)

/-- What the samples put for a point say of its slots. -/
structure Slotted (start : ℤ → ℤ) (interval base : ℤ) (puts : List Sample) : Prop where
  /-- The origin of a sample is on the poll grid. -/
  onGrid : ∀ t ∈ puts, ∃ origin, t.nominalOriginMonoMs = some origin ∧ interval ∣ origin - base
  /-- The samples of a generation have one origin. -/
  agree : ∀ t ∈ puts, ∀ u ∈ puts, t.timeGeneration = u.timeGeneration →
    t.nominalOriginMonoMs = u.nominalOriginMonoMs
  /-- It is not before the start of the generation, unless this is the first one. -/
  started : puts.Pairwise fun t u => t.timeGeneration ≤ u.timeGeneration ∧
    (t.timeGeneration < u.timeGeneration →
      ∀ origin, u.nominalOriginMonoMs = some origin → start u.timeGeneration ≤ origin)
  /-- A physical result of the generation has its slot at the origin or behind it. -/
  behind : ∀ t ∈ puts, t.kind = .physicalResult → ∀ slot, t.nominalPollDueMonoMs = some slot →
    start t.timeGeneration ≤ slot → ∀ origin, t.nominalOriginMonoMs = some origin → origin ≤ slot

section Keeps

variable {inp : SamplingInputs} {start : ℤ → ℤ} {reads reads' : ℕ} {s s' : PointSource}
  {p p' : PointConfig} {puts : List Sample} {base origin planned : ℤ} {clock : Core.CaptureTime}
  {completed : ℚ} {nominal : Option ℚ} {kind : EventKind}

/-- Another point, or another field of the source. -/
theorem Regridded.congr (h : Regridded inp start reads s p puts base origin planned)
    (hactivated : s'.activated.get? p.pointId = s.activated.get? p.pointId)
    (horigins : s'.origins.get? p.pointId = s.origins.get? p.pointId)
    (hnext : s'.nextNominal.get? p.pointId = s.nextNominal.get? p.pointId)
    (hepochs : s'.timeEpochs.get? p.pointId = s.timeEpochs.get? p.pointId)
    (hreads : reads ≤ reads') : Regridded inp start reads' s' p puts base origin planned where
  activated := hactivated.trans h.activated
  stands := horigins.trans h.stands
  plans := by
    rw [PointSource.planned, hactivated, hnext]
    exact h.plans
  onGrid := h.onGrid
  begun := h.begun
  fresh := by
    rw [hepochs]
    exact h.fresh
  read epoch hepoch := by
    rw [hepochs] at hepoch
    obtain ⟨i, hi, hclock⟩ := h.read epoch hepoch
    exact ⟨i, hi.trans_le hreads, hclock⟩
  settled := by
    rw [hepochs]
    exact h.settled
  current := by
    rw [hepochs]
    exact h.current

/-- The next slot of the point is at or behind its origin, once it is in the
    generation. -/
theorem Regridded.reached (h : Regridded inp start reads s p puts base origin planned) {epoch t : ℤ}
    (hepoch : s.timeEpochs.get? p.pointId = some epoch) (hgrid : p.pollIntervalMs ∣ t - base)
    (hplanned : planned ≤ t) (hstart : start epoch ≤ t) : origin ≤ t := by
  rcases h.settled epoch hepoch with ⟨rfl, -⟩ | ⟨-, hleast⟩
  · exact h.begun.trans hplanned
  · exact hleast t hgrid hplanned hstart

/-- Where the first event of another generation looks for its slot. -/
theorem Regridded.sought (h : Regridded inp start reads s p puts base origin planned) {q : ℚ}
    (hnominal : nominal = none ∨ nominal = some (planned : ℚ))
    (hq : nominal = some q ∨ nominal = none ∧ ∃ o, s.origins.get? p.pointId = some o ∧
      q = (s.nextNominal.get? p.pointId).getD o) : q = (planned : ℚ) ∨ q = (origin : ℚ) := by
  rcases hq with hsome | ⟨-, o, ho, rfl⟩
  · rcases hnominal with hnone | hsome'
    · rw [hnone] at hsome
      cases hsome
    · rw [hsome'] at hsome
      exact .inl (Option.some.inj hsome).symm
  · rw [h.stands] at ho
    obtain rfl := Option.some.inj ho
    have hplanned := h.plans
    rw [PointSource.planned, h.activated, Option.map_some] at hplanned
    cases hnext : s.nextNominal.get? p.pointId with
    | some next =>
        -- a slot was planned since the activation
        rw [hnext] at hplanned
        exact .inl (Option.some.inj hplanned)
    | none => exact .inr rfl

/-- The slot from which the search starts is on the grid, and no later slot of the new
    generation precedes it. -/
theorem Regridded.sought_slot (h : Regridded inp start reads s p puts base origin planned) {q : ℚ}
    (hnominal : nominal = none ∨ nominal = some (planned : ℚ))
    (hq : nominal = some q ∨ nominal = none ∧ ∃ o, s.origins.get? p.pointId = some o ∧
      q = (s.nextNominal.get? p.pointId).getD o) {epoch : ℤ}
    (hepoch : s.timeEpochs.get? p.pointId = some epoch) {begins : ℤ} (hstarts : start epoch ≤ begins) :
    ∃ slot : ℤ, q = (slot : ℚ) ∧ p.pollIntervalMs ∣ slot - base ∧
      ∀ t, p.pollIntervalMs ∣ t - base → planned ≤ t → begins ≤ t → slot ≤ t := by
  rcases h.sought hnominal hq with hplanned | horigin
  · exact ⟨planned, hplanned, h.onGrid.2, fun t _ ht _ => ht⟩
  · refine ⟨origin, horigin, h.onGrid.1, fun t ht hplanned hbegins => ?_⟩
    apply h.reached hepoch ht hplanned
    exact hstarts.trans hbegins

/-- The origin after an event, and what is known of it. -/
theorem Regridded.stamp (h : Regridded inp start reads s p puts base origin planned)
    (hclocked : Clocked inp start) (hpos : 0 < p.pollIntervalMs)
    (hclock : inp.clock reads = some clock) (hreads : reads < reads')
    (hnominal : nominal = none ∨ nominal = some (planned : ℚ)) {origins : Dict PyStr ℚ}
    (horigins : Regrids s p clock completed nominal origins) (quality : Dict PyStr Quality) :
    ∃ origin', Regridded inp start reads' { s with
      origins, quality, timeEpochs := s.timeEpochs.set p.pointId clock.generation } p puts base
      origin' planned := by
  have hself : ∀ {epoch : ℤ}, (s.timeEpochs.set p.pointId clock.generation).get? p.pointId =
      some epoch → epoch = clock.generation := by
    intro epoch hepoch
    rw [Dict.get?_set_self] at hepoch
    exact (Option.some.inj hepoch).symm
  have hread : ∃ i < reads', ∃ c, inp.clock i = some c ∧ c.generation = clock.generation :=
    ⟨reads, hreads, clock, hclock, rfl⟩
  have hentered : (s.timeEpochs.set p.pointId clock.generation).get? p.pointId ≠ none := by
    rw [Dict.get?_set_self]
    exact Option.some_ne_none _
  cases horigins with
  | keep hsame =>
      refine ⟨origin, h.activated, h.stands, h.plans, h.onGrid, h.begun,
        fun hnone => absurd hnone hentered, ?_, ?_, ?_⟩
      · rintro epoch hepoch
        rwa [hself hepoch]
      · intro epoch hepoch
        rw [hself hepoch]
        cases hold : s.timeEpochs.get? p.pointId with
        | none =>
            obtain ⟨rfl, rfl⟩ := h.fresh hold
            exact .inl ⟨rfl, by simp⟩
        | some old =>
            rw [← hsame old hold]
            exact h.settled old hold
      · intro epoch hepoch
        rw [hself hepoch]
        cases hold : s.timeEpochs.get? p.pointId with
        | none =>
            obtain ⟨rfl, rfl⟩ := h.fresh hold
            simp
        | some old =>
            rw [← hsame old hold]
            exact h.current old hold
  | @move epoch q hepoch hne hq =>
      -- generations are entered in their order
      obtain ⟨i, hi, earlier, hearlier, rfl⟩ := h.read epoch hepoch
      have hle := hclocked.ordered i reads earlier clock hearlier hclock hi.le
      have hlt : earlier.generation < clock.generation := lt_of_le_of_ne hle hne
      have hstarts := hclocked.monotone hle
      obtain ⟨slot, hslot, hgrid, hbehind⟩ := h.sought_slot hnominal hq hepoch hstarts
      rw [hslot, roundHalfEven_int, hclocked.started reads clock hclock, Option.getD_some]
      obtain ⟨hdvd, hstart, hleast⟩ := @gridSlot_spec slot (start clock.generation) _ hpos
      have hdvd' : p.pollIntervalMs ∣
          gridSlot slot (start clock.generation) p.pollIntervalMs - base := by
        have hsum := dvd_add hdvd hgrid
        rwa [sub_add_sub_cancel] at hsum
      refine ⟨gridSlot slot (start clock.generation) p.pollIntervalMs, h.activated,
        Dict.get?_set_self _ _ _, h.plans, ⟨hdvd', h.onGrid.2⟩, h.begun,
        fun hnone => absurd hnone hentered, ?_, ?_, ?_⟩
      · rintro epoch hepoch'
        rwa [hself hepoch']
      · intro epoch hepoch'
        rw [hself hepoch']
        refine .inr ⟨hstart, fun t ht hplanned hsince => hleast t ?_ (hbehind t ht hplanned hsince)
          hsince⟩
        have hdiff := dvd_sub ht hgrid
        rwa [sub_sub_sub_cancel_right] at hdiff
      · intro epoch hepoch' t ht
        rw [hself hepoch']
        have hold := (h.current _ hepoch t ht).1
        exact ⟨hold.trans hle, fun he => absurd he (hold.trans_lt hlt).ne⟩

/-- A sample was put after its event was stamped. -/
theorem Regridded.put (h : Regridded inp start reads s p puts base origin planned)
    (hepoch : s.timeEpochs.get? p.pointId = some clock.generation) {sample : Sample}
    (hsample : Stamped clock (origin : ℚ) nominal kind sample) :
    Regridded inp start reads s p (puts ++ [sample]) base origin planned := by
  have horigin : sample.nominalOriginMonoMs = some origin := by
    rw [hsample.origin, roundHalfEven_int]
  refine ⟨h.activated, h.stands, h.plans, h.onGrid, h.begun, fun hnone => ?_, h.read, ?_, ?_⟩
  · rw [hepoch] at hnone
    cases hnone
  · intro epoch hepoch'
    refine (h.settled epoch hepoch').imp (And.imp_right fun hall t ht => ?_) id
    rcases List.mem_append.mp ht with ht | ht
    · exact hall t ht
    · rw [hepoch] at hepoch'
      rw [List.mem_singleton.mp ht, hsample.generation, Option.some.inj hepoch']
  · intro epoch hepoch' t ht
    rcases List.mem_append.mp ht with ht | ht
    · exact h.current epoch hepoch' t ht
    · rw [hepoch] at hepoch'
      rw [List.mem_singleton.mp ht, hsample.generation]
      exact ⟨(Option.some.inj hepoch').le, fun _ => horigin⟩

/-- What the samples say, with one more. -/
theorem Slotted.put (h : Slotted start p.pollIntervalMs base puts)
    (hr : Regridded inp start reads s p puts base origin planned)
    (hepoch : s.timeEpochs.get? p.pointId = some clock.generation)
    (hnominal : nominal = none ∨ nominal = some (planned : ℚ)) {sample : Sample}
    (hsample : Stamped clock (origin : ℚ) nominal kind sample) :
    Slotted start p.pollIntervalMs base (puts ++ [sample]) := by
  have horigin : sample.nominalOriginMonoMs = some origin := by
    rw [hsample.origin, roundHalfEven_int]
  have hcurrent := hr.current _ hepoch
  refine ⟨fun t ht => ?_, fun t ht u hu he => ?_, ?_, fun t ht hkind slot hslot hstart o ho => ?_⟩
  · rcases List.mem_append.mp ht with ht | ht
    · exact h.onGrid t ht
    · rw [List.mem_singleton.mp ht]
      exact ⟨origin, horigin, hr.onGrid.1⟩
  · rcases List.mem_append.mp ht with ht | ht <;> rcases List.mem_append.mp hu with hu | hu
    · exact h.agree t ht u hu he
    · rw [List.mem_singleton.mp hu, hsample.generation] at he
      rw [List.mem_singleton.mp hu, (hcurrent t ht).2 he, horigin]
    · rw [List.mem_singleton.mp ht, hsample.generation] at he
      rw [List.mem_singleton.mp ht, (hcurrent u hu).2 he.symm, horigin]
    · rw [List.mem_singleton.mp ht, List.mem_singleton.mp hu]
  · refine List.pairwise_append.mpr ⟨h.started, List.pairwise_singleton _ _, fun t ht u hu => ?_⟩
    rw [List.mem_singleton.mp hu, hsample.generation]
    refine ⟨(hcurrent t ht).1, fun hlt o ho => ?_⟩
    rw [horigin] at ho
    obtain rfl := Option.some.inj ho
    -- Behind a sample of an earlier generation the origin is not the first one.
    rcases hr.settled _ hepoch with ⟨-, hall⟩ | ⟨hle, -⟩
    · exact absurd (hall t ht) hlt.ne
    · exact hle
  · rcases List.mem_append.mp ht with ht | ht
    · exact h.behind t ht hkind slot hslot hstart o ho
    · rw [List.mem_singleton.mp ht] at hslot hstart ho
      rw [horigin] at ho
      obtain rfl := Option.some.inj ho
      rw [hsample.generation] at hstart
      rw [hsample.nominal] at hslot
      rcases hnominal with rfl | rfl
      · cases hslot
      · rw [Option.map_some, roundHalfEven_int] at hslot
        obtain rfl := Option.some.inj hslot
        exact hr.reached hepoch hr.onGrid.2 le_rfl hstart

/-- A later slot was planned. -/
theorem Regridded.plan (h : Regridded inp start reads s p puts base origin planned) {slot : ℤ}
    (hle : planned ≤ slot) (hgrid : p.pollIntervalMs ∣ slot - base) :
    Regridded inp start reads { s with nextNominal := s.nextNominal.set p.pointId slot } p puts base
      origin slot where
  activated := h.activated
  stands := h.stands
  plans := by
    show (s.activated.get? p.pointId).map (fun first =>
      ((s.nextNominal.set p.pointId (slot : ℚ)).get? p.pointId).getD first) = _
    rw [h.activated, Dict.get?_set_self]
    rfl
  onGrid := ⟨h.onGrid.1, hgrid⟩
  begun := h.begun.trans hle
  fresh := h.fresh
  read := h.read
  settled epoch hepoch :=
    (h.settled epoch hepoch).imp id (And.imp_right fun hleast t ht hslot => hleast t ht (hle.trans hslot))
  current := h.current

end Keeps

/-! ## The sources of a boot -/

section Sources

variable {inp : SamplingInputs} {start : ℤ → ℤ} {w w' : Sampling} {k : ℕ} {s s' : PointSource}
  {p : PointConfig} {completed : ℚ} {nominal : Option ℚ} {kind : EventKind}

/-- What source `k` knows of the slots of its points, and what their samples say. -/
structure Gridded (inp : SamplingInputs) (start : ℤ → ℤ) (w : Sampling) (k : ℕ) (s : PointSource) :
    Prop where
  distinct : (s.context.points.map (·.pointId)).Nodup
  spaced : ∀ p ∈ s.context.points, 0 < p.pollIntervalMs
  slots : ∀ p ∈ s.context.points, ∃ base origin planned,
    Regridded inp start w.clockReads s p (samplesPut (w.history k p.pointId)) base origin planned ∧
      Slotted start p.pollIntervalMs base (samplesPut (w.history k p.pointId))

/-- Two points of a source are different where their ids are. -/
theorem Gridded.pointId_ne (h : Gridded inp start w k s) {q : PointConfig}
    (hp : p ∈ s.context.points) (hq : q ∈ s.context.points) (hne : q ≠ p) :
    q.pointId ≠ p.pointId := fun he => hne (List.inj_on_of_nodup_map h.distinct hq hp he)

/-- The clock was read, and events were published without a sample. -/
theorem Gridded.congr (h : Gridded inp start w k s) (hcontext : s'.context = s.context)
    (hactivated : s'.activated = s.activated) (horigins : s'.origins = s.origins)
    (hnext : s'.nextNominal = s.nextNominal) (hepochs : s'.timeEpochs = s.timeEpochs)
    (hreads : w.clockReads ≤ w'.clockReads)
    (hputs : ∀ point, samplesPut (w'.history k point) = samplesPut (w.history k point)) :
    Gridded inp start w' k s' := by
  refine ⟨?_, ?_, ?_⟩
  · rw [hcontext]
    exact h.distinct
  · rw [hcontext]
    exact h.spaced
  · rw [hcontext]
    intro p hp
    obtain ⟨base, origin, planned, hregridded, hslotted⟩ := h.slots p hp
    rw [hputs]
    refine ⟨base, origin, planned, hregridded.congr ?_ ?_ ?_ ?_ hreads, hslotted⟩
    · rw [hactivated]
    · rw [horigins]
    · rw [hnext]
    · rw [hepochs]

/-- What one event of a point leaves: the source of before with another origin, or with a
    sample more. -/
structure Emitted (inp : SamplingInputs) (start : ℤ → ℤ) (k : ℕ) (w : Sampling) (s : PointSource)
    (w' : Sampling) (s' : PointSource) : Prop where
  on : OnSource k w w' s'
  context : s'.context = s.context
  planned : ∀ q, s'.planned q = s.planned q
  reads : w.clockReads ≤ w'.clockReads
  others : ∀ j, j ≠ k → w'.history j = w.history j
  gridded : Gridded inp start w' k s'

/-- An event of a point keeps the slots of its source when its nominal slot, if it has
    one, is the slot that comes next. -/
theorem Emission.keeps (h : Emission inp k p completed nominal kind w s w')
    (hclocked : Clocked inp start) (hg : Gridded inp start w k s) (hp : p ∈ s.context.points)
    (hnominal : nominal = none ∨ nominal = s.planned p.pointId) :
    ∃ s', Emitted inp start k w s w' s' := by
  cases h with
  | idle hon hhistory hreads =>
      refine ⟨s, hon, rfl, fun _ => rfl, hreads, fun j _ => by rw [hhistory], ?_⟩
      exact hg.congr rfl rfl rfl rfl rfl hreads fun point => by rw [hhistory]
  | @stamped clock origins quality hclock hreads horigins hon hhistory =>
      refine ⟨_, hon, rfl, fun _ => rfl, by omega, fun j hj => ?_, hg.distinct, hg.spaced,
        fun q hq => ?_⟩
      · rcases hhistory with hsame | ⟨sample, origin, -, -, hnote⟩
        · rw [hsame]
        · rw [hnote, note_source _ _ hj]
      obtain ⟨base, origin, planned, hregridded, hslotted⟩ := hg.slots q hq
      -- Only the grid of the point itself can move.
      by_cases hqp : q = p
      · subst hqp
        have hnominal' : nominal = none ∨ nominal = some (planned : ℚ) := by
          rwa [hregridded.plans] at hnominal
        obtain ⟨origin', hstamped⟩ := hregridded.stamp hclocked (hg.spaced q hq) hclock
          (show w.clockReads < w'.clockReads by omega) hnominal' horigins quality
        rcases hhistory with hsame | ⟨sample, held, hheld, hsample, hnote⟩
        · rw [hsame]
          exact ⟨base, origin', planned, hstamped, hslotted⟩
        · have horigin : held = origin' := Option.some.inj (hheld.symm.trans hstamped.stands)
          have hepoch : (s.timeEpochs.set q.pointId clock.generation).get? q.pointId =
              some clock.generation := Dict.get?_set_self _ _ _
          subst horigin
          rw [hnote, note_self _ rfl, samplesPut_put]
          exact ⟨base, origin', planned, hstamped.put hepoch hsample,
            hslotted.put hstamped hepoch hnominal' hsample⟩
      · have hid := hg.pointId_ne hp hq hqp
        have hputs : samplesPut (w'.history k q.pointId) = samplesPut (w.history k q.pointId) := by
          rcases hhistory with hsame | ⟨sample, _, -, -, hnote⟩
          · rw [hsame]
          · rw [hnote, note_other _ hid]
        rw [hputs]
        refine ⟨base, origin, planned, hregridded.congr rfl ?_ rfl ?_ (by omega), hslotted⟩
        · exact horigins.other hid
        · show (s.timeEpochs.set p.pointId clock.generation).get? q.pointId = _
          rw [Dict.get?_set, if_neg hid]

/-- The slots of every source. -/
structure OnGrids (inp : SamplingInputs) (start : ℤ → ℤ) (w : Sampling) : Prop where
  gridded : ∀ k s, w.sources[k]? = some s → Gridded inp start w k s
  unstarted : ∀ k, w.sources.length ≤ k → ∀ point, w.history k point = []

/-- What is done at one source leaves the other ones alone. -/
theorem OnGrids.onSource (h : OnGrids inp start w) (hs : w.sources[k]? = some s)
    (hon : OnSource k w w' s') (hreads : w.clockReads ≤ w'.clockReads)
    (hothers : ∀ j, j ≠ k → w'.history j = w.history j) (hg : Gridded inp start w' k s') :
    OnGrids inp start w' where
  gridded j t hj := by
    by_cases hjk : j = k
    · subst hjk
      rw [hon.own] at hj
      rwa [← Option.some.inj hj]
    · rw [hon.others j hjk] at hj
      exact (h.gridded j t hj).congr rfl rfl rfl rfl rfl hreads fun point => by rw [hothers j hjk]
  unstarted j hj point := by
    rw [hon.length] at hj
    have hjk : j ≠ k := by
      rintro rfl
      rw [List.getElem?_eq_none hj] at hs
      cases hs
    rw [hothers j hjk]
    exact h.unstarted j hj point

theorem OnGrids.emitted (h : OnGrids inp start w) (hs : w.sources[k]? = some s)
    (he : Emitted inp start k w s w' s') : OnGrids inp start w' :=
  h.onSource hs he.on he.reads he.others he.gridded

/-- The origins of a context are whole milliseconds, and its points are polled some time
    apart. -/
structure Whole (context : SampleContext) (origins : Dict PyStr ℚ) : Prop where
  distinct : (context.points.map (·.pointId)).Nodup
  spaced : ∀ p ∈ context.points, 0 < p.pollIntervalMs
  whole : ∀ p ∈ context.points, ∃ base ∈ origins.get? p.pointId, base.den = 1

/-- A new source, before its UNKNOWN events. -/
theorem OnGrids.enter (h : OnGrids inp start w) (object : ℕ) {context : SampleContext}
    {origins : Dict PyStr ℚ} (hwhole : Whole context origins) :
    OnGrids inp start (w.enter object context origins) where
  gridded j t hj := by
    have hj : (w.sources ++ [{ context, activated := origins, origins }])[j]? = some t := hj
    rcases Nat.lt_trichotomy j w.sources.length with hlt | rfl | hgt
    · rw [List.getElem?_append_left hlt] at hj
      exact (h.gridded j t hj).congr rfl rfl rfl rfl rfl le_rfl fun _ => rfl
    · rw [List.getElem?_concat_length] at hj
      obtain rfl := Option.some.inj hj
      refine ⟨hwhole.distinct, hwhole.spaced, fun p hp => ?_⟩
      obtain ⟨base, hbase, hden⟩ := hwhole.whole p hp
      have hbase : origins.get? p.pointId = some (base.num : ℚ) := by
        rw [Rat.coe_int_num_of_den_eq_one hden]
        exact hbase
      have hnone : samplesPut ((w.enter object context origins).history w.sources.length p.pointId) =
          [] := by
        show samplesPut (w.history w.sources.length p.pointId) = []
        rw [h.unstarted _ le_rfl]
        rfl
      rw [hnone]
      refine ⟨base.num, base.num, base.num, ⟨hbase, hbase, ?_, by simp, le_rfl, fun _ => ⟨rfl, rfl⟩,
        fun _ he => (by cases he), fun _ he => (by cases he), fun _ he => (by cases he)⟩,
        ⟨by simp, by simp, List.Pairwise.nil, by simp⟩⟩
      show (origins.get? p.pointId).map _ = _
      rw [hbase]
      rfl
    · rw [List.getElem?_eq_none (by rw [List.length_append]; exact hgt)] at hj
      cases hj
  unstarted j hj point := by
    have hlength : (w.enter object context origins).sources.length = w.sources.length + 1 :=
      List.length_append
    exact h.unstarted j (by omega) point

end Sources

/-! ## The calls -/

/-- The source that an object holds. -/
def Sampling.held (w : Sampling) (object : ℕ) : Option PointSource :=
  (w.holds object).bind fun k => w.sources[k]?

/-- What the runners do with the slots.  They read a point at its next slot, and plan a
    slot that is a number of polls later. -/
def SamplingCall.Scheduled (w : Sampling) : SamplingCall → Prop
  | .activate _ context origins _ => Whole context origins
  | .result object context p _ _ nominal _ publish => publish = true → ∀ s ∈ w.held object,
      s.context = context → p ∈ context.points ∧ s.planned p.pointId = some nominal
  | .expire _ _ => True
  | .plan object point slot => ∀ s ∈ w.held object, ∀ p ∈ s.context.points, p.pointId = point →
      ∃ planned ∈ s.planned point, planned ≤ slot ∧ ((slot - planned) / p.pollIntervalMs).den = 1

section Calls

variable [Reporting.Footprint] [EventCharge] {inp : SamplingInputs} {start : ℤ → ℤ} {w : Sampling}

omit [Reporting.Footprint] [EventCharge] in
/-- State events of some points, one after the other, at a source that stays. -/
theorem each_emitted (hclocked : Clocked inp start) {k : ℕ} {s : PointSource}
    (points : List PointConfig) (h : OnGrids inp start w) (hs : w.sources[k]? = some s)
    (hpoints : ∀ p ∈ points, p ∈ s.context.points) (f : PointConfig → SamplingM Unit)
    (hf : ∀ p ∈ points, ∀ w₁ s₁, w₁.sources[k]? = some s₁ →
      wp (f p)
        (fun _ w₂ => w₂ = w₁ ∨ ∃ completed quality, Emission inp k p completed none quality w₁ s₁ w₂)
        (fun _ w₂ => w₂ = w₁ ∨ ∃ completed quality, Emission inp k p completed none quality w₁ s₁ w₂)
        w₁) :
    wp (each points f) (fun _ => OnGrids inp start) (fun _ => OnGrids inp start) w := by
  refine (wp_each_done (I := fun _ w₁ => OnGrids inp start w₁ ∧ ∃ s₁, w₁.sources[k]? = some s₁ ∧
    s₁.context = s.context) (E := fun _ => OnGrids inp start) (fun done p rest hsplit w₁ h₁ => ?_)
    ⟨h, s, hs, rfl⟩).mono (fun _ _ hw => hw.1) fun _ _ hw => hw
  obtain ⟨hgrids, s₁, hs₁, hcontext⟩ := h₁
  have hmem : p ∈ points := by
    rw [hsplit]
    exact List.mem_append_right _ List.mem_cons_self
  have hp : p ∈ s₁.context.points := by
    rw [hcontext]
    exact hpoints p hmem
  have hafter : ∀ w₂, (w₂ = w₁ ∨ ∃ completed quality, Emission inp k p completed none quality w₁ s₁ w₂) →
      OnGrids inp start w₂ ∧ ∃ s₂, w₂.sources[k]? = some s₂ ∧ s₂.context = s.context := by
    rintro w₂ (rfl | ⟨completed, quality, hemission⟩)
    · exact ⟨hgrids, s₁, hs₁, hcontext⟩
    · obtain ⟨s₂, hemitted⟩ := hemission.keeps hclocked (hgrids.gridded k s₁ hs₁) hp (.inl rfl)
      exact ⟨hgrids.emitted hs₁ hemitted, s₂, hemitted.on.own, hemitted.context.trans hcontext⟩
  exact (hf p hmem w₁ s₁ hs₁).mono (fun _ w₂ => hafter w₂) fun _ w₂ hw => (hafter w₂ hw).1

theorem begin_grids (hclocked : Clocked inp start) (object : ℕ) {context : SampleContext}
    {origins : Dict PyStr ℚ} (now : ℚ) (h : OnGrids inp start w) (hwhole : Whole context origins) :
    wp («begin» inp object context origins now) (fun _ => OnGrids inp start)
      (fun _ => OnGrids inp start) w := by
  rw [«begin», wp_bind, wp_get, wp_bind, wp_modify]
  refine each_emitted hclocked (s := { context, activated := origins, origins }) context.points
    (h.enter object hwhole) List.getElem?_concat_length (fun _ hp => hp) _ fun p _ w₁ s₁ hs₁ => ?_
  exact (emit_emission inp hs₁ p none .unknown now none .qualityState).mono
    (fun _ _ he => .inr ⟨_, _, he⟩) fun _ _ he => .inr ⟨_, _, he⟩

theorem activate_grids (hclocked : Clocked inp start) (object : ℕ) {context : SampleContext}
    {origins : Dict PyStr ℚ} (now : ℚ) (h : OnGrids inp start w) (hwhole : Whole context origins) :
    wp (activate inp object context origins now) (fun _ => OnGrids inp start)
      (fun _ => OnGrids inp start) w := by
  -- dropping the sources of another owner drops none of their slots
  have hkeep : ∀ pointSources owner holds, OnGrids inp start { w with pointSources, owner, holds } :=
    fun _ _ _ => ⟨fun k s hs => (h.gridded k s hs).congr rfl rfl rfl rfl rfl le_rfl fun _ => rfl,
      h.unstarted⟩
  have hbegin : ∀ pointSources owner, wp («begin» inp object context origins now)
      (fun _ => OnGrids inp start) (fun _ => OnGrids inp start)
      { w with pointSources, owner } := fun pointSources owner =>
    begin_grids hclocked object now (hkeep pointSources owner w.holds) hwhole
  rw [activate, wp_bind, wp_get, wp_ite]
  refine ⟨fun _ => h, fun _ => ?_⟩
  show wp (if w.owner ≠ some (context.gatewayId, context.configVersion) then _ else _) _ _ w
  rw [wp_ite]
  refine ⟨fun _ => hbegin _ _, fun _ => ?_⟩
  rw [wp_bind, wp_get]
  cases w.pointSources.get? context.device.deviceId with
  | none => exact hbegin _ _
  | some k =>
      show wp (if (w.sources[k]?).map (·.context) = some context then _ else _) _ _ w
      rw [wp_ite]
      exact ⟨fun _ => hkeep _ _ _, fun _ => hbegin _ _⟩

theorem publishResult_grids (hclocked : Clocked inp start) (object : ℕ) (context : SampleContext)
    (p : PointConfig) (value : Option Value) (quality : Quality) (nominal completed : ℚ)
    (publish : Bool) (h : OnGrids inp start w)
    (hscheduled : (SamplingCall.result object context p value quality nominal completed
      publish).Scheduled w) :
    wp (publishResult inp object context p value quality nominal completed publish)
      (fun _ => OnGrids inp start) (fun _ => OnGrids inp start) w := by
  rw [publishResult, wp_bind, wp_get]
  cases hk : w.holds object with
  | none => exact h
  | some k =>
      show wp (if w.context? object = some context then _ else _) _ _ w
      rw [wp_ite]
      refine ⟨fun hcontext => ?_, fun _ => h⟩
      obtain ⟨s, hs, hcontext⟩ := Sampling.context?_eq_some hk hcontext
      cases publish with
      | false =>
          -- the source is not told of a result that is not published
          have hkeep : ∀ buffer reads, w.clockReads ≤ reads →
              OnGrids inp start { w with buffer, clockReads := reads } := fun _ _ hreads =>
            ⟨fun j t hj => (h.gridded j t hj).congr rfl rfl rfl rfl rfl hreads fun _ => rfl,
              h.unstarted⟩
          refine (emit_discarded_reads inp k p value quality completed (some nominal) .physicalResult
            w).mono ?_ ?_
          · rintro - w' ⟨buffer, reads, hreads, rfl⟩
            exact hkeep buffer reads hreads
          · rintro e w' ⟨buffer, reads, hreads, rfl⟩
            exact hkeep buffer reads hreads
      | true =>
          obtain ⟨hp, hplanned⟩ := hscheduled rfl s (by rw [Sampling.held, hk]; exact hs) hcontext
          rw [← hcontext] at hp
          have h₁ : OnSource k w _ _ := ((OnSource.refl hs).setSource fun s =>
            { s with lastResult := s.lastResult.set p.pointId completed }).note k p.pointId
              (.published completed)
          have hg₁ : Gridded inp start ((w.setSource k fun s =>
              { s with lastResult := s.lastResult.set p.pointId completed }).note k p.pointId
                (.published completed)) k
              { s with lastResult := s.lastResult.set p.pointId completed } :=
            (h.gridded k s hs).congr rfl rfl rfl rfl rfl le_rfl
              (samplesPut_noted w k p.pointId completed)
          have hgrids₁ := h.onSource hs h₁ le_rfl (fun j hj => note_source _ _ hj) hg₁
          have hafter : ∀ w', Emission inp k p completed (some nominal) .physicalResult _ _ w' →
              OnGrids inp start w' := fun w' hemission => by
            obtain ⟨s', hemitted⟩ := hemission.keeps hclocked hg₁ hp (.inr hplanned.symm)
            exact hgrids₁.emitted h₁.own hemitted
          exact (emit_emission inp h₁.own p value quality completed (some nominal) .physicalResult).mono
            (fun _ => hafter) fun _ => hafter

variable [Rounding]

theorem expire_grids (hclocked : Clocked inp start) (object : ℕ) (now : ℚ) (h : OnGrids inp start w) :
    wp (expire inp object now) (fun _ => OnGrids inp start) (fun _ => OnGrids inp start) w := by
  rw [expire, wp_bind, wp_get]
  cases hk : w.holds object with
  | none => exact h
  | some k =>
      show wp (source k >>= fun s => each s.context.points (expirePoint inp k now)) _ _ w
      rw [wp_bind, source, wp_bind, wp_get, wp_item]
      refine ⟨fun s hs => ?_, fun _ => h⟩
      refine each_emitted hclocked s.context.points h hs (fun _ hp => hp) _ fun p _ w₁ s₁ hs₁ => ?_
      rw [expirePoint, wp_bind, wp_source hs₁, wp_ite]
      refine ⟨fun _ => .inl rfl, fun _ => ?_⟩
      rw [wp_bind, wp_item]
      refine ⟨fun last _ => ?_, fun _ => .inl rfl⟩
      rw [wp_ite]
      refine ⟨fun _ => ?_, fun _ => .inl rfl⟩
      exact (emit_emission inp hs₁ p none .stale now none .qualityState).mono
        (fun _ _ he => .inr ⟨_, _, he⟩) fun _ _ he => .inr ⟨_, _, he⟩

omit [Rounding] [Reporting.Footprint] [EventCharge] in
/-- A slot is planned for a point, a number of polls behind its last one. -/
theorem OnGrids.plan (h : OnGrids inp start w) {k : ℕ} {s : PointSource}
    (hs : w.sources[k]? = some s) {point : PyStr} {slot : ℚ}
    (hslot : ∀ p ∈ s.context.points, p.pointId = point → ∃ planned ∈ s.planned point,
      planned ≤ slot ∧ ((slot - planned) / p.pollIntervalMs).den = 1) :
    OnGrids inp start
      (w.setSource k fun s => { s with nextNominal := s.nextNominal.set point slot }) := by
  have hg := h.gridded k s hs
  refine h.onSource hs ((OnSource.refl hs).setSource _) le_rfl (fun _ _ => rfl)
    ⟨hg.distinct, hg.spaced, fun p hp => ?_⟩
  obtain ⟨base, origin, planned, hregridded, hslotted⟩ := hg.slots p hp
  by_cases hid : p.pointId = point
  · subst hid
    obtain ⟨q, hq, hle, hden⟩ := hslot p hp rfl
    obtain rfl : (planned : ℚ) = q := Option.some.inj (hregridded.plans.symm.trans hq)
    -- the slot is a whole number of polls behind
    have hpos : (0 : ℚ) < p.pollIntervalMs := by exact_mod_cast hg.spaced p hp
    have hwhole := Rat.coe_int_num_of_den_eq_one hden
    rw [eq_div_iff hpos.ne'] at hwhole
    have hslot : slot = ((planned + ((slot - planned) / p.pollIntervalMs).num * p.pollIntervalMs : ℤ) : ℚ) := by
      push_cast
      linarith
    rw [hslot] at hle ⊢
    have hgrid := dvd_add hregridded.onGrid.2
      (dvd_mul_left p.pollIntervalMs ((slot - planned) / p.pollIntervalMs).num)
    refine ⟨base, origin, _, hregridded.plan (by exact_mod_cast hle) ?_, hslotted⟩
    rwa [sub_add_eq_add_sub] at hgrid
  · refine ⟨base, origin, planned, hregridded.congr rfl rfl ?_ rfl le_rfl, hslotted⟩
    show (s.nextNominal.set point slot).get? p.pointId = _
    rw [Dict.get?_set, if_neg hid]

theorem step_grids (hclocked : Clocked inp start) (c : SamplingCall) (h : OnGrids inp start w)
    (hscheduled : c.Scheduled w) :
    OnGrids inp start (perform (SamplingCall.exec inp) w c).after := by
  have hany : wp (c.exec inp) (fun _ => OnGrids inp start) (fun _ => OnGrids inp start) w := by
    cases c with
    | activate object context origins now => exact activate_grids hclocked object now h hscheduled
    | result object context p value quality nominal completed publish =>
        exact publishResult_grids hclocked object context p value quality nominal completed publish h
          hscheduled
    | expire object now => exact expire_grids hclocked object now h
    | plan object point slot =>
        rw [SamplingCall.exec, wp_modify]
        cases hk : w.holds object with
        | none => exact h
        | some k =>
            cases hs : w.sources[k]? with
            | none =>
                show OnGrids inp start { w with sources := w.sources.modify k _ }
                rw [List.modify_eq_self (List.getElem?_eq_none_iff.mp hs)]
                exact h
            | some s =>
                refine h.plan hs (hscheduled s ?_)
                rw [Sampling.held, hk]
                exact hs
  cases hresult : (perform (SamplingCall.exec inp) w c).result with
  | ok a => exact (perform_spec hany).1 a hresult
  | error e => exact (perform_spec hany).2 e hresult

end Calls

/-! ## Runs -/

section Runs

variable [Rounding] [Reporting.Footprint] [EventCharge]

/-- The origins of every run, when clock generations are entered one after the other, a
    context is activated at whole milliseconds, and its points are read at their planned
    slots.  The samples of a point that belong to one generation have one origin.  It is on
    the poll grid of the point, for a later generation than the first it is not before the
    start of the generation, and no result whose slot is in the generation is before it. -/
theorem origins_regridded (inp : SamplingInputs) {start : ℤ → ℤ} (hclocked : Clocked inp start)
    (buffer : SampleBuffer) (calls : List SamplingCall)
    (hrun : ∀ st ∈ trace (SamplingCall.exec inp) { buffer } calls, st.call.Scheduled st.before) :
    ∀ st ∈ trace (SamplingCall.exec inp) { buffer } calls,
      ∀ k s, st.after.sources[k]? = some s → ∀ p ∈ s.context.points,
        ∃ base : ℤ, s.activated.get? p.pointId = some (base : ℚ) ∧
          Slotted start p.pollIntervalMs base (samplesPut (st.after.history k p.pointId)) := by
  refine trace_forall (I := OnGrids inp start) (fun w c h hc => ?_) ?_ hrun
  · have hafter := step_grids hclocked c h hc
    refine ⟨fun k s hs p hp => ?_, hafter⟩
    obtain ⟨base, origin, planned, hregridded, hslotted⟩ := (hafter.gridded k s hs).slots p hp
    exact ⟨base, hregridded.activated, hslotted⟩
  · exact ⟨fun k s hs => (by cases hs), fun _ _ _ => rfl⟩

end Runs

/-! ### A tank whose clock starts a second generation -/

section Concrete

attribute [local instance] unbounded unitCharge Rounding.double

instance (context : SampleContext) (origins : Dict PyStr ℚ) : Decidable (Whole context origins) :=
  decidable_of_iff
    ((context.points.map (·.pointId)).Nodup ∧ (∀ p ∈ context.points, 0 < p.pollIntervalMs) ∧
      ∀ p ∈ context.points, ∃ base ∈ origins.get? p.pointId, base.den = 1)
    ⟨fun h => ⟨h.1, h.2.1, h.2.2⟩, fun h => ⟨h.distinct, h.spaced, h.whole⟩⟩

instance (w : Sampling) (c : SamplingCall) : Decidable (c.Scheduled w) :=
  match c with
  | .activate _ context origins _ => inferInstanceAs (Decidable (Whole context origins))
  | .result .. => inferInstanceAs (Decidable (_ → ∀ _ ∈ _, _ → _ ∧ _))
  | .expire .. => .isTrue trivial
  | .plan .. => inferInstanceAs (Decidable (∀ _ ∈ _, ∀ _ ∈ _, _ → ∃ _ ∈ _, _ ∧ _))

/-- The second generation starts at 5500 ms, before the fourth reading. -/
def restarted : SamplingInputs :=
  ⟨fun i => some (if i < 3 then ⟨some 5, true, 1, 1, .systemRtcCompat, some 0⟩
    else ⟨some 5, true, 1, 2, .systemRtcCompat, some 5500⟩)⟩

def startOf (generation : ℤ) : ℤ := if generation ≤ 1 then 0 else 5500

theorem restarted_clocked : Clocked restarted startOf where
  started i clock h := by
    obtain rfl := Option.some.inj h
    by_cases hi : i < 3
    · rw [if_pos hi]
      rfl
    · rw [if_neg hi]
      rfl
  ordered i j clock later h h' hle := by
    obtain rfl := Option.some.inj h
    obtain rfl := Option.some.inj h'
    by_cases hi : i < 3
    · rw [if_pos hi]
      split <;> decide
    · rw [if_neg hi, if_neg (by omega)]
  monotone a b hab := by
    unfold startOf
    split <;> split <;> omega

/-- Two results, of which the second comes in the second generation, and one at the first
    slot that is planned in it. -/
def restartedCalls : List SamplingCall :=
  [.activate 0 tankContext tankOrigins 0,
    .result 0 tankContext levelPoint (some (.int 5)) .good 0 1 true, .plan 0 (py "level") 1000,
    .result 0 tankContext levelPoint (some (.int 5)) .good 1000 5600 true,
    .plan 0 (py "level") 6000,
    .result 0 tankContext levelPoint (some (.int 6)) .good 6000 6001 true]

/-- The samples of the second generation have the slot at 6000 as their origin. -/
theorem origins_regridded_tank :
    (∀ st ∈ trace (SamplingCall.exec restarted) { buffer := tankBuffer } restartedCalls,
        ∀ k s, st.after.sources[k]? = some s → ∀ p ∈ s.context.points,
          ∃ base : ℤ, s.activated.get? p.pointId = some (base : ℚ) ∧
            Slotted startOf p.pollIntervalMs base (samplesPut (st.after.history k p.pointId))) ∧
      (samplesPut ((runCalls (SamplingCall.exec restarted) { buffer := tankBuffer }
        restartedCalls).history 0 (py "level"))).map (fun t => (t.timeGeneration, t.nominalOriginMonoMs)) =
          [(1, some 0), (1, some 0), (2, some 6000), (2, some 6000)] :=
  ⟨origins_regridded restarted restarted_clocked tankBuffer restartedCalls (by decide +kernel),
    by decide +kernel⟩

end Concrete

end PlcnextIot.Points
