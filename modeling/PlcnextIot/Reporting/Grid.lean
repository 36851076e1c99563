/-
  PlcnextIot.Reporting.Grid

  The report slots of a point, as a walk over its report grid.

  The first sample of an epoch sets the origin.  From then on every physical result whose
  slot has come is charged to the latest grid slot that is not after it, and the slots
  before that one are counted as missed, whatever becomes of the sample.  The maps, and
  with them the walk, go along with a configuration through the checkpoint.
-/

import PlcnextIot.Arith.GridWalk
import PlcnextIot.Reporting.EngineRuns
import PlcnextIot.Reporting.SelectionRuns

namespace PlcnextIot.Reporting

open PlcnextIot.Python PlcnextIot.Config PlcnextIot.Points PlcnextIot.Effect PlcnextIot.Effect.Prog
open PlcnextIot.Arith

/-! ## The walk of a point -/

def SlotCharge.stop (c : SlotCharge) : Stop := ⟨c.nominal, c.slot, c.missed⟩

/-- The charges of an epoch are a walk from its origin. -/
def Grid.Walked (g : Grid) (interval due : ℤ) : Prop :=
  Walk interval g.origin (g.charges.map SlotCharge.stop) due

/-- The report slots of the points that an epoch has. -/
def Gridded (points : Dict Key PointConfig) (m : Maps) : Prop :=
  ∀ key epoch p, m.epochs.get? key = some epoch → points.get? key = some p →
    ∃ due, m.nextDue.get? key = some due ∧ (m.grids key).Walked p.reportIntervalMs due

/-- Reports are some time apart. -/
def Spaced (points : Dict Key PointConfig) : Prop :=
  ∀ key p, points.get? key = some p → 0 < p.reportIntervalMs

instance (points : Dict Key PointConfig) : Decidable (Spaced points) :=
  decidable_of_iff (∀ kv ∈ points.items, 0 < kv.2.reportIntervalMs)
    ⟨fun h key p hp => h (key, p) (Dict.get?_eq_some.mp hp),
      fun h kv hkv => h kv.1 kv.2 (Dict.get?_eq_some.mpr hkv)⟩

theorem Gridded.empty (points : Dict Key PointConfig) : Gridded points {} :=
  fun _ _ _ h => by cases h

theorem Gridded.congr {points : Dict Key PointConfig} {m m' : Maps} (h : Gridded points m)
    (hepochs : m'.epochs = m.epochs) (hdue : m'.nextDue = m.nextDue) (hgrids : m'.grids = m.grids) :
    Gridded points m' := by
  intro key epoch p hepoch hp
  rw [hdue, hgrids]
  rw [hepochs] at hepoch
  exact h key epoch p hepoch hp

/-- A point that enters an epoch stands at its origin. -/
theorem Gridded.enter {points : Dict Key PointConfig} {m : Maps} (h : Gridded points m) (s : Sample) :
    Gridded points (m.enter s) := by
  intro key epoch p hepoch hp
  by_cases hkey : key = keyOf s
  · subst hkey
    refine ⟨s.nominalOriginMonoMs.getD 0, Dict.get?_set_self _ _ _, ?_⟩
    show Grid.Walked (Function.update m.grids (keyOf s) _ (keyOf s)) _ _
    rw [Function.update_self]
    rfl
  · have hepoch : (m.epochs.set (keyOf s) (epochOf s)).get? key = some epoch := hepoch
    rw [Dict.get?_set, if_neg hkey] at hepoch
    obtain ⟨due, hdue, hwalk⟩ := h key epoch p hepoch hp
    refine ⟨due, ?_, ?_⟩
    · show (m.nextDue.set (keyOf s) _).get? key = some due
      rw [Dict.get?_set, if_neg hkey]
      exact hdue
    · show Grid.Walked (Function.update m.grids (keyOf s) _ key) _ _
      rw [Function.update_of_ne hkey]
      exact hwalk

section Accept

variable [EventCharge]

omit [EventCharge] in
theorem Gridded.listed {e : Engine} (h : Gridded e.points e.maps) (s : Sample) :
    Gridded e.points (e.listed s).maps := by
  rw [listed_maps]
  split
  · exact h.congr rfl rfl rfl
  · have hseen : Gridded e.points { e.maps with seen := e.maps.seen.set (keyOf s) (seqOf s) } :=
      h.congr rfl rfl rfl
    exact hseen.enter s

/-- The grid of a point before a sample is charged to it. -/
def Engine.gridFor (e : Engine) (s : Sample) : Grid := (e.listed s).maps.grids (keyOf s)

/-- The report slot that a sample finds next. -/
def Engine.dueFor (e : Engine) (s : Sample) : Option ℤ := (e.listed s).maps.nextDue.get? (keyOf s)

/-- What a sample does to the report slots of its point: it is charged to at most one. -/
structure Charges (e : Engine) (s : Sample) (p : PointConfig) (served : Bool) (e' : Engine) : Prop where
  /-- A physical result is charged once its report slot has come. -/
  serves : served = true ↔ p.reportMode ≠ py "change" ∧ s.kind = .physicalResult ∧
    ∃ q due, s.nominalPollDueMonoMs = some q ∧ e.dueFor s = some due ∧ due ≤ q
  /-- The charge goes behind the earlier ones, and its missed slots are counted. -/
  charge : ∃ new : List SlotCharge, new.length = served.toNat ∧
    e'.maps.grids (keyOf s) = { e.gridFor s with charges := (e.gridFor s).charges ++ new } ∧
    e'.missedReportSlots = e.missedReportSlots + (new.map (·.missed)).sum
  /-- Another point keeps its grid. -/
  others : ∀ key, key ≠ keyOf s → e'.maps.grids key = e.maps.grids key
  /-- The next report slot is behind every physical result. -/
  behind : p.reportMode ≠ py "change" → s.kind = .physicalResult →
    ∃ q due, s.nominalPollDueMonoMs = some q ∧ e'.maps.nextDue.get? (keyOf s) = some due ∧ q < due

omit [EventCharge] in
theorem listed_grids {e : Engine} {s : Sample} {key : Key} (hkey : key ≠ keyOf s) :
    (e.listed s).maps.grids key = e.maps.grids key := by
  rw [listed_maps]
  split
  · rfl
  · exact Function.update_of_ne hkey _ _

omit [EventCharge] in
/-- The cyclic rule charges a sample whose slot has come, and goes on behind it. -/
theorem Serves.charges {e₀ e e' : Engine} {s : Sample} {p : PointConfig} {served : Bool}
    (h : Serves e s p served e') (hmaps : e.maps = (e₀.listed s).maps)
    (hmissed : e.missedReportSlots = e₀.missedReportSlots) (hpos : 0 < p.reportIntervalMs) :
    Charges e₀ s p served e' := by
  have hgrid : e.maps.grids (keyOf s) = e₀.gridFor s := by rw [hmaps, Engine.gridFor]
  have hfinds : e₀.dueFor s = e.maps.nextDue.get? (keyOf s) := by rw [hmaps, Engine.dueFor]
  cases h with
  | rule hrule =>
      refine ⟨⟨fun h => (by cases h), fun h => ?_⟩, ⟨[], rfl, ?_, ?_⟩, fun key hkey => ?_,
        fun hmode hkind => ?_⟩
      · exact (hrule.elim h.1 fun hno => hno h.2.1).elim
      · rw [hgrid, List.append_nil]
      · rw [hmissed]
        simp
      · rw [hmaps, listed_grids hkey]
      · exact (hrule.elim hmode fun hno => hno hkind).elim
  -- Before its slot a sample serves nothing, and nothing is charged.
  | @early q due hmode hkind hq hdue hlt =>
      refine ⟨⟨fun h => (by cases h), ?_⟩, ⟨[], rfl, ?_, ?_⟩, fun key hkey => ?_,
        fun _ _ => ⟨_, _, hq, hdue, hlt⟩⟩
      · rintro ⟨-, -, q', due', hq', hdue', hle⟩
        rw [hq] at hq'
        rw [hfinds, hdue] at hdue'
        obtain rfl := Option.some.inj hq'
        obtain rfl := Option.some.inj hdue'
        omega
      · rw [hgrid, List.append_nil]
      · rw [hmissed]
        simp
      · rw [hmaps, listed_grids hkey]
  | @due q due hmode hkind hq hdue hle hnonneg hinterval =>
      -- The last slot up to `q`, and with it the number of those missed.
      have hstop := Stop.from_fdiv hpos hle
      refine ⟨⟨fun _ => ⟨hmode, hkind, q, due, hq, hfinds.trans hdue, hle⟩, fun _ => rfl⟩,
        ⟨[⟨q, due + Int.fdiv (q - due) p.reportIntervalMs * p.reportIntervalMs,
          Int.fdiv (q - due) p.reportIntervalMs⟩], rfl, ?_, ?_⟩, fun key hkey => ?_, fun _ _ => ?_⟩
      · rw [← hgrid]
        exact Function.update_self _ _ _
      · rw [← hmissed]
        simp [Engine.chargeSlot]
      · have hother : e₀.maps.grids key = e.maps.grids key := by rw [hmaps, listed_grids hkey]
        rw [hother]
        exact Function.update_of_ne hkey _ _
      · refine ⟨q, _, hq, Dict.get?_set_self _ _ _, ?_⟩
        have hlatest : q < due + Int.fdiv (q - due) p.reportIntervalMs * p.reportIntervalMs
          + p.reportIntervalMs := hstop.latest
        rw [Int.add_mul, Int.one_mul]
        omega

omit [EventCharge] in
theorem Serves.gridded {e e' : Engine} {s : Sample} {p : PointConfig} {served : Bool}
    (h : Serves e s p served e') (hg : Gridded e.points e.maps)
    (hp : e.points.get? (keyOf s) = some p) (hwithin : e.maps.within s)
    (hpos : 0 < p.reportIntervalMs) : Gridded e'.points e'.maps := by
  cases h with
  | rule => exact hg
  | early => exact hg
  | @due q due hmode hkind hq hdue hle hnonneg hinterval =>
      intro key epoch p' hepoch hp'
      by_cases hkey : key = keyOf s
      · subst hkey
        have hsame : p' = p := by
          have hp' : e.points.get? (keyOf s) = some p' := hp'
          rw [hp] at hp'
          exact (Option.some.inj hp').symm
        subst hsame
        obtain ⟨due', hdue', hwalk⟩ := hg _ _ _ hwithin hp
        rw [hdue] at hdue'
        obtain rfl := Option.some.inj hdue'
        refine ⟨_, Dict.get?_set_self _ _ _, ?_⟩
        show Grid.Walked (Function.update e.maps.grids (keyOf s) _ (keyOf s)) _ _
        rw [Function.update_self, Grid.Walked, List.map_append, Int.add_mul, Int.one_mul,
          ← Int.add_assoc]
        exact Walk.snoc hwalk (Stop.from_fdiv hpos hle)
      · obtain ⟨due', hdue', hwalk⟩ := hg key epoch p' hepoch hp'
        refine ⟨due', ?_, ?_⟩
        · show (e.maps.nextDue.set (keyOf s) _).get? key = some due'
          rw [Dict.get?_set, if_neg hkey]
          exact hdue'
        · show Grid.Walked (Function.update e.maps.grids (keyOf s) _ key) _ _
          rw [Function.update_of_ne hkey]
          exact hwalk

omit [EventCharge] in
/-- With a positive interval, a failing selection has counted no slot. -/
theorem Fails.nothing [FloatArith] {e : Engine} {s : Sample} {p : PointConfig} {err : EngineExc}
    {missed : ℤ} (h : Fails e s p err missed) (hpos : 0 < p.reportIntervalMs) : missed = 0 := by
  cases h with
  | comparison => rfl
  | slot hcompared hdue hrule =>
      unfold slotRule at hrule
      split at hrule
      · split at hrule
        · exact (Prod.mk.inj hrule).1.symm
        split at hrule
        · split at hrule
          · rename_i hle
            rw [if_neg hpos.ne'] at hrule
            -- the quotient of a slot that has come is not negative
            have hstop := (Stop.from_fdiv hpos hle).skips
            rw [if_pos hstop] at hrule
            cases (Prod.mk.inj hrule).2
          · exact (Prod.mk.inj hrule).1.symm
        · exact (Prod.mk.inj hrule).1.symm
      · exact (Prod.mk.inj hrule).1.symm

omit [EventCharge] in
theorem Charges.congr {e e' e'' : Engine} {s : Sample} {p : PointConfig} {served : Bool}
    (h : Charges e s p served e') (hmaps : e''.maps = e'.maps)
    (hmissed : e''.missedReportSlots = e'.missedReportSlots) : Charges e s p served e'' := by
  obtain ⟨hserves, hcharge, hothers, hbehind⟩ := h
  refine ⟨hserves, ?_, ?_, ?_⟩
  · rwa [hmaps, hmissed]
  · rwa [hmaps]
  · rwa [hmaps]

end Accept

/-! ## The engine -/

/-- An engine whose points, also those of the checkpoint, walk over their report grids. -/
structure Grids (e : Engine) : Prop where
  walked : Gridded e.points e.maps
  pointed : e.Pointed
  spaced : Spaced e.points
  saved : e.attached = false → ∀ id m, e.checkpoint = some (id, m) → Gridded (enabledPoints id.1) m

/-- Changing nothing of the selection but the baselines. -/
theorem Grids.congr {e e' : Engine} (h : Grids e) (hepochs : e'.maps.epochs = e.maps.epochs)
    (hdue : e'.maps.nextDue = e.maps.nextDue) (hgrids : e'.maps.grids = e.maps.grids)
    (hpoints : e'.points = e.points) (hsnapshot : e'.snapshot = e.snapshot)
    (hattached : e'.attached = e.attached) (hcheckpoint : e'.checkpoint = e.checkpoint) :
    Grids e' := by
  refine ⟨?_, ?_, ?_, ?_⟩
  · rw [hpoints]
    exact h.walked.congr hepochs hdue hgrids
  · rw [Engine.Pointed, hpoints, hsnapshot]
    exact h.pointed
  · rw [hpoints]
    exact h.spaced
  · rw [hattached, hcheckpoint]
    exact h.saved

theorem Grids.listed {e : Engine} (h : Grids e) (s : Sample) : Grids (e.listed s) :=
  ⟨h.walked.listed s, h.pointed, h.spaced, h.saved⟩

theorem listed_within (e : Engine) (s : Sample) : (e.listed s).maps.within s := by
  rw [Maps.within, listed_epochs, if_pos rfl]

section Steps

variable [EventCharge] [Footprint] [FloatArith]

/-- What a sample of the current configuration has done to the report slots: it was
    charged to at most one, and counted as an event if it was; or the call has failed and
    has charged nothing. -/
def Charged (e : Engine) (s : Sample) (answer : Except EngineExc Bool) (e' : Engine) : Prop :=
  ∃ p, e.points.get? (keyOf s) = some p ∧
    match answer with
    | .ok _ => ∃ served, Charges e s p served e' ∧
        (served = true → e'.eligibleEvents = e.eligibleEvents + 1)
    | .error _ => e'.maps = (e.listed s).maps ∧ e'.missedReportSlots = e.missedReportSlots

omit [FloatArith] in
/-- A selected event is eligible, whatever becomes of it. -/
theorem Concludes.eligible {e e' : Engine} {s : Sample} {answer : Bool}
    (h : Concludes e s true answer e') : e'.eligibleEvents = e.eligibleEvents + 1 := by
  cases h <;> rfl

/-- Whatever a sample comes to, the points go on over their grids. -/
theorem Accepts.grids {e e' : Engine} {s : Sample} {answer : Except EngineExc Bool}
    (h : Accepts e s answer e') (hg : Grids e) : Grids e' ∧ (Current e s → Charged e s answer e') := by
  cases h with
  | foreign hforeign =>
      refine ⟨hg.congr rfl rfl rfl rfl rfl rfl rfl, fun hcurrent => ?_⟩
      rw [hcurrent.configured] at hforeign
      cases hforeign
  | seen _ _ hseen =>
      refine ⟨hg.congr rfl rfl rfl rfl rfl rfl rfl, fun hcurrent => ?_⟩
      exact absurd hseen (not_le.mpr hcurrent.unseen)
  | unidentified _ hno =>
      refine ⟨hg.congr rfl rfl rfl rfl rfl rfl rfl, fun hcurrent => ?_⟩
      rw [hcurrent.identified] at hno
      cases hno
  | @failed err latest refs usedBytes missed p hcurrent _ hpoint hfails =>
      have hpos := hg.spaced _ p hpoint
      obtain rfl := hfails.nothing hpos
      exact ⟨(hg.listed s).congr rfl rfl rfl rfl rfl rfl rfl,
        fun _ => ⟨p, hpoint, rfl, Int.add_zero _⟩⟩
  | @concluded latest refs usedBytes p selected changed served answer e₁ _ hcurrent _ hpoint hselects
      hconcludes =>
      have hpos := hg.spaced _ p hpoint
      have hcharges : Charges e s p served e₁ := hselects.cyclic.charges rfl rfl hpos
      have hwalked := hselects.cyclic.gridded (hg.walked.listed s) hpoint (listed_within e s) hpos
      have hrest : e₁.points = e.points ∧ e₁.snapshot = e.snapshot ∧ e₁.attached = e.attached ∧
          e₁.checkpoint = e.checkpoint ∧ e₁.eligibleEvents = e.eligibleEvents := by
        cases hselects.cyclic <;> exact ⟨rfl, rfl, rfl, rfl, rfl⟩
      obtain ⟨hpoints, hsnapshot, hattached, hcheckpoint, heligible⟩ := hrest
      have hg₁ : Grids e₁ := by
        refine ⟨hwalked, ?_, ?_, ?_⟩
        · rw [Engine.Pointed, hpoints, hsnapshot]
          exact hg.pointed
        · rw [hpoints]
          exact hg.spaced
        · rw [hattached, hcheckpoint]
          exact hg.saved
      -- the conclusion leaves the slots, also where it refuses the event
      have hkept : e'.maps = e₁.maps ∧ e'.missedReportSlots = e₁.missedReportSlots ∧
          e'.points = e₁.points ∧ e'.snapshot = e₁.snapshot ∧ e'.attached = e₁.attached ∧
          e'.checkpoint = e₁.checkpoint := by
        cases hconcludes <;> exact ⟨rfl, rfl, rfl, rfl, rfl, rfl⟩
      obtain ⟨hmaps, hmissed, hpoints', hsnapshot', hattached', hcheckpoint'⟩ := hkept
      refine ⟨hg₁.congr (by rw [hmaps]) (by rw [hmaps]) (by rw [hmaps]) hpoints' hsnapshot' hattached'
        hcheckpoint', fun _ => ⟨p, hpoint, served, hcharges.congr hmaps hmissed, ?_⟩⟩
      rintro rfl
      have hselected : selected = true := by rw [hselects.either, Bool.or_true]
      rw [hselected] at hconcludes
      rw [hconcludes.eligible, heligible]

omit [Footprint] [FloatArith] in
/-- A configuration starts without epochs, or goes on with those of the checkpoint. -/
theorem Configures.grids {e e' : Engine} {snapshot : Option ConfigSnapshot} {now : ℚ}
    {generation : Option ℤ} (h : Configures e snapshot now generation e') (hg : Grids e)
    (hrecorded : Recorded e) (hspaced : Spaced (enabledPoints snapshot)) : Grids e' := by
  rw [Configures] at h
  split at h
  · rwa [h]
  · next hnew =>
      obtain ⟨refs, usedBytes, rfl⟩ := h
      refine ⟨?_, rfl, hspaced, fun hno => Bool.noConfusion hno⟩
      show Gridded (enabledPoints snapshot) (e.resume (snapshot, generation))
      rcases resume_cases hrecorded hnew with he | ⟨hno, hsaved⟩
      · rw [he]
        exact .empty _
      · exact hg.saved hno _ _ hsaved

omit [Footprint] [FloatArith] in
/-- The next engine finds the walks in the checkpoint. -/
theorem Grids.reload {e : Engine} (h : Grids e) (hrecorded : Recorded e) : Grids e.reload := by
  refine ⟨.empty _, rfl, fun _ _ hp => (by cases hp), fun _ id m hsaved => ?_⟩
  have hsaved : e.current = some (id, m) := hsaved
  rw [Engine.current] at hsaved
  cases hattached : e.attached with
  | true =>
      obtain ⟨m₀, hm₀⟩ := hrecorded.identified hattached
      rw [hattached, if_pos rfl, hm₀] at hsaved
      obtain ⟨rfl, rfl⟩ := Prod.mk.inj (Option.some.inj hsaved)
      have hwalked := h.walked
      rwa [h.pointed] at hwalked
  | false =>
      rw [hattached, if_neg Bool.false_ne_true] at hsaved
      exact h.saved hattached id m hsaved

/-- The points of a new configuration report some time apart. -/
def Paced : EngineCall → Prop
  | .configure snapshot _ _ => Spaced (enabledPoints snapshot)
  | _ => True

instance (c : EngineCall) : Decidable (Paced c) :=
  match c with
  | .configure snapshot _ _ => inferInstanceAs (Decidable (Spaced (enabledPoints snapshot)))
  | .accept _ => .isTrue trivial
  | .openGate _ => .isTrue trivial
  | .prepare .. => .isTrue trivial
  | .committed _ => .isTrue trivial
  | .abandon => .isTrue trivial
  | .reload => .isTrue trivial
  | .share _ => .isTrue trivial

/-- What a call does to the report slots when it is one of the current configuration. -/
def Charging (c : EngineCall) (e : Engine) (r : Except EngineExc (List ReportBatch)) (e' : Engine) :
    Prop :=
  ∀ s, c = .accept s → Current e s →
    ∃ answer, answer.map (fun _ => []) = r ∧ Charged e s answer e'

/-- Every call keeps the points on their grids. -/
theorem step_grids (inp : EngineInputs) (c : EngineCall) {e : Engine} (h : Sound e) (hg : Grids e)
    (hfresh : Fresh e c) (hpaced : Paced c) :
    wp (c.exec inp)
      (fun b e' => (Sound e' ∧ Grids e') ∧ Charging c e (.ok b) e')
      (fun err e' => (∃ text, err = .runtime text) ∨
        (Sound e' ∧ Grids e') ∧ Charging c e (.error err) e') e := by
  cases c with
  | configure snapshot now generation =>
      rw [EngineCall.exec, wp_bind]
      refine (configure_sound snapshot now generation h).mono ?_ fun _ _ hf => hf.elim
      rintro - e' ⟨hsound, hconfigures⟩
      exact ⟨⟨hsound, hconfigures.grids hg h.recorded hpaced⟩, fun _ hc => by cases hc⟩
  | accept s =>
      rw [EngineCall.exec, wp_bind]
      refine (accept_sound h hfresh).mono ?_ ?_
      · rintro answer e' ⟨ha, hsound⟩
        obtain ⟨hgrids, hcharged⟩ := ha.grids hg
        refine ⟨⟨hsound, hgrids⟩, ?_⟩
        rintro t ⟨rfl⟩ hcurrent
        exact ⟨.ok answer, rfl, hcharged hcurrent⟩
      · rintro err e' ⟨-, ha, hsound⟩
        obtain ⟨hgrids, hcharged⟩ := ha.grids hg
        refine .inr ⟨⟨hsound, hgrids⟩, ?_⟩
        rintro t ⟨rfl⟩ hcurrent
        exact ⟨.error err, rfl, hcharged hcurrent⟩
  | openGate watermark =>
      have hgate := openGate_sound watermark h
      rw [openGate, wp_modify] at hgate
      rw [EngineCall.exec, wp_bind, openGate, wp_modify]
      exact ⟨⟨hgate.1, hg.congr rfl rfl rfl rfl rfl rfl rfl⟩, fun _ hc => by cases hc⟩
  | prepare now wallMs force =>
      refine (prepare_shelves inp now wallMs force h).mono ?_ ?_
      · rintro batches e' ⟨hsound, _, _, _, _, _, _, _, _, _, _, rfl⟩
        exact ⟨⟨hsound, hg.congr rfl rfl rfl rfl rfl rfl rfl⟩, fun _ hc => by cases hc⟩
      · rintro err e' ⟨-, hcause⟩
        refine hcause.imp id ?_
        rintro ⟨hsound, _, _, _, _, _, _, _, _, _, _, rfl⟩
        exact ⟨⟨hsound, hg.congr rfl rfl rfl rfl rfl rfl rfl⟩, fun _ hc => by cases hc⟩
  | committed batch =>
      rw [EngineCall.exec, wp_bind]
      refine (committed_rule batch (J := fun _ e' => Delivers e e') ?_ h ?_).mono ?_
        fun _ _ hf => hf.elim
      · exact fun _ s _ refs usedBytes _ hdelivers _ => hdelivers.next s refs usedBytes
      · exact fun _ => ⟨_, _, _, _, _, _, _, _, _, rfl⟩
      · rintro - e' ⟨hsound, hsame⟩
        refine ⟨⟨hsound, ?_⟩, fun _ hc => by cases hc⟩
        split at hsame
        · obtain ⟨_, _, _, _, _, _, _, _, _, rfl⟩ := hsame
          exact hg.congr rfl rfl rfl rfl rfl rfl rfl
        · rwa [hsame]
  | abandon =>
      rw [EngineCall.exec, wp_bind]
      refine (abandon_sound h).mono ?_ fun _ _ hf => hf.elim
      rintro _ e' ⟨hsound, refs, usedBytes, rfl⟩
      exact ⟨⟨hsound, hg.congr rfl rfl rfl rfl rfl rfl rfl⟩, fun _ hc => by cases hc⟩
  | reload => exact ⟨⟨h.reload, hg.reload h.recorded⟩, fun _ hc => by cases hc⟩
  | share accounting =>
      exact ⟨⟨h.shared accounting, hg.congr rfl rfl rfl rfl rfl rfl rfl⟩, fun _ hc => by cases hc⟩

/-! ## Runs -/

/-- Where a point stands on its report grid. -/
structure Grid.Stands (g : Grid) (interval due : ℤ) : Prop where
  /-- One interval behind the origin for each charge and for each missed slot. -/
  next : due = g.origin + interval * (g.charges.length + (g.charges.map (·.missed)).sum)
  /-- A charge is at the latest slot that is not after the poll of its sample. -/
  latest : ∀ c ∈ g.charges, interval ∣ c.slot - g.origin ∧ c.slot ≤ c.nominal ∧
    c.nominal < c.slot + interval ∧ c.nominal < due
  /-- Each slot so far was served or missed once. -/
  once : ∀ t, g.origin ≤ t → t < due → ∃ past c rest, g.charges = past ++ c :: rest ∧
    c.stop.Takes interval t ∧ ∀ c' ∈ past ++ rest, ¬ c'.stop.Takes interval t

omit [EventCharge] [Footprint] [FloatArith] in
theorem Grid.Walked.stands {g : Grid} {interval due : ℤ} (h : g.Walked interval due)
    (hpos : 0 < interval) : g.Stands interval due := by
  refine ⟨?_, fun c hc => ?_, fun t horigin hdue => ?_⟩
  · have hnext := h.next_eq
    rwa [List.length_map, List.map_map] at hnext
  · have hmem : c.stop ∈ g.charges.map SlotCharge.stop := List.mem_map_of_mem hc
    exact ⟨h.on_grid hmem, h.behind hpos hmem⟩
  · obtain ⟨past, s, rest, hstops, htakes, hothers⟩ := h.once hpos horigin hdue
    obtain ⟨past', tail, hcharges, rfl, htail⟩ := List.map_eq_append_iff.mp hstops
    obtain ⟨c, rest', rfl, rfl, rfl⟩ := List.map_eq_cons_iff.mp htail
    refine ⟨past', c, rest', hcharges, htakes, fun c' hc' => hothers _ ?_⟩
    rw [← List.map_append]
    exact List.mem_map_of_mem hc'

/-- The report slots after a step. -/
structure OnGrid (st : EngineStep) : Prop where
  stands : ∀ key epoch p, st.after.maps.epochs.get? key = some epoch →
    st.after.points.get? key = some p → ∃ due, st.after.maps.nextDue.get? key = some due ∧
      (st.after.maps.grids key).Stands p.reportIntervalMs due
  charged : Charging st.call st.before st.result st.after

omit [EventCharge] [Footprint] [FloatArith] in
theorem Grids.stands {e : Engine} (h : Grids e) {key : Key} {epoch : Epoch} {p : PointConfig}
    (hepoch : e.maps.epochs.get? key = some epoch) (hp : e.points.get? key = some p) :
    ∃ due, e.maps.nextDue.get? key = some due ∧ (e.maps.grids key).Stands p.reportIntervalMs due := by
  obtain ⟨due, hdue, hwalked⟩ := h.walked key epoch p hepoch hp
  exact ⟨due, hdue, hwalked.stands (h.spaced key p hp)⟩

/-- The report slots of a boot: in every run of its engines with samples in the order of
    their capture, positive report intervals and a place in the accounting for each frozen
    batch, the next report slot of a point is found by counting from the origin of its
    epoch, every slot before it was served or missed exactly once, and a sample is charged
    to the latest slot that is not after it, whatever then becomes of it. -/
theorem report_slots (inp : EngineInputs) (gateway bootId : PyStr) (capacity maxBytes : ℕ)
    (accounting : Accounting) (sequence : ℤ) (calls : List EngineCall)
    (hcalls : ∀ st ∈ trace (EngineCall.exec inp)
        ({ gateway, bootId, capacity, maxBytes, accounting, sequence } : Engine) calls,
      Fresh st.before st.call ∧ Paced st.call ∧ Placed st) :
    ∀ st ∈ trace (EngineCall.exec inp)
        ({ gateway, bootId, capacity, maxBytes, accounting, sequence } : Engine) calls,
      OnGrid st := by
  refine trace_forall (I := fun e => Sound e ∧ Grids e) ?_ ?_ hcalls
  · rintro e c ⟨h, hg⟩ ⟨hfresh, hpaced, hplaced⟩
    obtain ⟨hok, herror⟩ := perform_spec (step_grids inp c h hg hfresh hpaced)
    cases hresult : (perform (EngineCall.exec inp) e c).result with
    | ok batches =>
        obtain ⟨hnext, hcharging⟩ := hok batches hresult
        refine ⟨⟨fun _ _ _ hepoch hp => hnext.2.stands hepoch hp, ?_⟩, hnext⟩
        rwa [hresult]
    | error err =>
        rcases herror err hresult with ⟨text, rfl⟩ | ⟨hnext, hcharging⟩
        · exact absurd hresult (hplaced.ne_runtime text)
        · refine ⟨⟨fun _ _ _ hepoch hp => hnext.2.stands hepoch hp, ?_⟩, hnext⟩
          rwa [hresult]
  · refine ⟨.start rfl rfl (.nothing rfl rfl rfl rfl rfl rfl) ⟨rfl, rfl, rfl, rfl, rfl, rfl⟩ rfl rfl
      List.Pairwise.nil fun _ _ h => (by cases h), ?_⟩
    exact ⟨.empty _, rfl, fun _ _ hp => (by cases hp), fun _ _ _ h => (by cases h)⟩

end Steps

/-! ### A station with a slower grid -/

attribute [local instance] Footprint.spacious flatCharge Drivers.FloatArith.rounded

/-- The switch, reported every 2000 ms. -/
def slowPoint : PointConfig :=
  { switchPoint with reportMode := py "change_or_cyclic", reportIntervalMs := 2000 }

def slowConfig : ConfigSnapshot :=
  { switchConfig with devices := switchConfig.devices.map fun d => { d with points := [slowPoint] } }

/-- Three readings, after which the engine is replaced. -/
def slowCalls : List EngineCall :=
  [.configure (some slowConfig) 0 (some 1), .accept (reading 1), .accept (reading 2), .reload,
    .configure (some slowConfig) 0 (some 1), .accept (reading 8), .prepare 0 0 true, .abandon]

/-- The third reading is charged to the slot at 7000, and the next one is at 9000. -/
theorem report_slots_station :
    (∀ st ∈ trace (EngineCall.exec stationIds) (station 8) slowCalls,
        Fresh st.before st.call ∧ Paced st.call ∧ Placed st) ∧
      (∀ st ∈ trace (EngineCall.exec stationIds) (station 8) slowCalls, OnGrid st) ∧
      (runCalls (EngineCall.exec stationIds) (station 8) slowCalls).maps.nextDue.get?
        (py "d", py "p") = some 9000 :=
  ⟨by decide +kernel, report_slots stationIds (py "g") (py "b") 32768 (32 * 1024 * 1024)
    (station 8).accounting 0 slowCalls (by decide +kernel), by decide +kernel⟩

end PlcnextIot.Reporting
