/-
  PlcnextIot.Reporting.Selection

  What `accept` decides, apart from queues, batches and memory.

  A `Selection` is what the engine goes by for one point, and `Policy.offer` is the
  decision as a function of it: whether the sample is selected, which report slots it
  counts as missed, and what is known of the point afterwards.  `Accepts.decides` says
  that `accept` decides so, as long as it admits what it selects.
-/

import PlcnextIot.Reporting.Baseline

namespace PlcnextIot.Reporting

open PlcnextIot.Python PlcnextIot.Config PlcnextIot.Points PlcnextIot.Effect PlcnextIot.Effect.Prog

/-! ## One point -/

/-- What the selection of the samples of a point goes by. -/
structure Selection where
  epoch : Option Epoch
  seen : ℤ
  nextDue : Option ℤ
  baseline : Option Sample
  deriving DecidableEq

instance (s : Sample) : Decidable (timely s) := inferInstanceAs (Decidable (_ ∧ _))

namespace Selection

/-- A sample is seen; one of another epoch starts the point anew. -/
def enter (v : Selection) (s : Sample) : Selection :=
  if v.epoch = some (epochOf s) then { v with seen := seqOf s }
  else ⟨some (epochOf s), seqOf s, some (s.nominalOriginMonoMs.getD 0), none⟩

/-- The report slots up to that of a sample that serves one are consumed. -/
def consume (v : Selection) (p : PointConfig) : ℤ × Except EngineExc Bool → Selection
  | (missed, .ok true) =>
    { v with nextDue := v.nextDue.map fun due => due + (missed + 1) * p.reportIntervalMs }
  | _ => v

/-- A selected event whose time may be reported is the next baseline. -/
def keep (v : Selection) (s : Sample) (selected : Bool) : Selection :=
  if selected = true ∧ timely s then { v with baseline := some s } else v

end Selection

section Offer

variable [FloatArith]

/-- Whether a sample is selected, given what it is compared with and the next report slot
    of its point, and how many slots it counts as missed. -/
def judge (baseline : Option Sample) (due : ℤ) (s : Sample) (p : PointConfig) :
    Except EngineExc Bool × ℤ :=
  match differs baseline s p with
  | .error err => (.error err, 0)
  | .ok changed => ((slotRule s p due).2.map (changed || ·), (slotRule s p due).1)

/-- The verdict on a sample, and what the selection goes by afterwards. -/
def Selection.offer (v : Selection) (s : Sample) (p : PointConfig) :
    (Except EngineExc Bool × ℤ) × Selection :=
  let entered := v.enter s
  let due := entered.nextDue.getD 0
  let verdict := judge entered.baseline due s p
  (verdict, match verdict.1 with
    | .error _ => entered
    | .ok selected => (entered.consume p (slotRule s p due)).keep s selected)

end Offer

/-! ## The configuration -/

/-- What an engine selects for. -/
structure Policy where
  gateway : PyStr
  bootId : PyStr
  snapshot : Option ConfigSnapshot
  generation : Option ℤ

/-- The outcome of a sample: whether it is selected, how many report slots it counts as
    missed, and the next report slot of its point. -/
structure Decision where
  result : Except EngineExc Bool
  missed : ℤ
  nextDue : Option ℤ

namespace Policy

/-- The sample does not belong to the configuration. -/
def foreign (π : Policy) (s : Sample) : Bool :=
  s.gatewayId != some π.gateway || π.snapshot.all (fun c => s.configVersion != c.configVersion)
    || ((enabledPoints π.snapshot).get? (keyOf s)).isNone
    || π.generation.any (fun g => s.configGeneration != g)

/-- The sample has what reporting requires. -/
def identifies (π : Policy) (s : Sample) : Except EngineExc Unit :=
  if s.captureBootId.isSome ∧ s.sampleSeq.isSome ∧ s.completedMonoMs.isSome ∧
      s.nominalOriginMonoMs.isSome then
    if s.captureBootId = some π.bootId then .ok ()
    else .error (.value "Capture boot differs from reporting process boot")
  else .error (.value "Reporting requires a captured event identity and scheduler origin")

variable [FloatArith]

/-- What becomes of the points when a sample is offered. -/
def offer (π : Policy) (points : Key → Selection) (s : Sample) :
    (Except EngineExc Bool × ℤ) × (Key → Selection) :=
  if π.foreign s then ((.ok false, 0), points)
  else match π.identifies s with
    | .error err => ((.error err, 0), points)
    | .ok () =>
      if seqOf s ≤ (points (keyOf s)).seen then ((.ok false, 0), points)
      else match (enabledPoints π.snapshot).get? (keyOf s) with
        | none => ((.error .key, 0), points)
        | some p =>
          (((points (keyOf s)).offer s p).1,
            Function.update points (keyOf s) ((points (keyOf s)).offer s p).2)

/-- The decision about a sample. -/
def decide (π : Policy) (points : Key → Selection) (s : Sample) : Decision where
  result := (π.offer points s).1.1
  missed := (π.offer points s).1.2
  nextDue := ((π.offer points s).2 (keyOf s)).nextDue

/-- The decisions about samples that are offered one after the other. -/
def decisions (π : Policy) : (Key → Selection) → List Sample → List Decision
  | _, [] => []
  | points, s :: rest => π.decide points s :: π.decisions (π.offer points s).2 rest

end Policy

/-! ## The engine -/

/-- What an engine goes by for a point. -/
def Engine.selection (e : Engine) (key : Key) : Selection where
  epoch := e.maps.epochs.get? key
  seen := (e.maps.seen.get? key).getD 0
  nextDue := e.maps.nextDue.get? key
  baseline := e.baseline key

def Engine.policy (e : Engine) : Policy := ⟨e.gateway, e.bootId, e.snapshot, e.generation⟩

/-- The points are those of the snapshot. -/
def Engine.Pointed (e : Engine) : Prop := e.points = enabledPoints e.snapshot

theorem Engine.Pointed.foreign {e : Engine} (h : e.Pointed) (s : Sample) :
    e.foreign s = e.policy.foreign s := by
  rw [Engine.foreign, h]
  rfl

theorem baseline_congr {e e' : Engine} {key : Key}
    (hshadow : e'.shadows.get? key = e.shadows.get? key)
    (hdurable : e'.maps.baselines.get? key = e.maps.baselines.get? key) :
    e'.baseline key = e.baseline key := by
  rw [Engine.baseline, hshadow, hdurable, ← Engine.baseline]

theorem listed_selection (e : Engine) (s : Sample) (key : Key) :
    (e.listed s).selection key =
      if key = keyOf s then (e.selection key).enter s else e.selection key := by
  have hseen : (e.listed s).maps.seen = e.maps.seen.set (keyOf s) (seqOf s) := by
    rw [listed_maps]
    split <;> rfl
  have hdue : (e.listed s).maps.nextDue.get? key =
      if key = keyOf s ∧ ¬ e.maps.within s then some (s.nominalOriginMonoMs.getD 0)
      else e.maps.nextDue.get? key := by
    rw [listed_maps]
    by_cases hwithin : e.maps.within s
    · rw [if_pos hwithin, if_neg fun h => h.2 hwithin]
    · rw [if_neg hwithin]
      simp only [hwithin, not_false_eq_true, and_true]
      exact Dict.get?_set _ _ _ _
  rw [Engine.selection, listed_epochs, hseen, hdue, Dict.get?_set]
  by_cases hkey : key = keyOf s
  · subst hkey
    rw [if_pos rfl, if_pos rfl, Selection.enter]
    by_cases hwithin : e.maps.within s
    · have hbaseline : (e.listed s).baseline (keyOf s) = e.baseline (keyOf s) :=
        baseline_congr ((listed_shadow e s _).trans (if_neg fun h => h.2 hwithin))
          ((listed_baseline e s _).trans (if_neg fun h => h.2 hwithin))
      have hepoch : (e.selection (keyOf s)).epoch = some (epochOf s) := hwithin
      rw [if_neg fun h => h.2 hwithin, if_pos rfl, if_pos hepoch, hbaseline, hepoch]
      rfl
    · have hbaseline : (e.listed s).baseline (keyOf s) = none := by
        rw [Engine.baseline, listed_shadow, listed_baseline, if_pos ⟨rfl, hwithin⟩,
          if_pos ⟨rfl, hwithin⟩]
      have hepoch : ¬ (e.selection (keyOf s)).epoch = some (epochOf s) := hwithin
      rw [if_pos ⟨rfl, hwithin⟩, if_pos rfl, if_neg hepoch, hbaseline]
      rfl
  · have hbaseline : (e.listed s).baseline key = e.baseline key :=
      baseline_congr ((listed_shadow e s _).trans (if_neg fun h => hkey h.1))
        ((listed_baseline e s _).trans (if_neg fun h => hkey h.1))
    rw [if_neg hkey, if_neg hkey, if_neg hkey, if_neg fun h => hkey h.1, hbaseline]
    rfl

/-- An engine with the same maps and shadows goes by the same. -/
theorem selection_congr {e e' : Engine} (hmaps : e'.maps = e.maps) (hshadows : e'.shadows = e.shadows) :
    e'.selection = e.selection := by
  funext key
  rw [Engine.selection, hmaps, Engine.baseline, hmaps, hshadows, ← Engine.baseline]
  rfl

section Decides

variable [EventCharge]

omit [EventCharge] in
theorem Serves.selection {e e' : Engine} {s : Sample} {p : PointConfig} {served : Bool} {due : ℤ}
    (h : Serves e s p served e') (hdue : e.maps.nextDue.get? (keyOf s) = some due)
    (hruled : slotRule s p due = (e'.missedReportSlots - e.missedReportSlots, .ok served)) :
    e'.selection = Function.update e.selection (keyOf s)
      ((e.selection (keyOf s)).consume p (slotRule s p due)) := by
  cases h with
  | rule =>
      rw [hruled]
      exact (Function.update_eq_self _ _).symm
  | early =>
      rw [hruled]
      exact (Function.update_eq_self _ _).symm
  | @due q due' _ _ _ hdue' =>
      rw [hdue] at hdue'
      obtain rfl := Option.some.inj hdue'
      have hmissed : slotRule s p due = (Int.fdiv (q - due) p.reportIntervalMs, .ok true) := by
        rw [hruled]
        show (e.missedReportSlots + _ - e.missedReportSlots, _) = _
        rw [add_sub_cancel_left]
      rw [hmissed]
      funext key
      rw [Function.update_apply]
      by_cases hkey : key = keyOf s
      · rw [if_pos hkey, hkey, Selection.consume]
        show (⟨_, _, (e.maps.nextDue.set (keyOf s) _).get? (keyOf s), _⟩ : Selection) = _
        rw [Dict.get?_set_self]
        show _ = (⟨_, _, (e.maps.nextDue.get? (keyOf s)).map _, _⟩ : Selection)
        rw [hdue]
        rfl
      · rw [if_neg hkey]
        show (⟨_, _, (e.maps.nextDue.set (keyOf s) _).get? key, _⟩ : Selection) = _
        rw [Dict.get?_set, if_neg hkey]
        rfl

omit [EventCharge] in
/-- The newest event of all is the baseline of its point. -/
theorem owning_selection {e : Engine} {s : Sample}
    (hnewer : ∀ t, e.maps.baselines.get? (keyOf s) = some t → seqOf t < seqOf s) :
    (e.owning s).selection = Function.update e.selection (keyOf s)
      { e.selection (keyOf s) with baseline := some s } := by
  funext key
  rw [Function.update_apply]
  by_cases hkey : key = keyOf s
  · rw [if_pos hkey, hkey]
    have hbaseline : (e.owning s).baseline (keyOf s) = some s := by
      have hshadow : (e.owning s).shadows.get? (keyOf s) = some s := Dict.get?_set_self _ _ _
      rw [Engine.baseline, hshadow]
      have hmaps : (e.owning s).maps = e.maps := rfl
      rw [hmaps]
      cases hold : e.maps.baselines.get? (keyOf s) with
      | none => rfl
      | some old =>
          show some (if seqOf s < seqOf old then old else s) = some s
          rw [if_neg (hnewer old hold).le.not_gt]
    rw [Engine.selection, hbaseline]
    rfl
  · have hbaseline : (e.owning s).baseline key = e.baseline key := by
      refine baseline_congr ?_ rfl
      show (e.shadows.set (keyOf s) s).get? key = _
      rw [Dict.get?_set, if_neg hkey]
    rw [if_neg hkey, Engine.selection, hbaseline]
    rfl

/-- What `accept` has done to the counters of an engine, as a decision. -/
def decided {β : Type} (before : Engine) (s : Sample) (result : Except EngineExc β) (after : Engine) :
    Decision where
  result := result.map fun _ => decide (before.eligibleEvents < after.eligibleEvents)
  missed := after.missedReportSlots - before.missedReportSlots
  nextDue := after.maps.nextDue.get? (keyOf s)

variable [Footprint]

/-- What is concluded of a sample: its selection is counted, and it is the next baseline
    if its time may be reported, unless its admission is refused. -/
theorem Concludes.decides {e e' : Engine} {s : Sample} {selected answer : Bool}
    (h : Concludes e s selected answer e')
    (hnewer : ∀ t, e.maps.baselines.get? (keyOf s) = some t → seqOf t < seqOf s) :
    decide (e.eligibleEvents < e'.eligibleEvents) = selected ∧
      e'.missedReportSlots = e.missedReportSlots ∧ e'.policy = e.policy ∧ e'.points = e.points ∧
      e'.maps = e.maps ∧
      ((timely s → e.eligibleEvents < e'.eligibleEvents → e'.admitted ≠ e.admitted) →
        e'.selection =
          Function.update e.selection (keyOf s) ((e.selection (keyOf s)).keep s selected)) := by
  have hmore : decide (e.eligibleEvents < e.eligibleEvents + 1) = true := by simp
  cases h with
  | filtered =>
      refine ⟨by simp, rfl, rfl, rfl, rfl, fun _ => ?_⟩
      rw [Selection.keep, if_neg (by simp), Function.update_eq_self]
      exact selection_congr rfl rfl
  | untimely huntimely =>
      refine ⟨hmore, rfl, rfl, rfl, rfl, fun _ => ?_⟩
      rw [Selection.keep, if_neg fun hboth => huntimely hboth.2, Function.update_eq_self]
      exact selection_congr rfl rfl
  | rejected htimely =>
      exact ⟨hmore, rfl, rfl, rfl, rfl, fun hno => absurd rfl (hno htimely (of_decide_eq_true hmore))⟩
  | decided htimely =>
      exact ⟨hmore, rfl, rfl, rfl, rfl, fun hno => absurd rfl (hno htimely (of_decide_eq_true hmore))⟩
  | admitted htimely =>
      refine ⟨hmore, rfl, rfl, rfl, rfl, fun _ => ?_⟩
      rw [Selection.keep, if_pos ⟨rfl, htimely⟩]
      have howns := owning_selection (e := e.eligible (e.accounting.admitted s)) (s := s) hnewer
      exact (selection_congr rfl rfl).trans howns

variable [FloatArith]

omit [EventCharge] [Footprint] in
/-- The policy compares a sample that the engine takes for its own. -/
theorem Current.offer {e : Engine} {s : Sample} {p : PointConfig} (h : Current e s)
    (hpointed : e.Pointed) (hpoint : e.points.get? (keyOf s) = some p) :
    e.policy.offer e.selection s = (((e.selection (keyOf s)).offer s p).1,
      Function.update e.selection (keyOf s) ((e.selection (keyOf s)).offer s p).2) := by
  have hours : e.policy.foreign s = false := by
    rw [← hpointed.foreign]
    exact h.configured
  have hidentified : e.policy.identifies s = .ok () := h.identified
  have hunseen : ¬ seqOf s ≤ (e.selection (keyOf s)).seen := not_le.mpr h.unseen
  have hpoint : (enabledPoints e.policy.snapshot).get? (keyOf s) = some p := by
    rw [hpointed] at hpoint
    exact hpoint
  simp only [Policy.offer, hours, Bool.false_eq_true, ↓reduceIte, hidentified, if_neg hunseen, hpoint]

omit [EventCharge] [Footprint] [FloatArith] in
/-- A point that was listed goes by the sample's epoch. -/
theorem listed_update (e : Engine) (s : Sample) :
    (e.listed s).selection =
      Function.update e.selection (keyOf s) ((e.selection (keyOf s)).enter s) := by
  funext key
  rw [listed_selection, Function.update_apply]
  by_cases hkey : key = keyOf s
  · rw [if_pos hkey, if_pos hkey, hkey]
  · rw [if_neg hkey, if_neg hkey]

omit [EventCharge] [Footprint] [FloatArith] in
theorem listed_enter (e : Engine) (s : Sample) :
    (e.selection (keyOf s)).enter s = (e.listed s).selection (keyOf s) := by
  rw [listed_update, Function.update_self]

/-- `accept` decides as the policy does, and what it goes by afterwards is what the policy
    says, as long as it admits what it selects. -/
theorem Accepts.decides {e e' : Engine} {s : Sample} {r : Except EngineExc Bool}
    (ha : Accepts e s r e') (hsound : Sound e) (hfresh : ∀ t ∈ e.offered, seqOf t < seqOf s)
    (hpointed : e.Pointed) :
    decided e s r e' = e.policy.decide e.selection s ∧ e'.policy = e.policy ∧ e'.Pointed ∧
      ((timely s → e.eligibleEvents < e'.eligibleEvents → e'.admitted ≠ e.admitted) →
        e'.selection = (e.policy.offer e.selection s).2) := by
  -- a sample that is not compared leaves what is known of the points
  have hpassed : ∀ (r : Except EngineExc Bool) (r' : Except EngineExc Bool) (e' : Engine),
      e.policy.offer e.selection s = ((r', 0), e.selection) →
      r.map (fun _ => decide (e.eligibleEvents < e'.eligibleEvents)) = r' →
      e'.missedReportSlots = e.missedReportSlots → e'.maps = e.maps → e'.shadows = e.shadows →
      e'.policy = e.policy → e'.Pointed →
      decided e s r e' = e.policy.decide e.selection s ∧ e'.policy = e.policy ∧ e'.Pointed ∧
        ((timely s → e.eligibleEvents < e'.eligibleEvents → e'.admitted ≠ e.admitted) →
          e'.selection = (e.policy.offer e.selection s).2) := by
    intro r r' e' hoffer hresult hmissed hmaps hshadows hpolicy hpoints
    refine ⟨?_, hpolicy, hpoints, fun _ => ?_⟩
    · rw [decided, Policy.decide, hoffer, hresult, hmissed, sub_self, hmaps]
      rfl
    · rw [hoffer]
      exact selection_congr hmaps hshadows
  have hsame : decide (e.eligibleEvents < e.eligibleEvents) = false := by simp
  cases ha with
  | foreign hforeign =>
      rw [hpointed.foreign] at hforeign
      refine hpassed _ (.ok false) _ ?_ (congrArg Except.ok hsame) rfl rfl rfl rfl hpointed
      rw [Policy.offer, if_pos hforeign]
  | seen hours hidentified hseen =>
      rw [hpointed.foreign] at hours
      have hidentified : e.policy.identifies s = .ok () := hidentified
      have hseen : seqOf s ≤ (e.selection (keyOf s)).seen := hseen
      refine hpassed _ (.ok false) _ ?_ (congrArg Except.ok hsame) rfl rfl rfl rfl hpointed
      simp only [Policy.offer, hours, Bool.false_eq_true, ↓reduceIte, hidentified, if_pos hseen]
  | @unidentified err hours hunidentified =>
      rw [hpointed.foreign] at hours
      have hunidentified : e.policy.identifies s = .error err := hunidentified
      refine hpassed _ (.error err) _ ?_ rfl rfl rfl rfl rfl hpointed
      simp only [Policy.offer, hours, Bool.false_eq_true, ↓reduceIte, hunidentified]
  | @failed err latest refs usedBytes missed p hcurrent _ hpoint hfails =>
      have hoffer := hcurrent.offer hpointed hpoint
      have hjudged : judge ((e.listed s).selection (keyOf s)).baseline
          (((e.listed s).selection (keyOf s)).nextDue.getD 0) s p = (.error err, missed) := by
        cases hfails with
        | comparison h =>
            have h : differs ((e.listed s).selection (keyOf s)).baseline s p = .error err := h
            rw [judge, h]
        | slot hcompared hdue h =>
            have hcompared : differs ((e.listed s).selection (keyOf s)).baseline s p = .ok _ := hcompared
            have hdue : ((e.listed s).selection (keyOf s)).nextDue = some _ := hdue
            rw [judge, hcompared, hdue, Option.getD_some, h]
            rfl
      have hfailed : (e.selection (keyOf s)).offer s p =
          ((.error err, missed), (e.listed s).selection (keyOf s)) := by
        simp only [Selection.offer, listed_enter, hjudged]
      rw [hfailed, ← listed_enter, ← listed_update] at hoffer
      refine ⟨?_, rfl, hpointed, fun _ => ?_⟩
      · rw [decided, Policy.decide, hoffer, add_sub_cancel_left]
        rfl
      · rw [hoffer]
        exact selection_congr rfl rfl
  | @concluded latest refs usedBytes p selected changed served answer e₁ _ hcurrent _ hpoint hselects
      hconcludes =>
      have hoffer := hcurrent.offer hpointed hpoint
      obtain ⟨due, hdue⟩ := hsound.recorded.scheduled.listed s (keyOf s) (epochOf s)
        ((listed_epochs e s _).trans (if_pos rfl))
      have hruled : slotRule s p due = (e₁.missedReportSlots - e.missedReportSlots, .ok served) :=
        hselects.ruled due hdue
      have hserves := hselects.cyclic.selection hdue (hselects.ruled due hdue)
      have hlisted : ({ e.listed s with latest, refs, usedBytes } : Engine).selection =
          (e.listed s).selection := selection_congr rfl rfl
      rw [hlisted] at hserves
      obtain ⟨maps, count, accounting, he₁, hbaselines, -, -⟩ := hselects.cyclic.beside
      have hnewer : ∀ t, e₁.maps.baselines.get? (keyOf s) = some t → seqOf t < seqOf s := by
        intro t ht
        rw [he₁] at ht
        have ht : maps.baselines.get? (keyOf s) = some t := ht
        rw [hbaselines] at ht
        have hheld := listed_baselines (Dict.mem_values.mpr ⟨_, ht⟩)
        exact hfresh t (hsound.recorded.known t (mem_held.mpr (.inr (.inr hheld))))
      have heligible : e₁.eligibleEvents = e.eligibleEvents := by
        rw [he₁]
        rfl
      have hadmitted : e₁.admitted = e.admitted := by
        rw [he₁]
        rfl
      obtain ⟨hselected, hmissed, hpolicy, hpoints, hmaps, hkeeps⟩ := hconcludes.decides hnewer
      rw [heligible, hadmitted] at hkeeps
      rw [heligible] at hselected
      -- the sample is compared with what is known once it is listed
      have hdue : ((e.listed s).selection (keyOf s)).nextDue = some due := hdue
      have hjudged : judge ((e.listed s).selection (keyOf s)).baseline
          (((e.listed s).selection (keyOf s)).nextDue.getD 0) s p =
            (.ok selected, e₁.missedReportSlots - e.missedReportSlots) := by
        have hcompared : differs ((e.listed s).selection (keyOf s)).baseline s p = .ok changed :=
          hselects.compared
        rw [judge, hcompared, hdue, Option.getD_some, hruled, hselects.either]
        rfl
      have hdecided : (e.selection (keyOf s)).offer s p =
          ((.ok selected, e₁.missedReportSlots - e.missedReportSlots),
            (e₁.selection (keyOf s)).keep s selected) := by
        rw [hserves, Function.update_self]
        simp only [Selection.offer, listed_enter, hjudged]
        rw [hdue, Option.getD_some]
      have hslot : (e₁.selection (keyOf s)).nextDue =
          ((e₁.selection (keyOf s)).keep s selected).nextDue := by
        rw [Selection.keep]
        split <;> rfl
      have hpolicy : e'.policy = e.policy := hpolicy.trans (by rw [he₁]; rfl)
      refine ⟨?_, hpolicy, ?_, fun hunrefused => ?_⟩
      · rw [hdecided] at hoffer
        simp only [decided, Policy.decide, hoffer, Function.update_self, ← hslot, hmissed, hmaps]
        rw [hselected]
        rfl
      · have hsnapshot : e'.snapshot = e.snapshot := congrArg Policy.snapshot hpolicy
        rw [Engine.Pointed, hpoints, hsnapshot, he₁]
        exact hpointed
      · rw [hkeeps hunrefused, hoffer, hdecided, hserves, listed_update, Function.update_idem,
          Function.update_idem]

end Decides

end PlcnextIot.Reporting
