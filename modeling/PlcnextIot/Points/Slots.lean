/-
  PlcnextIot.Points.Slots

  The nominal slots of a point: `points/slots.py`, and the two places that count with
  it, `advance` of `drivers/opcua.py` and `_refresh_plan` of `devices/opcua.py`.

  A poll is counted at its slot.  When it is completed, the slots that have passed
  meanwhile are counted as skipped, and the next slot of the point is the one after
  them.  When a configuration is retired, the slots that are left before that instant
  are counted as skipped.

  Times are seconds, as in the source, without the rounding of binary64.
-/

import PlcnextIot.Python.Number
import Mathlib.Data.List.Perm.Basic
import Mathlib.Tactic.Ring
import Mathlib.Tactic.FieldSimp
import Mathlib.Tactic.Linarith

namespace PlcnextIot.Points

open PlcnextIot.Python

/-! ## `points/slots.py` -/

/-- `round(t * 1000)` -/
def millis (t : ℚ) : ℤ := roundHalfEven (t * 1000)

/-- `skipped_after` -/
def skippedAfter (nominal completed interval : ℚ) (retiredAt : Option ℚ) : ℤ :=
  let q := millis nominal
  let stop := millis completed
  let step := millis interval
  match retiredAt with
  | some retired =>
    -- the slot exactly at the boundary is not counted
    max 0 (Int.fdiv (min stop (millis retired) - q + step - 1) step - 1)
  | none => max 0 (Int.fdiv (stop - q) step)

/-- `skipped_before` -/
def skippedBefore (nominal retiredAt interval : ℚ) : ℤ :=
  max 0 (Int.fdiv (millis retiredAt - millis nominal + millis interval - 1) (millis interval))

/-! ## The slots of a point -/

/-- `next_read[point]`, with the slots that were polled so far and those that were counted
    as skipped.  The source keeps the number of the latter only. -/
structure SlotPlan where
  next : ℚ
  polled : List ℚ := []
  skipped : List ℚ := []

/-- The slots that a number of skipped slots stands for. -/
def slotsFrom (first interval : ℚ) (count : ℤ) : List ℚ :=
  (List.range count.toNat).map fun k : ℕ => first + k * interval

/-- `advance`: the poll of the next slot was completed at `now`. -/
def SlotPlan.advance (p : SlotPlan) (pollIntervalMs : ℤ) (now : ℚ) (retiredAt : Option ℚ) : SlotPlan :=
  let interval : ℚ := pollIntervalMs / 1000
  let missed := skippedAfter p.next now interval retiredAt
  { next := p.next + (missed + 1) * pollIntervalMs / 1000
    polled := p.polled ++ [p.next]
    skipped := p.skipped ++ slotsFrom (p.next + interval) interval missed }

/-- `_refresh_plan`, for a point of the configuration that was retired. -/
def SlotPlan.retire (p : SlotPlan) (pollIntervalMs : ℤ) (retired : ℚ) : SlotPlan :=
  let interval : ℚ := pollIntervalMs / 1000
  { p with skipped := p.skipped ++ slotsFrom p.next interval (skippedBefore p.next retired interval) }

/-! ## Milliseconds -/

/-- A time of whole milliseconds, in seconds. -/
def seconds (ms : ℤ) : ℚ := ms / 1000

@[simp] theorem millis_seconds (ms : ℤ) : millis (seconds ms) = ms := by
  rw [millis, seconds, div_mul_cancel₀ _ (by norm_num), roundHalfEven_int]

theorem seconds_add (a b : ℤ) : seconds (a + b) = seconds a + seconds b := by
  rw [seconds, seconds, seconds, ← add_div]
  push_cast
  rfl

theorem seconds_lt {a b : ℤ} : seconds a < seconds b ↔ a < b := by
  rw [seconds, seconds, div_lt_div_iff_of_pos_right (by norm_num)]
  exact Int.cast_lt

theorem seconds_le {a b : ℤ} : seconds a ≤ seconds b ↔ a ≤ b := by
  rw [seconds, seconds, div_le_div_iff_of_pos_right (by norm_num)]
  exact Int.cast_le

theorem seconds_inj {a b : ℤ} (h : seconds a = seconds b) : a = b := by
  rw [← millis_seconds a, h, millis_seconds]

/-! ## One count -/

section Counts

variable {q t r step : ℤ}

/-- The slots that pass until `t`, and the first one after. -/
theorem skippedAfter_running (hstep : 1 ≤ step) (ht : q ≤ t) :
    ∃ m : ℕ, skippedAfter (seconds q) (seconds t) (seconds step) none = m ∧
      q + m * step ≤ t ∧ t < q + (m + 1) * step := by
  have hdiv : 0 ≤ (t - q) / step := Int.ediv_nonneg (by omega) (by omega)
  have hle := Int.ediv_mul_le (t - q) (show step ≠ 0 by omega)
  have hlt := Int.lt_ediv_add_one_mul_self (t - q) (show 0 < step by omega)
  refine ⟨((t - q) / step).toNat, ?_, ?_, ?_⟩
  · show max 0 (Int.fdiv (millis (seconds t) - millis (seconds q)) (millis (seconds step))) = _
    rw [millis_seconds, millis_seconds, millis_seconds, Int.fdiv_eq_ediv_of_nonneg _ (by omega),
      Int.toNat_of_nonneg hdiv, max_eq_right hdiv]
  · rw [Int.toNat_of_nonneg hdiv]
    omega
  · rw [Int.toNat_of_nonneg hdiv]
    omega

/-- The rounded up quotient is the number of slots before a limit. -/
theorem ceil_spec (hstep : 1 ≤ step) (x : ℤ) :
    x ≤ (x + step - 1) / step * step ∧ ((x + step - 1) / step - 1) * step < x := by
  have hle := Int.ediv_mul_le (x + step - 1) (show step ≠ 0 by omega)
  have hlt := Int.lt_ediv_add_one_mul_self (x + step - 1) (show 0 < step by omega)
  rw [Int.add_mul] at hlt
  rw [Int.sub_mul]
  constructor <;> omega

/-- With a retirement at `r`, only slots before both instants are counted, and the next
    slot is not before both. -/
theorem skippedAfter_retired (hstep : 1 ≤ step) :
    ∃ m : ℕ, skippedAfter (seconds q) (seconds t) (seconds step) (some (seconds r)) = m ∧
      (m = 0 ∨ q + m * step < min t r) ∧ min t r ≤ q + (m + 1) * step := by
  obtain ⟨hle, hlt⟩ := ceil_spec hstep (min t r - q)
  have hvalue : skippedAfter (seconds q) (seconds t) (seconds step) (some (seconds r)) =
      max 0 ((min t r - q + step - 1) / step - 1) := by
    show max 0 (Int.fdiv (min (millis (seconds t)) (millis (seconds r)) - millis (seconds q) +
      millis (seconds step) - 1) (millis (seconds step)) - 1) = _
    simp only [millis_seconds]
    rw [Int.fdiv_eq_ediv_of_nonneg _ (by omega)]
  refine ⟨((min t r - q + step - 1) / step - 1).toNat, ?_, ?_, ?_⟩
  · rw [hvalue, Int.toNat_eq_max, max_comm]
  · by_cases hpos : 0 ≤ (min t r - q + step - 1) / step - 1
    · right
      rw [Int.toNat_of_nonneg hpos]
      omega
    · left
      omega
  · by_cases hpos : 0 ≤ (min t r - q + step - 1) / step - 1
    · rw [Int.toNat_of_nonneg hpos, sub_add_cancel]
      omega
    · have hzero : ((min t r - q + step - 1) / step - 1).toNat = 0 := by omega
      have hneg : (min t r - q + step - 1) / step * step ≤ 0 :=
        Int.mul_nonpos_of_nonpos_of_nonneg (by omega) (by omega)
      rw [hzero]
      push_cast
      omega

/-- The slots that are left before `r`. -/
theorem skippedBefore_spec (hstep : 1 ≤ step) :
    ∃ m : ℕ, skippedBefore (seconds q) (seconds r) (seconds step) = m ∧
      (m = 0 ∨ q + (m - 1) * step < r) ∧ r ≤ q + m * step := by
  obtain ⟨hle, hlt⟩ := ceil_spec hstep (r - q)
  have hvalue : skippedBefore (seconds q) (seconds r) (seconds step) =
      max 0 ((r - q + step - 1) / step) := by
    rw [skippedBefore, millis_seconds, millis_seconds, millis_seconds,
      Int.fdiv_eq_ediv_of_nonneg _ (by omega)]
  refine ⟨((r - q + step - 1) / step).toNat, ?_, ?_, ?_⟩
  · rw [hvalue, Int.toNat_eq_max, max_comm]
  · by_cases hpos : 0 ≤ (r - q + step - 1) / step
    · right
      rw [Int.toNat_of_nonneg hpos]
      omega
    · left
      omega
  · by_cases hpos : 0 ≤ (r - q + step - 1) / step
    · rw [Int.toNat_of_nonneg hpos]
      omega
    · have hzero : ((r - q + step - 1) / step).toNat = 0 := by omega
      have hneg : (r - q + step - 1) / step * step ≤ 0 :=
        Int.mul_nonpos_of_nonpos_of_nonneg (by omega) (by omega)
      rw [hzero]
      push_cast
      omega

end Counts

/-! ## Sequences of polls -/

/-- The polls of a point from a plan on.  Each is completed at a whole millisecond after
    its slot, and `before` limits when. -/
inductive Polled (step : ℤ) (before : ℤ → Prop) (p : SlotPlan) : SlotPlan → Prop
  | start : Polled step before p p
  | poll {p' : SlotPlan} {t : ℤ} (h : Polled step before p p') (hafter : p'.next ≤ seconds t)
      (hbefore : before t) : Polled step before p (p'.advance step (seconds t) none)

/-- The slots from `q₀` on have been counted, each once. -/
structure OnGrid (q₀ step : ℤ) (n : ℕ) (p : SlotPlan) : Prop where
  next : p.next = seconds (q₀ + n * step)
  counted : (p.polled ++ p.skipped).Perm ((List.range n).map fun k : ℕ => seconds (q₀ + k * step))

section Polls

variable {q₀ step : ℤ} {n : ℕ} {p : SlotPlan}

theorem slotsFrom_seconds (q step : ℤ) (m : ℕ) :
    slotsFrom (seconds q) (seconds step) m = (List.range m).map fun k : ℕ => seconds (q + k * step) := by
  rw [slotsFrom, Int.toNat_natCast]
  refine List.map_congr_left fun k _ => ?_
  rw [seconds_add]
  show _ = seconds q + ((k * step : ℤ) : ℚ) / 1000
  push_cast
  rw [seconds, seconds, mul_div_assoc]

/-- The slots of a grid, continued. -/
theorem grid_append (q₀ step : ℤ) (n m : ℕ) :
    ((List.range (n + m)).map fun k : ℕ => seconds (q₀ + k * step)) =
      ((List.range n).map fun k : ℕ => seconds (q₀ + k * step)) ++
        slotsFrom (seconds (q₀ + n * step)) (seconds step) m := by
  rw [slotsFrom_seconds, List.range_add, List.map_append, List.map_map]
  congr 1
  refine List.map_congr_left fun k _ => ?_
  show seconds (q₀ + ((n + k : ℕ) : ℤ) * step) = _
  push_cast
  ring_nf

/-- What a poll of the grid leaves. -/
theorem advance_grid (h : p.next = seconds (q₀ + n * step)) {now : ℚ} {retiredAt : Option ℚ} {m : ℕ}
    (hm : skippedAfter p.next now (seconds step) retiredAt = m) :
    p.advance step now retiredAt =
      { next := seconds (q₀ + ((n + 1 + m : ℕ) : ℤ) * step)
        polled := p.polled ++ [p.next]
        skipped := p.skipped ++ slotsFrom (seconds (q₀ + ((n + 1 : ℕ) : ℤ) * step)) (seconds step) m } := by
  have hm : skippedAfter p.next now ((step : ℚ) / 1000) retiredAt = m := hm
  have hnext : p.next + ((m : ℤ) + 1) * step / 1000 = seconds (q₀ + ((n + 1 + m : ℕ) : ℤ) * step) := by
    rw [h, seconds, seconds]
    push_cast
    ring
  have hfirst : p.next + (step : ℚ) / 1000 = seconds (q₀ + ((n + 1 : ℕ) : ℤ) * step) := by
    rw [h, seconds, seconds]
    push_cast
    ring
  rw [SlotPlan.advance, hm, hfirst]
  push_cast at hnext ⊢
  rw [hnext]
  rfl

/-- A poll counts its slot and the skipped ones. -/
theorem OnGrid.advance (h : OnGrid q₀ step n p) {now : ℚ} {retiredAt : Option ℚ} {m : ℕ}
    (hm : skippedAfter p.next now (seconds step) retiredAt = m) :
    OnGrid q₀ step (n + 1 + m) (p.advance step now retiredAt) := by
  rw [advance_grid h.next hm]
  refine ⟨rfl, ?_⟩
  have hone : slotsFrom (seconds (q₀ + n * step)) (seconds step) ((1 : ℕ) : ℤ) = [p.next] := by
    rw [h.next, slotsFrom_seconds]
    simp
  rw [grid_append q₀ step (n + 1) m, grid_append q₀ step n 1, hone]
  -- the polled slot stands before the slots that were skipped earlier
  have hmove : ((p.polled ++ [p.next]) ++ p.skipped).Perm ((p.polled ++ p.skipped) ++ [p.next]) := by
    rw [List.append_assoc, List.append_assoc]
    exact List.perm_append_comm.append_left p.polled
  rw [← List.append_assoc]
  exact (hmove.trans (h.counted.append_right _)).append_right _

/-- The slots that are skipped are as late as the last of them. -/
theorem slotsFrom_lt (hstep : 1 ≤ step) {q r : ℤ} {m : ℕ} (h : m = 0 ∨ q + (m - 1) * step < r)
    {s : ℚ} (hs : s ∈ slotsFrom (seconds q) (seconds step) m) : s < seconds r := by
  rw [slotsFrom_seconds, List.mem_map] at hs
  obtain ⟨k, hk, rfl⟩ := hs
  rw [List.mem_range] at hk
  rcases h with rfl | hlast
  · omega
  · have hmul : (k : ℤ) * step ≤ (m - 1) * step :=
      Int.mul_le_mul_of_nonneg_right (by omega) (by omega)
    rw [seconds_lt]
    omega

/-- The next slot is later than the completion, by a step at most. -/
theorem OnGrid.next_after (hstep : 1 ≤ step) (h : OnGrid q₀ step n p) {t : ℤ}
    (hafter : p.next ≤ seconds t) :
    seconds t < (p.advance step (seconds t) none).next ∧
      (p.advance step (seconds t) none).next ≤ seconds (t + step) := by
  rw [h.next, seconds_le] at hafter
  obtain ⟨m, hm, hle, hlt⟩ := skippedAfter_running hstep hafter
  rw [← h.next] at hm
  rw [advance_grid h.next hm, seconds_lt, seconds_le]
  have hsum : ((n + 1 + m : ℕ) : ℤ) * step = n * step + (m + 1) * step := by
    push_cast
    ring
  have hnext : ((m : ℤ) + 1) * step = m * step + step := by ring
  constructor <;> omega

/-- A plan that was polled is on the grid, and the skipped slots have passed. -/
theorem Polled.onGrid (hstep : 1 ≤ step) {before : ℤ → Prop}
    (h : Polled step before { next := seconds q₀ } p) :
    ∃ n, OnGrid q₀ step n p ∧ ∀ r, (∀ t, before t → t < r) → ∀ s ∈ p.skipped, s < seconds r := by
  induction h with
  | start => exact ⟨0, ⟨by simp, by simp⟩, fun r _ s hs => by cases hs⟩
  | @poll p' t _ hafter hbefore ih =>
      obtain ⟨n, hgrid, hskipped⟩ := ih
      rw [hgrid.next, seconds_le] at hafter
      obtain ⟨m, hm, hle, -⟩ := skippedAfter_running hstep hafter
      rw [← hgrid.next] at hm
      refine ⟨_, hgrid.advance hm, fun r hr s hs => ?_⟩
      rw [advance_grid hgrid.next hm] at hs
      rcases List.mem_append.mp hs with hs | hs
      · exact hskipped r hr s hs
      · refine slotsFrom_lt hstep (.inr ?_) hs
        have hlt := hr t hbefore
        push_cast
        linarith

/-! ## The retirement -/

/-- The retirement counts the slots that are left. -/
theorem OnGrid.retire (hstep : 1 ≤ step) (h : OnGrid q₀ step n p) (r : ℤ) :
    ∃ n' : ℕ, ((p.retire step (seconds r)).polled ++ (p.retire step (seconds r)).skipped).Perm
        ((List.range n').map fun k : ℕ => seconds (q₀ + k * step)) ∧ r ≤ q₀ + n' * step ∧
      ((∀ s ∈ p.skipped, s < seconds r) → ∀ s ∈ (p.retire step (seconds r)).skipped, s < seconds r) := by
  obtain ⟨m, hm, hbefore, hle⟩ := skippedBefore_spec (q := q₀ + n * step) (r := r) hstep
  rw [← h.next] at hm
  have hretire : p.retire step (seconds r) = { p with
      skipped := p.skipped ++ slotsFrom (seconds (q₀ + n * step)) (seconds step) m } := by
    have hm : skippedBefore p.next (seconds r) ((step : ℚ) / 1000) = m := hm
    rw [SlotPlan.retire, hm, ← h.next]
    rfl
  rw [hretire]
  refine ⟨n + m, ?_, ?_, fun hskipped s hs => ?_⟩
  · rw [grid_append, ← List.append_assoc]
    exact h.counted.append_right _
  · push_cast
    linarith
  · rcases List.mem_append.mp hs with hs | hs
    · exact hskipped s hs
    · exact slotsFrom_lt hstep hbefore hs

/-- The slots of a grid are different. -/
theorem grid_nodup (hstep : 1 ≤ step) (n : ℕ) :
    ((List.range n).map fun k : ℕ => seconds (q₀ + k * step)).Nodup := by
  refine List.Nodup.map (fun a b he => ?_) List.nodup_range
  have he : (a : ℤ) * step = b * step := by
    have := seconds_inj he
    omega
  exact_mod_cast Int.eq_of_mul_eq_mul_right (by omega) he

/-- The counts of a point telescope.  Every slot before the retirement of its
    configuration is counted once, as polled or as skipped, and no later slot is counted
    as skipped.  While the configuration is in force, the next slot is later than the
    completion of a poll, by one step at most. -/
theorem slots_telescope {q₀ step : ℤ} (hstep : 1 ≤ step) :
    (∀ (r : ℤ) (p last : SlotPlan), Polled step (· < r) { next := seconds q₀ } p →
      (last = p ∨ ∃ t, p.next ≤ seconds t ∧ last = p.advance step (seconds t) (some (seconds r))) →
      (∀ k : ℕ, q₀ + k * step < r → ((last.retire step (seconds r)).polled ++
        (last.retire step (seconds r)).skipped).count (seconds (q₀ + k * step)) = 1) ∧
      ∀ s ∈ (last.retire step (seconds r)).skipped, s < seconds r) ∧
    (∀ (p : SlotPlan) (t : ℤ), Polled step (fun _ => True) { next := seconds q₀ } p →
      p.next ≤ seconds t → seconds t < (p.advance step (seconds t) none).next ∧
        (p.advance step (seconds t) none).next ≤ seconds (t + step)) := by
  refine ⟨fun r p last hpolls hlast => ?_, fun p t hpolls hafter => ?_⟩
  · obtain ⟨n, hgrid, hskipped⟩ := hpolls.onGrid hstep
    have hbefore := hskipped r fun _ h => h
    -- The last poll may already have been cut off at `r`.
    obtain ⟨n', hgrid', hbefore'⟩ : ∃ n', OnGrid q₀ step n' last ∧ ∀ s ∈ last.skipped, s < seconds r := by
      rcases hlast with rfl | ⟨t, hafter, rfl⟩
      · exact ⟨n, hgrid, hbefore⟩
      · obtain ⟨m, hm, hend, -⟩ := skippedAfter_retired (q := q₀ + n * step) (t := t) (r := r) hstep
        rw [← hgrid.next] at hm
        refine ⟨_, hgrid.advance hm, fun s hs => ?_⟩
        rw [advance_grid hgrid.next hm] at hs
        rcases List.mem_append.mp hs with hs | hs
        · exact hbefore s hs
        · refine slotsFrom_lt hstep ?_ hs
          refine hend.imp id fun hlt => ?_
          have hr : min t r ≤ r := min_le_right t r
          push_cast
          linarith
    obtain ⟨count, hperm, hreach, hlimit⟩ := hgrid'.retire hstep r
    refine ⟨fun k hk => ?_, hlimit hbefore'⟩
    rw [hperm.count_eq]
    refine List.count_eq_one_of_mem (grid_nodup hstep count) (List.mem_map.mpr ⟨k, ?_, rfl⟩)
    rw [List.mem_range]
    by_contra hge
    have hmul : (count : ℤ) * step ≤ k * step :=
      Int.mul_le_mul_of_nonneg_right (by omega) (by omega)
    omega
  · obtain ⟨n, hgrid, -⟩ := hpolls.onGrid hstep
    exact hgrid.next_after hstep hafter

end Polls

/-- A point is polled every second, and the second poll is still running when its
    configuration is retired after 7.5 s. -/
theorem slots_telescope_retired :
    (((((({ next := seconds 0 } : SlotPlan).advance 1000 (seconds 200) none).advance 1000
        (seconds 9000) (some (seconds 7500))).retire 1000 (seconds 7500)).polled ++
      ((((({ next := seconds 0 } : SlotPlan).advance 1000 (seconds 200) none).advance 1000
        (seconds 9000) (some (seconds 7500))).retire 1000 (seconds 7500)).skipped)).count
          (seconds (0 + (7 : ℕ) * 1000))) = 1 := by
  have hpolls : Polled 1000 (· < 7500) { next := seconds 0 }
      (({ next := seconds 0 } : SlotPlan).advance 1000 (seconds 200) none) :=
    .poll .start (by decide +kernel) (by decide)
  exact ((slots_telescope (by decide)).1 7500 _ _ hpolls
    (.inr ⟨9000, by decide +kernel, rfl⟩)).1 7 (by decide)

end PlcnextIot.Points
