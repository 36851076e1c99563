/-
  PlcnextIot.Arith.GridWalk

  Walks over an equidistant grid, which serve some grid points and skip the others.

  Each stop of a walk serves the latest grid point that is not after its time, and skips
  the ones between; the walk goes on with the grid point behind it.  So a walk takes every
  grid point that it has passed exactly once, and where it stands is found by counting.
-/

import Mathlib.Algebra.BigOperators.Group.List.Basic
import Mathlib.Algebra.Order.Ring.Int
import Mathlib.Tactic.Ring

namespace PlcnextIot.Arith

/-- A stop: its time, the grid point that it serves, and how many it skips before that. -/
structure Stop where
  time : ℤ
  point : ℤ
  skipped : ℤ

/-- The stop of a walk that stands at `next`. -/
structure Stop.From (interval next : ℤ) (s : Stop) : Prop where
  skips : 0 ≤ s.skipped
  serves : s.point = next + interval * s.skipped
  reached : s.point ≤ s.time
  latest : s.time < s.point + interval

/-- From `start`, over these stops, to `next`. -/
def Walk (interval : ℤ) : ℤ → List Stop → ℤ → Prop
  | start, [], next => next = start
  | start, s :: rest, next => s.From interval start ∧ Walk interval (s.point + interval) rest next

/-- The grid points that a stop takes are those from the first it skips to its own. -/
def Stop.Takes (interval : ℤ) (s : Stop) (t : ℤ) : Prop :=
  s.point - interval * s.skipped ≤ t ∧ t < s.point + interval

variable {interval start next : ℤ} {s : Stop} {stops : List Stop}

/-- There is a stop for every time that a grid point has come by. -/
theorem Stop.from_fdiv (hpos : 0 < interval) {time : ℤ} (h : next ≤ time) :
    Stop.From interval next
      ⟨time, next + Int.fdiv (time - next) interval * interval, Int.fdiv (time - next) interval⟩ := by
  rw [Int.fdiv_eq_ediv_of_nonneg _ hpos.le]
  have hdiv := Int.mul_ediv_add_emod (time - next) interval
  have hmod := Int.emod_nonneg (time - next) hpos.ne'
  have hlt := Int.emod_lt_of_pos (time - next) hpos
  have hcomm := Int.mul_comm interval ((time - next) / interval)
  constructor
  · exact Int.ediv_nonneg (by omega) hpos.le
  · show next + (time - next) / interval * interval = next + interval * ((time - next) / interval)
    omega
  · show next + _ * interval ≤ time
    omega
  · show time < next + _ * interval + interval
    omega

namespace Walk

theorem snoc (h : Walk interval start stops next) (hs : s.From interval next) :
    Walk interval start (stops ++ [s]) (s.point + interval) := by
  induction stops generalizing start with
  | nil =>
      obtain rfl : next = start := h
      exact ⟨hs, rfl⟩
  | cons t rest ih => exact ⟨h.1, ih h.2⟩

/-- Where a walk stands: one interval for each stop, and one for each skipped point. -/
theorem next_eq (h : Walk interval start stops next) :
    next = start + interval * (stops.length + (stops.map (·.skipped)).sum) := by
  induction stops generalizing start with
  | nil =>
      obtain rfl : next = start := h
      simp
  | cons t rest ih =>
      rw [ih h.2, h.1.serves, List.map_cons, List.sum_cons, List.length_cons]
      push_cast
      ring

theorem start_le (hpos : 0 < interval) (h : Walk interval start stops next) : start ≤ next := by
  induction stops generalizing start with
  | nil => exact le_of_eq (Eq.symm h)
  | cons t rest ih =>
      have hrest := ih h.2
      have hskips : 0 ≤ interval * t.skipped := Int.mul_nonneg hpos.le h.1.skips
      have hserves := h.1.serves
      omega

/-- A stop takes nothing before the start and nothing from `next` on. -/
theorem takes_within (hpos : 0 < interval) (h : Walk interval start stops next) (hs : s ∈ stops)
    {t : ℤ} (ht : s.Takes interval t) : start ≤ t ∧ t < next := by
  induction stops generalizing start with
  | nil => cases hs
  | cons u rest ih =>
      have hserves := h.1.serves
      have hrest := h.2.start_le hpos
      rcases List.mem_cons.mp hs with rfl | hs
      · unfold Stop.Takes at ht
        omega
      · obtain ⟨hle, hlt⟩ := ih h.2 hs
        have hskips : 0 ≤ interval * u.skipped := Int.mul_nonneg hpos.le h.1.skips
        omega

/-- Every stop serves a point of the grid. -/
theorem on_grid (h : Walk interval start stops next) (hs : s ∈ stops) : interval ∣ s.point - start := by
  induction stops generalizing start with
  | nil => cases hs
  | cons u rest ih =>
      have hserves : u.point = start + interval * u.skipped := h.1.serves
      rcases List.mem_cons.mp hs with rfl | hs
      · exact ⟨s.skipped, by omega⟩
      · obtain ⟨n, hn⟩ := ih h.2 hs
        refine ⟨n + 1 + u.skipped, ?_⟩
        rw [Int.mul_add, Int.mul_add, Int.mul_one, ← hn]
        omega

/-- Every stop is before the grid point that comes next. -/
theorem behind (hpos : 0 < interval) (h : Walk interval start stops next) (hs : s ∈ stops) :
    s.point ≤ s.time ∧ s.time < s.point + interval ∧ s.time < next := by
  induction stops generalizing start with
  | nil => cases hs
  | cons u rest ih =>
      have hrest := h.2.start_le hpos
      rcases List.mem_cons.mp hs with rfl | hs
      · have hreached := h.1.reached
        have hlatest := h.1.latest
        omega
      · exact ih h.2 hs

/-- What the walk has passed is taken by exactly one stop. -/
theorem once (hpos : 0 < interval) (h : Walk interval start stops next) {t : ℤ} (hstart : start ≤ t)
    (hnext : t < next) : ∃ past s rest, stops = past ++ s :: rest ∧ s.Takes interval t ∧
      ∀ s' ∈ past ++ rest, ¬ s'.Takes interval t := by
  induction stops generalizing start with
  | nil =>
      obtain rfl : next = start := h
      omega
  | cons u rest ih =>
      have hserves := h.1.serves
      by_cases hu : t < u.point + interval
      · -- the first stop takes it, and the others begin behind it
        refine ⟨[], u, rest, rfl, ⟨by omega, hu⟩, ?_⟩
        intro s' hs' htakes
        have hwithin := h.2.takes_within hpos hs' htakes
        omega
      · obtain ⟨past, s, rest', rfl, htakes, hothers⟩ := ih h.2 (by omega)
        refine ⟨u :: past, s, rest', rfl, htakes, ?_⟩
        intro s' hs' htakes'
        rcases List.mem_cons.mp hs' with rfl | hs'
        · exact hu htakes'.2
        · exact hothers s' hs' htakes'

end Walk

end PlcnextIot.Arith
