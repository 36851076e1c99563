/-
  PlcnextIot.Core.Estimate

  Estimates of a quantity that advances at a bounded rate.

  `U t` is the quantity at local time `t`; `Drifts U r` says that over any
  interval it advances by the length of the interval, within `r` of it.  An
  estimate made at one time is extrapolated to a later one at the cost of the
  drift in between.  Nothing here is about a particular clock.
-/

import Mathlib.Algebra.Order.Field.Basic
import Mathlib.Tactic.Linarith
import Mathlib.Tactic.Ring

namespace PlcnextIot.Core

variable {K : Type} [Field K] [LinearOrder K] [IsStrictOrderedRing K]

/-- Over any interval `U` advances by its length, within the rate `r`. -/
def Drifts (U : ℤ → K) (r : K) : Prop :=
  ∀ a b : ℤ, a ≤ b → |U b - U a - (b - a)| ≤ (b - a) * r

/-- At time `t`, `U` lies within `e` of `x`. -/
def Estimates (U : ℤ → K) (t : ℤ) (x e : K) : Prop := |U t - x| ≤ e

/-- What is asked of a notion of estimate `E t x e` ("at time `t`, `x` is good
    within `e`"): bounds may be weakened, and estimates extrapolated. -/
structure Extrapolates (E : ℤ → K → K → Prop) (r : K) : Prop where
  weaken : ∀ {t : ℤ} {x e e' : K}, E t x e → e ≤ e' → E t x e'
  extrapolate : ∀ {t t' : ℤ} {x e : K}, E t x e → t ≤ t' →
    E t' (x + (t' - t)) (e + (t' - t) * r)

variable {U : ℤ → K} {r x e : K} {t : ℤ}

omit [IsStrictOrderedRing K] in
/-- The trivial notion of estimate. -/
theorem extrapolates_true : Extrapolates (fun (_ : ℤ) (_ _ : K) => True) r :=
  ⟨fun _ _ => trivial, fun _ _ => trivial⟩

omit [IsStrictOrderedRing K] in
theorem Estimates.weaken {e' : K} (h : Estimates U t x e) (he : e ≤ e') : Estimates U t x e' :=
  le_trans h he

/-- Reporting `y` instead of `x` costs the distance between them. -/
theorem Estimates.report {y : K} (h : Estimates U t x e) : Estimates U t y (e + |x - y|) := by
  have hsplit : U t - y = (U t - x) + (x - y) := by ring
  unfold Estimates at *
  rw [hsplit]
  exact le_trans (abs_add_le _ _) (by linarith)

/-- An estimate, extrapolated to a later time. -/
theorem Estimates.extrapolate {t' : ℤ} (hU : Drifts U r) (h : Estimates U t x e) (ht : t ≤ t') :
    Estimates U t' (x + (t' - t)) (e + (t' - t) * r) := by
  have hsplit : U t' - (x + (t' - t)) = (U t - x) + (U t' - U t - (t' - t)) := by ring
  unfold Estimates at *
  rw [hsplit]
  exact le_trans (abs_add_le _ _) (add_le_add h (hU t t' ht))

theorem Drifts.extrapolates (hU : Drifts U r) : Extrapolates (Estimates U) r :=
  ⟨fun h he => h.weaken he, fun h ht => h.extrapolate hU ht⟩

/-- A quantity known to lie in an interval is estimated by its midpoint. -/
theorem estimates_midpoint {lo w s : K} (hlo : lo - s ≤ U t) (hhi : U t ≤ lo + w + s) :
    Estimates U t (lo + w / 2) (w / 2 + s) := by
  unfold Estimates
  rw [abs_le]
  constructor <;> linarith

end PlcnextIot.Core
