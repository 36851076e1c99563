/-
  PlcnextIot.Effect.Spacing

  Rate limits: sequences of times in which entries that lie `k` places apart lie
  `d` apart.

  `Spaced k d ts` is the form in which a limiter keeps a limit, one entry at a
  time; `Spaced.window` is what it promises, that no half-open window of length
  `d` holds more than `k` entries.
-/

import Mathlib.Data.List.Basic
import Mathlib.Algebra.Order.Monoid.Unbundled.Basic
import Mathlib.Order.Basic

namespace PlcnextIot.Effect

/-- Entries with at least `k - 1` others between them are at least `d` apart. -/
def Spaced {τ : Type} [Add τ] [LE τ] (k : ℕ) (d : τ) (ts : List τ) : Prop :=
  ∀ pre x mid y post, ts = pre ++ x :: mid ++ y :: post → k ≤ mid.length + 1 → x + d ≤ y

section Ends

variable {α : Type} {p : α → Bool} {l : List α}

/-- The first member with a property. -/
theorem exists_first (h : 0 < l.countP p) :
    ∃ pre x rest, l = pre ++ x :: rest ∧ p x = true ∧ l.countP p = rest.countP p + 1 := by
  induction l with
  | nil => cases h
  | cons x rest ih =>
      cases hx : p x with
      | true => exact ⟨[], x, rest, rfl, hx, List.countP_cons_of_pos hx⟩
      | false =>
          rw [List.countP_cons_of_neg (by simp [hx])] at h
          obtain ⟨pre, y, post, rfl, hy, hcount⟩ := ih h
          refine ⟨x :: pre, y, post, rfl, hy, ?_⟩
          rw [List.countP_cons_of_neg (by simp [hx]), hcount]

/-- The last member with a property. -/
theorem exists_last (h : 0 < l.countP p) :
    ∃ mid y post, l = mid ++ y :: post ∧ p y = true ∧ l.countP p = mid.countP p + 1 := by
  rw [← List.countP_reverse] at h
  obtain ⟨post, y, mid, hsplit, hy, hcount⟩ := exists_first h
  refine ⟨mid.reverse, y, post.reverse, ?_, hy, ?_⟩
  · rw [← List.reverse_reverse l, hsplit]
    simp
  · rw [← List.countP_reverse, hcount, List.countP_reverse]

end Ends

namespace Spaced

variable {τ : Type} {k : ℕ} {d t : τ} {ts : List τ}

section Limiter

variable [Add τ] [LE τ]

theorem nil : Spaced k d [] := by
  intro pre x mid y post h
  simp at h

/-- One more time, at least `d` after every one that lies `k` places before it. -/
theorem snoc (h : Spaced k d ts)
    (hlast : ∀ pre x mid, ts = pre ++ x :: mid → k ≤ mid.length + 1 → x + d ≤ t) :
    Spaced k d (ts ++ [t]) := by
  intro pre x mid y post heq hk
  rcases List.eq_nil_or_concat' post with rfl | ⟨post', z, rfl⟩
  · obtain ⟨hts, hy⟩ := List.append_inj' heq rfl
    cases hy
    exact hlast pre x mid hts hk
  · refine h pre x mid y post' ?_ hk
    have heq' : ts ++ [t] = (pre ++ x :: mid ++ y :: post') ++ [z] := by
      rw [heq]
      simp
    exact (List.append_inj' heq' rfl).1

/-- A limiter that knows the times that may still count: all of them but some
    that are `d` old. -/
theorem snoc_recent (h : Spaced k d ts) {old recent : List τ} (hts : ts = old ++ recent)
    (hold : ∀ x ∈ old, x + d ≤ t) (hfree : recent.length < k) : Spaced k d (ts ++ [t]) := by
  refine h.snoc fun pre x mid hsplit hk => hold x ?_
  -- What follows `x` is at least as long as the recent times, so `x` is not one of them.
  have hlen : old.length + recent.length = pre.length + (mid.length + 1) := by
    have := congrArg List.length (hts.symm.trans hsplit)
    simpa using this
  have hlt : pre.length < old.length := by omega
  have hx : old[pre.length]? = some x := by
    rw [← List.getElem?_append_left hlt, ← hts, hsplit]
    simp
  exact List.mem_of_getElem? hx

end Limiter

/-- At most `k` of the times lie in a half-open window of length `d`. -/
theorem window [Add τ] [LinearOrder τ] [AddRightMono τ] (h : Spaced k d ts) (hk : 0 < k) (a : τ) :
    ts.countP (fun t => a ≤ t ∧ t < a + d) ≤ k := by
  by_contra hmany
  rw [not_le] at hmany
  -- The first and the last time in the window are too close.
  obtain ⟨pre, x, rest, rfl, hx, hrest⟩ := exists_first (Nat.zero_lt_of_lt hmany)
  have hcount : k ≤ rest.countP fun t => a ≤ t ∧ t < a + d := by omega
  obtain ⟨mid, y, post, rfl, hy, hmid⟩ := exists_last (hk.trans_le hcount)
  have hlen := List.countP_le_length (p := fun t => decide (a ≤ t ∧ t < a + d)) (l := mid)
  have hgap := h pre x mid y post (by simp) (by omega)
  obtain ⟨hlow, -⟩ := of_decide_eq_true hx
  obtain ⟨-, hhigh⟩ := of_decide_eq_true hy
  have hwindow : a + d ≤ x + d := by gcongr
  exact absurd hhigh (not_lt.mpr (hwindow.trans hgap))

/-- Neighbours are `d` apart. -/
theorem isChain [Add τ] [LE τ] (h : Spaced 1 d ts) : ts.IsChain fun x y => x + d ≤ y := by
  induction ts with
  | nil => exact .nil
  | cons x rest ih =>
      have htail : Spaced 1 d rest := fun pre x' mid y post heq =>
        h (x :: pre) x' mid y post (by rw [heq]; rfl)
      cases rest with
      | nil => exact .singleton x
      | cons y rest => exact .cons_cons (h [] x [] y rest rfl (by simp)) (ih htail)

end Spaced

end PlcnextIot.Effect
