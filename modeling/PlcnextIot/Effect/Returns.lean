/-
  PlcnextIot.Effect.Returns

  Computations that return: total correctness for `Except`.

  `Returns x P` says that `x` returns a value with `P`.  Its rules follow the
  computation: `pure`, `bind`, a loop over a list that collects results
  (`mapM`) or carries an accumulator (`foldlM`).  The inversions at the end
  take a computation that is known to have returned apart again.
-/

import Mathlib.Data.List.Basic

namespace PlcnextIot.Effect

variable {ε α β : Type}

/-- The computation returns a value with `P`. -/
def Returns (x : Except ε α) (P : α → Prop) : Prop := ∃ a, x = .ok a ∧ P a

theorem Returns.ok {a : α} {P : α → Prop} (h : P a) : Returns (.ok a : Except ε α) P :=
  ⟨a, rfl, h⟩

theorem Returns.pure {a : α} {P : α → Prop} (h : P a) : Returns (pure a : Except ε α) P :=
  ⟨a, rfl, h⟩

theorem Returns.mono {x : Except ε α} {P Q : α → Prop} (h : Returns x P) (hPQ : ∀ a, P a → Q a) :
    Returns x Q := by
  obtain ⟨a, hx, ha⟩ := h
  exact ⟨a, hx, hPQ a ha⟩

theorem Returns.total {x : Except ε α} {P : α → Prop} (h : Returns x P) :
    Returns x fun _ => True := h.mono fun _ _ => trivial

theorem Returns.bind {x : Except ε α} {f : α → Except ε β} {P : α → Prop} {Q : β → Prop}
    (hx : Returns x P) (hf : ∀ a, P a → Returns (f a) Q) : Returns (x >>= f) Q := by
  obtain ⟨a, rfl, ha⟩ := hx
  exact hf a ha

theorem Returns.mapM {xs : List α} {f : α → Except ε β} {P : β → Prop}
    (h : ∀ a ∈ xs, Returns (f a) P) : Returns (xs.mapM f) fun ys => ∀ y ∈ ys, P y := by
  induction xs with
  | nil => exact .pure (by simp)
  | cons a rest ih =>
      rw [List.mapM_cons]
      refine (h a List.mem_cons_self).bind fun b hb => ?_
      refine (ih fun c hc => h c (List.mem_cons_of_mem a hc)).bind fun ys hys => ?_
      refine .pure fun y hy => ?_
      rcases List.mem_cons.mp hy with rfl | hy
      · exact hb
      · exact hys y hy

theorem Returns.foldlM {xs : List α} {f : β → α → Except ε β} {P : β → Prop}
    (h : ∀ b, P b → ∀ a ∈ xs, Returns (f b a) P) {b : β} (hb : P b) :
    Returns (xs.foldlM f b) P := by
  induction xs generalizing b with
  | nil => exact .pure hb
  | cons a rest ih =>
      rw [List.foldlM_cons]
      refine (h b hb a List.mem_cons_self).bind fun b' hb' => ?_
      exact ih (fun c hc d hd => h c hc d (List.mem_cons_of_mem a hd)) hb'

/-! ## Inversion -/

theorem bind_eq_ok {x : Except ε α} {f : α → Except ε β} {b : β} (h : x >>= f = .ok b) :
    ∃ a, x = .ok a ∧ f a = .ok b := by
  cases x with
  | error e => cases h
  | ok a => exact ⟨a, rfl, h⟩

theorem bind_eq_error {x : Except ε α} {f : α → Except ε β} {e : ε} (h : x >>= f = .error e) :
    x = .error e ∨ ∃ a, x = .ok a ∧ f a = .error e := by
  cases x with
  | error e' =>
      cases h
      exact .inl rfl
  | ok a => exact .inr ⟨a, rfl, h⟩

/-- What a loop that returned collected: one result for each element. -/
theorem mapM_eq_ok {xs : List α} {f : α → Except ε β} {ys : List β} (h : xs.mapM f = .ok ys) :
    List.Forall₂ (fun a b => f a = .ok b) xs ys := by
  induction xs generalizing ys with
  | nil =>
      cases h
      exact .nil
  | cons a rest ih =>
      rw [List.mapM_cons] at h
      obtain ⟨b, hb, h⟩ := bind_eq_ok h
      obtain ⟨bs, hbs, h⟩ := bind_eq_ok h
      cases h
      exact .cons hb (ih hbs)

/-- Every element of a loop that returned has its result. -/
theorem mapM_result {xs : List α} {f : α → Except ε β} {ys : List β} (h : xs.mapM f = .ok ys)
    {a : α} (ha : a ∈ xs) : ∃ b ∈ ys, f a = .ok b := by
  have hall := mapM_eq_ok h
  clear h
  induction hall with
  | nil => cases ha
  | cons hab _ ih =>
      rcases List.mem_cons.mp ha with rfl | ha
      · exact ⟨_, List.mem_cons_self, hab⟩
      · obtain ⟨b, hb, hf⟩ := ih ha
        exact ⟨b, List.mem_cons_of_mem _ hb, hf⟩

/-- Every result of a loop that returned comes from an element. -/
theorem mapM_source {xs : List α} {f : α → Except ε β} {ys : List β} (h : xs.mapM f = .ok ys)
    {b : β} (hb : b ∈ ys) : ∃ a ∈ xs, f a = .ok b := by
  have hall := mapM_eq_ok h
  clear h
  induction hall with
  | nil => cases hb
  | cons hab _ ih =>
      rcases List.mem_cons.mp hb with rfl | hb
      · exact ⟨_, List.mem_cons_self, hab⟩
      · obtain ⟨a, ha, hf⟩ := ih hb
        exact ⟨a, List.mem_cons_of_mem _ ha, hf⟩

/-- A function that returns everywhere. -/
theorem mapM_eq_map {xs : List α} {f : α → Except ε β} {g : α → β} (h : ∀ a ∈ xs, f a = .ok (g a)) :
    xs.mapM f = .ok (xs.map g) := by
  induction xs with
  | nil => rfl
  | cons a rest ih =>
      rw [List.mapM_cons, h a (.head _), ih fun b hb => h b (.tail _ hb)]
      rfl

/-- A loop returns when each of its steps does. -/
theorem mapM_returns_iff {xs : List α} {f : α → Except ε β} :
    (∃ ys, xs.mapM f = .ok ys) ↔ ∀ a ∈ xs, ∃ b, f a = .ok b := by
  constructor
  · rintro ⟨ys, h⟩ a ha
    obtain ⟨b, -, hb⟩ := mapM_result h ha
    exact ⟨b, hb⟩
  · intro h
    obtain ⟨ys, hys, -⟩ := Returns.mapM (P := fun _ => True) fun a ha => by
      obtain ⟨b, hb⟩ := h a ha
      exact ⟨b, hb, trivial⟩
    exact ⟨ys, hys⟩

/-- What every step of a loop that returned keeps holds of its result. -/
theorem foldlM_eq_ok {xs : List α} {f : β → α → Except ε β} {P : β → Prop}
    (hstep : ∀ b, P b → ∀ a ∈ xs, ∀ b', f b a = .ok b' → P b') {b b' : β} (hb : P b)
    (h : xs.foldlM f b = .ok b') : P b' := by
  induction xs generalizing b with
  | nil =>
      cases h
      exact hb
  | cons a rest ih =>
      rw [List.foldlM_cons] at h
      obtain ⟨c, hc, h⟩ := bind_eq_ok h
      have hPc : P c := hstep b hb a List.mem_cons_self c hc
      exact ih (fun b hb a ha => hstep b hb a (List.mem_cons_of_mem _ ha)) hPc h

/-- A loop that raised raised in one of its steps. -/
theorem foldlM_eq_error {xs : List α} {f : β → α → Except ε β} {b : β} {e : ε}
    (h : xs.foldlM f b = .error e) : ∃ b', ∃ a ∈ xs, f b' a = .error e := by
  induction xs generalizing b with
  | nil => cases h
  | cons a rest ih =>
      rw [List.foldlM_cons] at h
      rcases bind_eq_error h with h | ⟨c, _, h⟩
      · exact ⟨b, a, List.mem_cons_self, h⟩
      · obtain ⟨b', a', ha', h'⟩ := ih h
        exact ⟨b', a', List.mem_cons_of_mem _ ha', h'⟩

end PlcnextIot.Effect
