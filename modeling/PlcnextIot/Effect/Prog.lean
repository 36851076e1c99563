/-
  PlcnextIot.Effect.Prog

  Stateful programs that may raise, and their weakest preconditions.

  `Prog σ ε α` is a computation over a state `σ` that returns an `α` or raises
  an `ε`.  As in an imperative language with exceptions, a raise does not undo
  the assignments made before it: the state reached is part of both outcomes.

  `wp x Q E s` says that `x`, started in `s`, ends in `Q` when it returns and
  in `E` when it raises.  The rules below turn `wp` of a compound program into
  `wp` of its parts; they are `simp` lemmas, so straight-line code reduces to a
  formula about its assignments.  Two derived judgements carry whole-program
  facts through calls and loops:

    * `Keeps I x`: `x` re-establishes the invariant `I` on every outcome.
    * `Moves R x`: every outcome of `x` is `R`-related to the state it began in
      (`R` reflexive and transitive makes this compositional).
-/

import Mathlib.Data.Int.ConditionallyCompleteOrder
import Mathlib.Logic.Relation

namespace PlcnextIot.Effect

/-- A program over state `σ` that returns `α` or raises `ε`. -/
def Prog (σ ε α : Type) : Type := σ → Except ε α × σ

namespace Prog

variable {σ τ ε α β : Type}

/-- Run a program from a state. -/
def run (x : Prog σ ε α) (s : σ) : Except ε α × σ := x s

/-- Sequencing: a raise skips the continuation. -/
protected def bind (x : Prog σ ε α) (f : α → Prog σ ε β) : Prog σ ε β := fun s =>
  match x s with
  | (.ok a, s') => f a s'
  | (.error e, s') => (.error e, s')

instance : Monad (Prog σ ε) where
  pure a := fun s => (.ok a, s)
  bind := Prog.bind

/-- The current state. -/
def get : Prog σ ε σ := fun s => (.ok s, s)

/-- Update the state. -/
def modify (f : σ → σ) : Prog σ ε Unit := fun s => (.ok (), f s)

/-- Read a value off the state. -/
def gets (f : σ → α) : Prog σ ε α := fun s => (.ok (f s), s)

/-- Raise. -/
def raise (e : ε) : Prog σ ε α := fun s => (.error e, s)

/-- `try x except: handler`. -/
def attempt (x : Prog σ ε α) (handler : ε → Prog σ ε α) : Prog σ ε α := fun s =>
  match x s with
  | (.ok a, s') => (.ok a, s')
  | (.error e, s') => handler e s'

/-- Run a program and look at how it ended. -/
def tried {δ : Type} (x : Prog σ ε α) : Prog σ δ (Except ε α) := fun s => (.ok (x s).1, (x s).2)

/-- `try x finally: f`, for a clean-up that is an assignment. -/
def cleanup (x : Prog σ ε α) (f : σ → σ) : Prog σ ε α := fun s => ((x s).1, f (x s).2)

/-- Raise unless a condition holds. -/
def check (c : Prop) [Decidable c] (e : ε) : Prog σ ε Unit :=
  if c then pure () else raise e

/-- A computation without state. -/
def result : Except ε α → Prog σ ε α
  | .ok a => pure a
  | .error e => raise e

/-- Run a program on a part of a larger state. -/
def zoom (getter : τ → σ) (setter : τ → σ → τ) (x : Prog σ ε α) : Prog τ ε α := fun t =>
  ((x (getter t)).1, setter t (x (getter t)).2)

/-- Run the body for every element of a list, from left to right. -/
def each : List α → (α → Prog σ ε Unit) → Prog σ ε Unit
  | [], _ => pure ()
  | a :: rest, body => do body a; each rest body

end Prog

open Prog

variable {σ τ ε α β : Type}

/-! ## Weakest preconditions -/

/-- `x` started in `s` returns into `Q` or raises into `E`. -/
def wp (x : Prog σ ε α) (Q : α → σ → Prop) (E : ε → σ → Prop) (s : σ) : Prop :=
  match x s with
  | (.ok a, s') => Q a s'
  | (.error e, s') => E e s'

section Rules

variable {Q : α → σ → Prop} {E : ε → σ → Prop} {s : σ}

@[simp] theorem wp_pure (a : α) : wp (pure a : Prog σ ε α) Q E s ↔ Q a s := Iff.rfl

@[simp] theorem wp_get {Q : σ → σ → Prop} : wp (get : Prog σ ε σ) Q E s ↔ Q s s := Iff.rfl

@[simp] theorem wp_gets (f : σ → α) : wp (gets f : Prog σ ε α) Q E s ↔ Q (f s) s := Iff.rfl

@[simp] theorem wp_modify (f : σ → σ) {Q : Unit → σ → Prop} :
    wp (modify f : Prog σ ε Unit) Q E s ↔ Q () (f s) := Iff.rfl

@[simp] theorem wp_raise (e : ε) : wp (raise e : Prog σ ε α) Q E s ↔ E e s := Iff.rfl

@[simp] theorem wp_bind (x : Prog σ ε α) (f : α → Prog σ ε β) {Q : β → σ → Prop} :
    wp (x >>= f) Q E s ↔ wp x (fun a s' => wp (f a) Q E s') E s := by
  show wp (Prog.bind x f) Q E s ↔ _
  unfold wp Prog.bind
  rcases x s with ⟨r, s'⟩
  cases r <;> rfl

@[simp] theorem wp_attempt (x : Prog σ ε α) (handler : ε → Prog σ ε α) :
    wp (attempt x handler) Q E s ↔ wp x Q (fun e s' => wp (handler e) Q E s') s := by
  unfold wp attempt
  rcases x s with ⟨r, s'⟩
  cases r <;> rfl

@[simp] theorem wp_tried {δ : Type} (x : Prog σ ε α) {Q : Except ε α → σ → Prop} {D : δ → σ → Prop} :
    wp (tried x) Q D s ↔ wp x (fun a s' => Q (.ok a) s') (fun e s' => Q (.error e) s') s := by
  unfold wp tried
  rcases x s with ⟨r, s'⟩
  cases r <;> rfl

@[simp] theorem wp_cleanup (x : Prog σ ε α) (f : σ → σ) :
    wp (cleanup x f) Q E s ↔ wp x (fun a s' => Q a (f s')) (fun e s' => E e (f s')) s := by
  unfold wp cleanup
  rcases x s with ⟨r, s'⟩
  cases r <;> rfl

@[simp] theorem wp_check (c : Prop) [Decidable c] (e : ε) {Q : Unit → σ → Prop} :
    wp (check c e : Prog σ ε Unit) Q E s ↔ (c → Q () s) ∧ (¬ c → E e s) := by
  unfold check
  split <;> simp [*]

@[simp] theorem wp_result_ok (a : α) :
    wp (result (.ok a : Except ε α)) Q E s ↔ Q a s := Iff.rfl

@[simp] theorem wp_result_error (e : ε) :
    wp (result (.error e : Except ε α)) Q E s ↔ E e s := Iff.rfl

theorem wp_result (x : Except ε α) :
    wp (result x) Q E s ↔ (∀ a, x = .ok a → Q a s) ∧ (∀ e, x = .error e → E e s) := by
  cases x with
  | ok a => simp [result]
  | error e => simp [result]

@[simp] theorem wp_zoom (getter : τ → σ) (setter : τ → σ → τ) (x : Prog σ ε α)
    {Q : α → τ → Prop} {E : ε → τ → Prop} {t : τ} :
    wp (zoom getter setter x) Q E t ↔
      wp x (fun a s' => Q a (setter t s')) (fun e s' => E e (setter t s')) (getter t) := by
  unfold wp zoom
  rcases x (getter t) with ⟨r, s'⟩
  cases r <;> rfl

theorem wp_ite (c : Prop) [Decidable c] (x y : Prog σ ε α) :
    wp (if c then x else y) Q E s ↔ (c → wp x Q E s) ∧ (¬ c → wp y Q E s) := by
  split <;> simp [*]

/-- A program's own outcome satisfies its `wp` for the strongest postcondition. -/
theorem wp_iff_run (x : Prog σ ε α) :
    wp x Q E s ↔
      (∀ a s', x.run s = (.ok a, s') → Q a s') ∧ (∀ e s', x.run s = (.error e, s') → E e s') := by
  unfold wp Prog.run
  rcases x s with ⟨r, s'⟩
  cases r <;> simp

/-- The rule of consequence. -/
theorem wp.mono {x : Prog σ ε α} {Q' : α → σ → Prop} {E' : ε → σ → Prop} (h : wp x Q E s)
    (hQ : ∀ a s', Q a s' → Q' a s') (hE : ∀ e s', E e s' → E' e s') : wp x Q' E' s := by
  rw [wp_iff_run] at h ⊢
  exact ⟨fun a s' hr => hQ a s' (h.1 a s' hr), fun e s' hr => hE e s' (h.2 e s' hr)⟩

/-- What every state satisfies, every outcome satisfies. -/
theorem wp_of_forall {x : Prog σ ε α} (hQ : ∀ a s', Q a s') (hE : ∀ e s', E e s') : wp x Q E s :=
  (wp_iff_run x).mpr ⟨fun a s' _ => hQ a s', fun e s' _ => hE e s'⟩

/-- Two specifications of one run hold together. -/
theorem wp.and {x : Prog σ ε α} {Q' : α → σ → Prop} {E' : ε → σ → Prop} (h : wp x Q E s)
    (h' : wp x Q' E' s) :
    wp x (fun a s' => Q a s' ∧ Q' a s') (fun e s' => E e s' ∧ E' e s') s := by
  rw [wp_iff_run] at *
  exact ⟨fun a s' hr => ⟨h.1 a s' hr, h'.1 a s' hr⟩, fun e s' hr => ⟨h.2 e s' hr, h'.2 e s' hr⟩⟩

/-- What a specification says about a run that returned. -/
theorem wp.of_ok {x : Prog σ ε α} {a : α} {s' : σ} (h : wp x Q E s)
    (hr : x.run s = (.ok a, s')) : Q a s' :=
  ((wp_iff_run x).mp h).1 a s' hr

/-- What a specification says about a run that raised. -/
theorem wp.of_error {x : Prog σ ε α} {e : ε} {s' : σ} (h : wp x Q E s)
    (hr : x.run s = (.error e, s')) : E e s' :=
  ((wp_iff_run x).mp h).2 e s' hr

/-- A specification may name the run it is about. -/
theorem wp.run {x : Prog σ ε α} (h : wp x Q E s) :
    wp x (fun a s' => Q a s' ∧ x.run s = (.ok a, s')) (fun e s' => E e s' ∧ x.run s = (.error e, s'))
      s := by
  rw [wp_iff_run] at h ⊢
  exact ⟨fun a s' hr => ⟨h.1 a s' hr, hr⟩, fun e s' hr => ⟨h.2 e s' hr, hr⟩⟩

/-- A property of the final state that both outcomes guarantee holds of it. -/
theorem wp.final {x : Prog σ ε α} {P : σ → Prop} (h : wp x (fun _ => P) (fun _ => P) s) :
    P (x.run s).2 := by
  unfold wp at h
  unfold Prog.run
  rcases hx : x s with ⟨r, s'⟩
  rw [hx] at h
  cases r <;> exact h

end Rules

/-! ## Invariants -/

/-- `x` re-establishes `I` on every outcome. -/
def Keeps (I : σ → Prop) (x : Prog σ ε α) : Prop :=
  ∀ s, I s → wp x (fun _ => I) (fun _ => I) s

/-- Every outcome of `x` is `R`-related to the state it started in. -/
def Moves (R : σ → σ → Prop) (x : Prog σ ε α) : Prop :=
  ∀ s, wp x (fun _ => R s) (fun _ => R s) s

section Invariants

variable {I : σ → Prop} {R : σ → σ → Prop}

theorem Keeps.pure (a : α) : Keeps I (pure a : Prog σ ε α) := fun _ h => h

theorem Keeps.raise (e : ε) : Keeps I (Prog.raise e : Prog σ ε α) := fun _ h => h

theorem Keeps.bind {x : Prog σ ε α} {f : α → Prog σ ε β} (hx : Keeps I x)
    (hf : ∀ a, Keeps I (f a)) : Keeps I (x >>= f) := by
  intro s hs
  rw [wp_bind]
  exact (hx s hs).mono (fun a s' h => hf a s' h) (fun _ _ h => h)

theorem Keeps.each {xs : List α} {body : α → Prog σ ε Unit}
    (h : ∀ a ∈ xs, Keeps I (body a)) : Keeps I (Prog.each xs body) := by
  induction xs with
  | nil => exact Keeps.pure ()
  | cons a rest ih =>
      exact Keeps.bind (h a List.mem_cons_self)
        fun _ => ih fun b hb => h b (List.mem_cons_of_mem a hb)

theorem Keeps.final {x : Prog σ ε α} (hx : Keeps I x) {s : σ} (hs : I s) : I (x.run s).2 :=
  (hx s hs).final

theorem Moves.pure (hr : ∀ s, R s s) (a : α) : Moves R (pure a : Prog σ ε α) := fun s => hr s

theorem Moves.bind {x : Prog σ ε α} {f : α → Prog σ ε β}
    (ht : ∀ a b c, R a b → R b c → R a c) (hx : Moves R x) (hf : ∀ a, Moves R (f a)) :
    Moves R (x >>= f) := by
  intro s
  rw [wp_bind]
  refine (hx s).mono (fun a s' h => ?_) (fun _ _ h => h)
  exact (hf a s').mono (fun _ _ h' => ht _ _ _ h h') (fun _ _ h' => ht _ _ _ h h')

theorem Moves.each {xs : List α} {body : α → Prog σ ε Unit} (hr : ∀ s, R s s)
    (ht : ∀ a b c, R a b → R b c → R a c) (h : ∀ a ∈ xs, Moves R (body a)) :
    Moves R (Prog.each xs body) := by
  induction xs with
  | nil => exact Moves.pure hr ()
  | cons a rest ih =>
      exact Moves.bind ht (h a List.mem_cons_self)
        fun _ => ih fun b hb => h b (List.mem_cons_of_mem a hb)

end Invariants

/-- The loop rule: an invariant that each iteration keeps holds when the loop
    ends; an iteration that raises ends the loop in `E`. -/
theorem wp_each {I : σ → Prop} {E : ε → σ → Prop} {xs : List α} {body : α → Prog σ ε Unit}
    (hbody : ∀ a ∈ xs, ∀ s, I s → wp (body a) (fun _ => I) E s) {s : σ} (hs : I s) :
    wp (each xs body) (fun _ => I) E s := by
  induction xs generalizing s with
  | nil => exact hs
  | cons a rest ih =>
      rw [each, wp_bind]
      refine (hbody a List.mem_cons_self s hs).mono (fun _ s' h => ?_) (fun _ _ h => h)
      exact ih (fun b hb => hbody b (List.mem_cons_of_mem a hb)) h

/-- The loop rule with the elements done so far. -/
theorem wp_each_done {I : List α → σ → Prop} {E : ε → σ → Prop} {xs : List α}
    {body : α → Prog σ ε Unit}
    (hbody : ∀ done a rest, xs = done ++ a :: rest → ∀ s, I done s →
      wp (body a) (fun _ => I (done ++ [a])) E s) {s : σ} (hs : I [] s) :
    wp (each xs body) (fun _ => I xs) E s := by
  induction xs generalizing s I with
  | nil => exact hs
  | cons a rest ih =>
      rw [each, wp_bind]
      refine (hbody [] a rest rfl s hs).mono (fun _ s' h => ?_) (fun _ _ h => h)
      refine (ih (I := fun done => I (a :: done)) ?_ h)
      intro done b rest' hrest s'' h'
      exact hbody (a :: done) b rest' (by rw [hrest]; rfl) s'' h'

end PlcnextIot.Effect
