/-
  PlcnextIot.Effect.Steps

  Programs that move by atomic steps.

  `R` says what one atomic step may do to the state.  `Goes R x Q s` says that
  `x`, started in `s`, only makes such steps, on every outcome, and returns into
  `Q`.  A fact that every step keeps is then kept by the program, wherever it
  stops; what the steps are is said once, and each invariant is a case analysis
  on `R`.
-/

import PlcnextIot.Effect.Run

namespace PlcnextIot.Effect

open Prog Relation

variable {σ ε α β : Type} {R : σ → σ → Prop}

/-- `x` moves by steps of `R`, and returns into `Q`. -/
def Goes (R : σ → σ → Prop) (x : Prog σ ε α) (Q : α → σ → Prop) (s : σ) : Prop :=
  wp x (fun a s' => ReflTransGen R s s' ∧ Q a s') (fun _ s' => ReflTransGen R s s') s

namespace Goes

variable {Q : α → σ → Prop} {s : σ}

theorem pure {a : α} (h : Q a s) : Goes R (Pure.pure a : Prog σ ε α) Q s := ⟨.refl, h⟩

theorem raise (e : ε) : Goes R (Prog.raise e : Prog σ ε α) Q s := .refl

theorem get {Q : σ → σ → Prop} (h : Q s s) : Goes R (Prog.get : Prog σ ε σ) Q s := ⟨.refl, h⟩

theorem gets {f : σ → α} (h : Q (f s) s) : Goes R (Prog.gets f : Prog σ ε α) Q s := ⟨.refl, h⟩

theorem modify {f : σ → σ} {Q : Unit → σ → Prop} (h : R s (f s)) (hQ : Q () (f s)) :
    Goes R (Prog.modify f : Prog σ ε Unit) Q s := ⟨.single h, hQ⟩

theorem result {x : Except ε α} (h : ∀ a, x = .ok a → Q a s) :
    Goes R (Prog.result x) Q s := by
  cases x with
  | ok a => exact pure (h a rfl)
  | error e => exact raise e

theorem check {c : Prop} [Decidable c] {e : ε} {Q : Unit → σ → Prop} (h : c → Q () s) :
    Goes R (Prog.check c e : Prog σ ε Unit) Q s := by
  unfold Prog.check
  split
  · rename_i hc
    exact pure (h hc)
  · exact raise e

theorem mono {x : Prog σ ε α} {Q' : α → σ → Prop} (h : Goes R x Q s)
    (hQ : ∀ a s', ReflTransGen R s s' → Q a s' → Q' a s') : Goes R x Q' s :=
  wp.mono h (fun a s' h => ⟨h.1, hQ a s' h.1 h.2⟩) fun _ _ h => h

/-- What follows a program goes on from where it returned. -/
theorem bind {x : Prog σ ε α} {f : α → Prog σ ε β} {P : α → σ → Prop} {Q : β → σ → Prop}
    (hx : Goes R x P s) (hf : ∀ a s', ReflTransGen R s s' → P a s' → Goes R (f a) Q s') :
    Goes R (x >>= f) Q s := by
  rw [Goes, wp_bind]
  refine wp.mono hx (fun a s' h => ?_) fun _ _ h => h
  exact wp.mono (hf a s' h.1 h.2) (fun b s'' h' => ⟨h.1.trans h'.1, h'.2⟩)
    fun _ s'' h' => h.1.trans h'

/-- A program whose steps were taken before `s` was reached. -/
theorem from_path {x : Prog σ ε α} {s₀ : σ} (hpath : ReflTransGen R s₀ s) (h : Goes R x Q s) :
    wp x (fun a s' => ReflTransGen R s₀ s' ∧ Q a s') (fun _ s' => ReflTransGen R s₀ s') s :=
  wp.mono h (fun _ _ h => ⟨hpath.trans h.1, h.2⟩) fun _ _ h => hpath.trans h

theorem ite {c : Prop} [Decidable c] {x y : Prog σ ε α} (hx : c → Goes R x Q s)
    (hy : ¬ c → Goes R y Q s) : Goes R (if c then x else y) Q s := by
  split
  · rename_i hc
    exact hx hc
  · rename_i hc
    exact hy hc

/-- The handler goes on from where the raise left the state. -/
theorem attempt {x : Prog σ ε α} {handler : ε → Prog σ ε α} (hx : Goes R x Q s)
    (hh : ∀ e s', ReflTransGen R s s' → Goes R (handler e) Q s') :
    Goes R (Prog.attempt x handler) Q s := by
  rw [Goes, wp_attempt]
  exact wp.mono hx (fun _ _ h => h) fun e s' h => from_path h (hh e s' h)

/-- The loop rule, with what is left to do. -/
theorem each {I : List α → σ → Prop} {body : α → Prog σ ε Unit}
    (hbody : ∀ a rest s, I (a :: rest) s → Goes R (body a) (fun _ => I rest) s) {xs : List α}
    (hs : I xs s) : Goes R (Prog.each xs body) (fun _ => I []) s := by
  induction xs generalizing s with
  | nil => exact pure hs
  | cons a rest ih => exact bind (hbody a rest s hs) fun _ s' _ h => ih h

/-- Where a program that moves by steps stops, steps lead. -/
theorem path {x : Prog σ ε α} (h : Goes R x Q s) : ReflTransGen R s (x.run s).2 :=
  (wp.mono h (fun _ _ h => h.1) fun _ _ h => h).final

end Goes

/-- Along a path, what every step keeps is kept. -/
theorem path_keeps {I : σ → Prop} (hstep : ∀ a b, R a b → I a → I b) {s s' : σ}
    (hpath : ReflTransGen R s s') (hs : I s) : I s' := by
  induction hpath with
  | refl => exact hs
  | tail _ hab ih => exact hstep _ _ hab ih

/-- What every step keeps, a program that moves by steps keeps. -/
theorem Goes.keeps {x : Prog σ ε α} {Q : α → σ → Prop} {I : σ → Prop} {s : σ} (h : Goes R x Q s)
    (hstep : ∀ a b, R a b → I a → I b) (hs : I s) : I (x.run s).2 :=
  path_keeps hstep h.path hs

section Calls

variable {κ δ γ : Type} {exec : κ → Prog σ δ γ} {S : κ → σ → σ → Prop}

/-- A run whose calls move by the steps of `S` keeps what these steps keep. -/
theorem runCalls_keeps {I : σ → Prop} {Q : γ → σ → Prop} (hexec : ∀ c s, Goes (S c) (exec c) Q s)
    {calls : List κ} (hstep : ∀ c ∈ calls, ∀ a b, S c a b → I a → I b) {s : σ} (hs : I s) :
    I (runCalls exec s calls) := by
  induction calls generalizing s with
  | nil => exact hs
  | cons c cs ih =>
      refine ih (fun c' hc' => hstep c' (List.mem_cons_of_mem _ hc')) ?_
      exact (hexec c s).keeps (hstep c List.mem_cons_self) hs

end Calls

end PlcnextIot.Effect
