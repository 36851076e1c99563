/-
  PlcnextIot.Effect.Run

  Runs of an object: a client calls it again and again, each call being a
  program over the object's state.  A call that raises ends with the state it
  reached, and the object lives on.

  `trace exec s calls` lists the steps of a run.  `trace_forall` is the
  induction every run theorem goes through: an invariant, a condition each step
  meets, and what a step then guarantees.
-/

import PlcnextIot.Effect.Prog
import Mathlib.Data.List.Induction
import Mathlib.Order.Basic

namespace PlcnextIot.Effect

variable {κ σ ε β : Type}

/-- One call, with the states around it. -/
structure Step (κ σ ε β : Type) where
  before : σ
  call : κ
  result : Except ε β
  after : σ

/-- Perform a call. -/
def perform (exec : κ → Prog σ ε β) (s : σ) (c : κ) : Step κ σ ε β :=
  ⟨s, c, ((exec c).run s).1, ((exec c).run s).2⟩

/-- The steps of a sequence of calls. -/
def trace (exec : κ → Prog σ ε β) : σ → List κ → List (Step κ σ ε β)
  | _, [] => []
  | s, c :: cs => perform exec s c :: trace exec (perform exec s c).after cs

/-- The state after a sequence of calls. -/
def runCalls (exec : κ → Prog σ ε β) : σ → List κ → σ
  | s, [] => s
  | s, c :: cs => runCalls exec (perform exec s c).after cs

variable {exec : κ → Prog σ ε β}

@[simp] theorem perform_before (s : σ) (c : κ) : (perform exec s c).before = s := rfl

@[simp] theorem perform_call (s : σ) (c : κ) : (perform exec s c).call = c := rfl

/-- A specification of the called program describes the step. -/
theorem perform_spec {s : σ} {c : κ} {Q : β → σ → Prop} {E : ε → σ → Prop}
    (h : wp (exec c) Q E s) :
    (∀ b, (perform exec s c).result = .ok b → Q b (perform exec s c).after) ∧
      (∀ e, (perform exec s c).result = .error e → E e (perform exec s c).after) := by
  constructor
  · intro b hb
    have hr : (exec c).run s = (.ok b, (perform exec s c).after) := Prod.ext hb rfl
    exact h.of_ok hr
  · intro e he
    have hr : (exec c).run s = (.error e, (perform exec s c).after) := Prod.ext he rfl
    exact h.of_error hr

/-- Induction over a run: `I` is kept by every step that meets `C`, and such a
    step guarantees `P`. -/
theorem trace_forall {I : σ → Prop} {C P : Step κ σ ε β → Prop}
    (hstep : ∀ s c, I s → C (perform exec s c) →
      P (perform exec s c) ∧ I (perform exec s c).after)
    {s : σ} {calls : List κ} (hs : I s) (hC : ∀ st ∈ trace exec s calls, C st) :
    ∀ st ∈ trace exec s calls, P st := by
  induction calls generalizing s with
  | nil => intro st hst; cases hst
  | cons c cs ih =>
      obtain ⟨hP, hI⟩ := hstep s c hs (hC _ List.mem_cons_self)
      intro st hst
      rcases List.mem_cons.mp hst with rfl | hst
      · exact hP
      · exact ih hI (fun st' h' => hC st' (List.mem_cons_of_mem _ h')) st hst

/-- An invariant that every call keeps holds at the end of every run. -/
theorem runCalls_invariant {I : σ → Prop} (hstep : ∀ c, Keeps I (exec c)) {s : σ}
    (hs : I s) (calls : List κ) : I (runCalls exec s calls) := by
  induction calls generalizing s with
  | nil => exact hs
  | cons c cs ih => exact ih ((hstep c).final hs)

/-! ## History -/

theorem trace_append (s : σ) (calls more : List κ) :
    trace exec s (calls ++ more) = trace exec s calls ++ trace exec (runCalls exec s calls) more := by
  induction calls generalizing s with
  | nil => rfl
  | cons c cs ih => rw [List.cons_append, trace, trace, ih, List.cons_append, runCalls]

theorem runCalls_append (s : σ) (calls more : List κ) :
    runCalls exec s (calls ++ more) = runCalls exec (runCalls exec s calls) more := by
  induction calls generalizing s with
  | nil => rfl
  | cons c cs ih => rw [List.cons_append, runCalls, runCalls, ih]

/-- Induction over a run that looks back: `I` relates the steps so far to the
    state they led to. -/
theorem trace_history {I : List (Step κ σ ε β) → σ → Prop} {s : σ} (h0 : I [] s)
    (hstep : ∀ past s' c, I past s' →
      I (past ++ [perform exec s' c]) (perform exec s' c).after) (calls : List κ) :
    I (trace exec s calls) (runCalls exec s calls) := by
  induction calls using List.reverseRecOn with
  | nil => exact h0
  | append_singleton cs c ih =>
      rw [trace_append, runCalls_append]
      exact hstep _ _ c ih

/-- A preorder that every step respects relates the ends of a run. -/
theorem runCalls_moves {R : σ → σ → Prop} {I : σ → Prop} (hrefl : ∀ s, R s s)
    (htrans : ∀ a b c, R a b → R b c → R a c)
    (hstep : ∀ s c, I s → R s (perform exec s c).after ∧ I (perform exec s c).after) {s : σ}
    (hs : I s) (calls : List κ) : R s (runCalls exec s calls) := by
  induction calls generalizing s with
  | nil => exact hrefl s
  | cons c cs ih =>
      obtain ⟨hmove, hnext⟩ := hstep s c hs
      exact htrans _ _ _ hmove (ih hnext)

/-- A part of a trace is the trace of a part of the calls. -/
theorem trace_eq_append {s : σ} {calls : List κ} {past rest : List (Step κ σ ε β)}
    (h : trace exec s calls = past ++ rest) :
    ∃ cs cs', calls = cs ++ cs' ∧ past = trace exec s cs ∧
      rest = trace exec (runCalls exec s cs) cs' := by
  induction past generalizing s calls with
  | nil => exact ⟨[], calls, rfl, rfl, h.symm⟩
  | cons st past ih =>
      cases calls with
      | nil => cases h
      | cons c calls =>
          rw [trace, List.cons_append] at h
          obtain ⟨rfl, hrest⟩ := List.cons.inj h
          obtain ⟨cs, cs', rfl, rfl, rfl⟩ := ih hrest
          exact ⟨c :: cs, cs', rfl, rfl, rfl⟩

/-- The first step of a trace is the first call. -/
theorem trace_eq_cons {s : σ} {calls : List κ} {st : Step κ σ ε β} {rest : List (Step κ σ ε β)}
    (h : trace exec s calls = st :: rest) :
    ∃ c cs, calls = c :: cs ∧ st = perform exec s c ∧
      rest = trace exec (perform exec s c).after cs := by
  cases calls with
  | nil => cases h
  | cons c cs =>
      obtain ⟨rfl, rfl⟩ := List.cons.inj h
      exact ⟨c, cs, rfl, rfl, rfl⟩

/-- A measure that no step lowers and that ends where it began never changes. -/
theorem trace_constant {π : Type} [PartialOrder π] {I : σ → Prop} {f : σ → π}
    (hstep : ∀ s c, I s → f s ≤ f (perform exec s c).after ∧ I (perform exec s c).after) {s : σ}
    (hs : I s) {calls : List κ} (hend : f (runCalls exec s calls) = f s) :
    ∀ st ∈ trace exec s calls, f st.before = f s ∧ f st.after = f s := by
  induction calls generalizing s with
  | nil => intro st hst; cases hst
  | cons c cs ih =>
      obtain ⟨hle, hI⟩ := hstep s c hs
      have hrest : f (perform exec s c).after ≤ f (runCalls exec (perform exec s c).after cs) :=
        runCalls_moves (R := fun a b => f a ≤ f b) (fun _ => le_rfl) (fun _ _ _ => le_trans)
          hstep hI cs
      have hfirst : f (perform exec s c).after = f s :=
        le_antisymm (hrest.trans (le_of_eq hend)) hle
      intro st hst
      rcases List.mem_cons.mp hst with rfl | hst
      · exact ⟨rfl, hfirst⟩
      · have hend' : f (runCalls exec (perform exec s c).after cs) = f (perform exec s c).after :=
          Eq.trans hend hfirst.symm
        obtain ⟨h1, h2⟩ := ih hI hend' st hst
        exact ⟨h1.trans hfirst, h2.trans hfirst⟩

end PlcnextIot.Effect
