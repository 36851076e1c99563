/-
  PlcnextIot.Effect.Transaction

  Database transactions around stateful programs.

  A program changes a durable part of its state and a volatile one.  Inside a
  transaction a raise takes the durable part back to where it was and leaves
  the volatile part as it is; `rollback old new` is the state that results.

  `Fate` is what the database makes of a transaction.  It commits; or a
  statement or the commit fails and nothing of it is durable; or the commit is
  durable although the caller sees an error.  The last one is also what a
  process that dies right after the commit leaves behind.
-/

import PlcnextIot.Effect.Prog

namespace PlcnextIot.Effect

/-- What the database makes of a transaction. -/
inductive Fate where
  | commits
  | fails
  | loses
  deriving DecidableEq, Repr

/-- Nothing of a failed transaction is durable. -/
def Fate.ofHealth (healthy : Bool) : Fate := if healthy then .commits else .fails

variable {σ ε α : Type}

/-- Run a body in a transaction; `failure` is what the caller sees of a
    database error. -/
def Prog.transaction (rollback : σ → σ → σ) (failure : ε) (fate : Fate) (body : Prog σ ε α) :
    Prog σ ε α := fun s =>
  match fate, body s with
  | .fails, (_, s') => (.error failure, rollback s s')
  | _, (.error e, s') => (.error e, rollback s s')
  | .commits, (.ok a, s') => (.ok a, s')
  | .loses, (.ok _, s') => (.error failure, s')

open Prog

variable {rollback : σ → σ → σ} {failure : ε} {body : Prog σ ε α} {Q : α → σ → Prop}
  {E : ε → σ → Prop} {s : σ}

theorem wp_transaction_commits :
    wp (transaction rollback failure .commits body) Q E s ↔
      wp body Q (fun e s' => E e (rollback s s')) s := by
  unfold wp transaction
  rcases body s with ⟨r, s'⟩
  cases r <;> rfl

theorem wp_transaction_fails :
    wp (transaction rollback failure .fails body) Q E s ↔
      wp body (fun _ s' => E failure (rollback s s')) (fun _ s' => E failure (rollback s s')) s := by
  unfold wp transaction
  rcases body s with ⟨r, s'⟩
  cases r <;> rfl

theorem wp_transaction_loses :
    wp (transaction rollback failure .loses body) Q E s ↔
      wp body (fun _ s' => E failure s') (fun e s' => E e (rollback s s')) s := by
  unfold wp transaction
  rcases body s with ⟨r, s'⟩
  cases r <;> rfl

/-- Whatever the fate, a transaction ends in a state that its body reaches or
    in a rollback; it returns only what a committed body returns. -/
theorem wp.transaction {fate : Fate} {R : σ → Prop} (h : wp body (fun a s' => Q a s' ∧ R s')
    (fun _ _ => True) s) (hback : ∀ s', R (rollback s s')) :
    wp (transaction rollback failure fate body) (fun a s' => Q a s' ∧ R s') (fun _ s' => R s') s := by
  cases fate with
  | commits => exact wp_transaction_commits.mpr (h.mono (fun _ _ h => h) fun _ s' _ => hback s')
  | fails =>
      exact wp_transaction_fails.mpr (h.mono (fun _ s' _ => hback s') fun _ s' _ => hback s')
  | loses =>
      exact wp_transaction_loses.mpr (h.mono (fun _ _ h => h.2) fun _ s' _ => hback s')

end PlcnextIot.Effect
