/-
  PlcnextIot.Devices.ReadBudget

  `ReadBudget` of `devices/budget.py`: a read first takes the lock of its endpoint and
  then one of the global slots, until a deadline; its body learns whether it got both.

  The awaits of `acquire` are the steps here.  Between two of them a task runs alone,
  so that what the source does there is one step.  A lock that is free may be granted
  to any task that waits for it, and a slot likewise: the order in which `asyncio` wakes
  its waiters is not modelled, nor are the instants of the deadlines.  Choices that are
  not possible in a state change nothing.
-/

import PlcnextIot.Effect.Run
import PlcnextIot.Python.Dict
import Mathlib.Algebra.Order.Ring.Int
import Mathlib.Logic.Function.Basic

namespace PlcnextIot.Devices

open PlcnextIot.Python PlcnextIot.Effect PlcnextIot.Effect.Prog

/-! ## State -/

/-- Where a call of `acquire` is: at one of its awaits, or in its body. -/
inductive AcquireStage where
  | endpoint
  | slot
  | body (admitted : Bool)
  deriving DecidableEq, Repr

/-- A call in progress, with the local variables of `acquire`. -/
structure Acquire (κ : Type) where
  endpoint : κ
  /-- Which list `setdefault` returned. -/
  entry : ℕ
  localLock : Bool := false
  globalSlot : Bool := false
  stage : AcquireStage := .endpoint

/-- `[asyncio.Lock(), 0]` -/
structure EndpointEntry where
  locked : Bool := false
  calls : ℤ := 0

/-- What a call can take. -/
inductive Permit where
  | lock (entry : ℕ)
  | slot
  deriving DecidableEq, Repr

/-- `ReadBudget`.  The lists of its endpoints are numbered in the order of their creation.
    `taken` and `released` are no part of the program: they list the permits of each
    call. -/
structure ReadBudget (κ : Type) [DecidableEq κ] where
  capacity : ℕ
  /-- The value of the semaphore. -/
  free : ℕ := capacity
  entries : ℕ → EndpointEntry := fun _ => {}
  created : ℕ := 0
  endpoints : Dict κ ℕ := .empty
  skipped : ℤ := 0
  calls : Dict ℕ (Acquire κ) := .empty
  started : ℕ := 0
  taken : List (ℕ × Permit) := []
  released : List (ℕ × Permit) := []

inductive BudgetExc where
  | value
  | runtime
  | key
  deriving DecidableEq, Repr

variable {κ : Type} [DecidableEq κ]

/-- `__init__` -/
def ReadBudget.new (capacity : ℤ) : Except BudgetExc (ReadBudget κ) :=
  if 1 ≤ capacity ∧ capacity ≤ 16 then .ok { capacity := capacity.toNat } else .error .value

abbrev BudgetM (κ : Type) [DecidableEq κ] := Prog (ReadBudget κ) BudgetExc

/-! ## `acquire` -/

/-- An endpoint gets a new entry, without calls. -/
def ReadBudget.opened (b : ReadBudget κ) (endpoint : κ) : ReadBudget κ :=
  { b with
    endpoints := b.endpoints.set endpoint b.created
    entries := Function.update b.entries b.created {}
    created := b.created + 1 }

/-- `self._endpoints.setdefault(endpoint, [asyncio.Lock(), 0])` -/
def setdefault (endpoint : κ) : BudgetM κ ℕ := do
  let b ← get
  match b.endpoints.get? endpoint with
  | some entry => return entry
  | none => do
    modify fun b => b.opened endpoint
    return b.created

/-- A call begins at an entry: `entry[1] += 1`. -/
def ReadBudget.joined (b : ReadBudget κ) (endpoint : κ) (entry : ℕ) : ReadBudget κ :=
  { b with
    entries := Function.update b.entries entry
      { b.entries entry with calls := (b.entries entry).calls + 1 }
    calls := b.calls.set b.started { endpoint, entry }
    started := b.started + 1 }

/-- A call begins. -/
def begin (endpoint : κ) : BudgetM κ Unit := do
  let entry ← setdefault endpoint
  modify fun b => b.joined endpoint entry

/-- `await entry[0].acquire()` returns. -/
def grantLock (c : ℕ) : BudgetM κ Unit := modify fun b =>
  match b.calls.get? c with
  | none => b
  | some k =>
    if k.stage = .endpoint ∧ (b.entries k.entry).locked = false then { b with
      entries := Function.update b.entries k.entry { b.entries k.entry with locked := true }
      calls := b.calls.set c { k with localLock := true, stage := .slot }
      taken := (c, .lock k.entry) :: b.taken }
    else b

/-- `await self._global.acquire()` returns, and the body begins. -/
def grantSlot (c : ℕ) : BudgetM κ Unit := modify fun b =>
  match b.calls.get? c with
  | none => b
  | some k =>
    if k.stage = .slot ∧ 0 < b.free then { b with
      free := b.free - 1
      calls := b.calls.set c { k with globalSlot := true, stage := .body true }
      taken := (c, .slot) :: b.taken }
    else b

/-- The deadline ends the await of a call, and its body begins without a slot. -/
def expire (c : ℕ) : BudgetM κ Unit := modify fun b =>
  match b.calls.get? c with
  | none => b
  | some k =>
    match k.stage with
    | .body _ => b
    | _ => { b with
        skipped := b.skipped + 1
        calls := b.calls.set c { k with stage := .body k.globalSlot } }

/-- `if global_slot: self._global.release()` -/
def releaseSlot (c : ℕ) (k : Acquire κ) : BudgetM κ Unit :=
  if k.globalSlot then
    modify fun b => { b with free := b.free + 1, released := (c, .slot) :: b.released }
  else pure ()

/-- `if local: entry[0].release()` -/
def releaseLock (c : ℕ) (k : Acquire κ) : BudgetM κ Unit := do
  if k.localLock then do
    let b ← get
    check ((b.entries k.entry).locked = true) .runtime
    modify fun b => { b with
      entries := Function.update b.entries k.entry { b.entries k.entry with locked := false }
      released := (c, .lock k.entry) :: b.released }
  else pure ()

/-- `entry[1] -= 1`, and the entry of an endpoint goes with its last call. -/
def leave (k : Acquire κ) : BudgetM κ Unit := do
  modify fun b => { b with
    entries := Function.update b.entries k.entry
      { b.entries k.entry with calls := (b.entries k.entry).calls - 1 } }
  let b ← get
  if (b.entries k.entry).calls = 0 then do
    check ((b.endpoints.get? k.endpoint).isSome) .key
    modify fun b => { b with endpoints := b.endpoints.erase k.endpoint }
  else pure ()

/-- The `finally` of a call, which ends it. -/
def unwind (c : ℕ) (k : Acquire κ) : BudgetM κ Unit := do
  releaseSlot c k
  releaseLock c k
  leave k
  modify fun b => { b with calls := b.calls.erase c }

/-! ## Steps -/

/-- A choice of the scheduler.  `finish` is the end of a body, by a return or an exception;
    `cancel` reaches a call at an await or in its body. -/
inductive BudgetStep (κ : Type) where
  | begin (endpoint : κ)
  | grantLock (call : ℕ)
  | grantSlot (call : ℕ)
  | expire (call : ℕ)
  | cancel (call : ℕ)
  | finish (call : ℕ)
  deriving DecidableEq, Repr

def BudgetStep.exec : BudgetStep κ → BudgetM κ Unit
  | .begin endpoint => Devices.begin endpoint
  | .grantLock c => Devices.grantLock c
  | .grantSlot c => Devices.grantSlot c
  | .expire c => Devices.expire c
  | .cancel c => do
    let b ← get
    match b.calls.get? c with
    | none => pure ()
    | some k => unwind c k
  | .finish c => do
    let b ← get
    match b.calls.get? c with
    | none => pure ()
    | some k =>
      match k.stage with
      | .body _ => unwind c k
      | _ => pure ()

end PlcnextIot.Devices
