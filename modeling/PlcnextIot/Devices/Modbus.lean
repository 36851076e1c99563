/-
  PlcnextIot.Devices.Modbus

  `ModbusRunner` of `devices/modbus.py` as an owner of poll tasks and readers, with
  the connection pool of `drivers/modbus.py` that the runners share.

  A `start` makes a reader and the task that polls with it; both are a `Poll` here.
  Between the calls of the runtime the tasks take steps of their own: a task that
  was cancelled learns of it when it next wakes, and may then unwind for any number
  of steps before it runs its clean-up.

  `stop` awaits its task with `asyncio.gather`.  A timeout of that await cancels the
  task once more, and `gather` is done, with the cancellation, when the task is.
-/

import PlcnextIot.Devices.Runtime
import Mathlib.Data.List.Basic

namespace PlcnextIot.Devices

open PlcnextIot.Python

/-! ## The connection pool -/

/-- `(connection.host.lower(), connection.port)` -/
abbrev Endpoint := PyStr × ℤ

/-- `_EndpointConnection` -/
structure EndpointConnection where
  identity : ℕ
  references : ℕ
  deriving DecidableEq, Repr

/-- `ModbusConnectionPool`, with the number of entries it made so far. -/
structure ModbusConnectionPool where
  capacity : ℕ := 50
  entries : Dict Endpoint EndpointConnection := .empty
  made : ℕ := 0

namespace ModbusConnectionPool

/-- `retain`: the entry and the pool, or RuntimeError. -/
def retain (pool : ModbusConnectionPool) (key : Endpoint) : Option (ℕ × ModbusConnectionPool) :=
  match pool.entries.get? key with
  | some entry =>
    some (entry.identity, { pool with
      entries := pool.entries.set key { entry with references := entry.references + 1 } })
  | none =>
    if pool.capacity ≤ pool.entries.items.length then none
    else some (pool.made, { pool with
      entries := pool.entries.set key ⟨pool.made, 1⟩, made := pool.made + 1 })

/-- `release`: the pool, or AssertionError. -/
def release (pool : ModbusConnectionPool) (key : Endpoint) (identity : ℕ) :
    Option ModbusConnectionPool :=
  match pool.entries.get? key with
  | some entry =>
    if entry.identity = identity ∧ 0 < entry.references then
      some { pool with
        entries := if entry.references = 1 then pool.entries.erase key
          else pool.entries.set key { entry with references := entry.references - 1 } }
    else none
  | none => none

end ModbusConnectionPool

/-! ## Runners, readers and poll tasks -/

inductive TaskPhase where
  | created
  | polling
  | unwinding
  | ended
  deriving DecidableEq, Repr

/-- The reader and the task of one `start`. -/
structure Poll where
  runner : Runner
  endpoint : Endpoint
  /-- `reader._endpoint` -/
  entry : ℕ
  /-- `reader._released` -/
  released : Bool := false
  /-- How often `pool.release` was called for the reader. -/
  releases : ℕ := 0
  phase : TaskPhase := .created
  cancelRequested : Bool := false
  deriving DecidableEq, Repr

namespace Poll

/-- `task.cancel()` -/
def cancel (p : Poll) : Poll := if p.phase = .ended then p else { p with cancelRequested := true }

/-- A step of the task: it goes on, or raises where it is. -/
def resume (raises : Bool) (p : Poll) : Poll :=
  let cancelled := p.cancelRequested
  let p := { p with cancelRequested := false }
  match p.phase with
  -- A task that is cancelled before its first step never enters `_poll`.
  | .created => { p with phase := if cancelled then .ended else .polling }
  | .polling => { p with phase := if cancelled || raises then .unwinding else .polling }
  -- A cancellation in `finally` ends the task there, or an inner clean-up takes it.
  | .unwinding => { p with phase := if cancelled && raises then .ended else .unwinding }
  | .ended => p

/-- The end of the task. -/
def finish (p : Poll) : Poll := { p with phase := .ended }

/-- What `reader.close()` does to the reader. -/
def close (p : Poll) : Poll :=
  if p.released then p else { p with released := true, releases := p.releases + 1 }

end Poll

/-- `ModbusRunner`.  `stopping` is a `stop` at its await: its task, and whether the
    await was cancelled. -/
structure ModbusRunner where
  task : Option ℕ := none
  reader : Option ℕ := none
  stopping : Option (ℕ × Bool) := none
  deriving DecidableEq, Repr

/-- The runners of a runtime.  `status` is what the runtime knows of them, and
    `asserted` that an assertion of the pool failed. -/
structure Pollers where
  pool : ModbusConnectionPool
  polls : List Poll := []
  runners : Runner → ModbusRunner := fun _ => {}
  status : Runner → RunStatus := fun _ => .stopped
  asserted : Bool := false

namespace Pollers

variable (w : Pollers)

def setPoll (k : ℕ) (f : Poll → Poll) : Pollers := { w with polls := w.polls.modify k f }

def setRunner (r : Runner) (x : ModbusRunner) : Pollers :=
  { w with runners := Function.update w.runners r x }

def setStatus (r : Runner) (x : RunStatus) : Pollers :=
  { w with status := Function.update w.status r x }

/-- `task.done()` -/
def done (k : ℕ) : Bool := (w.polls[k]?).all fun p => p.phase = .ended

/-- `task.cancel()` -/
def cancel (k : ℕ) : Pollers := w.setPoll k Poll.cancel

/-- `reader.close()` -/
def close (k : ℕ) : Pollers :=
  match w.polls[k]? with
  | none => w
  | some p =>
    if p.released then w
    else
      match w.pool.release p.endpoint p.entry with
      | some pool => { w.setPoll k Poll.close with pool }
      | none => { w.setPoll k Poll.close with asserted := true }

/-- `if self._reader is not None: self._reader.close(); self._reader = None` -/
def dropReader (r : Runner) : Pollers :=
  match (w.runners r).reader with
  | none => w
  | some k => (w.close k).setRunner r { w.runners r with reader := none }

/-- `start`, for the endpoint of the runner's device. -/
def start (endpoint : Endpoint) (r : Runner) : Pollers :=
  if (w.runners r).task.any fun k => !w.done k then w.setStatus r .running
  else
    match w.pool.retain endpoint with
    | none => w.setStatus r .unknown
    | some (entry, pool) =>
      let poll : Poll := { runner := r, endpoint, entry }
      let w' : Pollers := { w with pool, polls := w.polls ++ [poll] }
      (w'.setRunner r
        { w.runners r with task := some w.polls.length, reader := some w.polls.length }).setStatus
        r .running

/-- `stop`, up to its await or to its end. -/
def stop (r : Runner) : Pollers :=
  match (w.runners r).task with
  | none => (w.dropReader r).setStatus r .stopped
  | some k => (w.cancel k).setRunner r { w.runners r with task := none, stopping := some (k, false) }

/-- The end of `stop`, when its await is over. -/
def stopped (r : Runner) (cancelled : Bool) : Pollers :=
  let w := w.setRunner r { w.runners r with stopping := none }
  if cancelled then w.setStatus r .unknown else (w.dropReader r).setStatus r .stopped

/-- The last step of `_poll`: `self._reader.close()`. -/
def cleanup (k : ℕ) (r : Runner) : Pollers :=
  (match (w.runners r).reader with
    | some j => w.close j
    | none => w).setPoll k Poll.finish

end Pollers

/-! ## Steps -/

/-- What happens next: a call of the runtime, a timeout of its await or its end, or a
    step of a task. -/
inductive PollEvent where
  | start (r : Runner)
  | stop (r : Runner)
  | timeout (r : Runner)
  | stopped (r : Runner)
  | resume (k : ℕ) (raises : Bool)
  | cleanup (k : ℕ)
  deriving DecidableEq, Repr

/-- One step, if it can be taken.  The runtime calls a runner when its last call is
    over, and starts one that is stopped. -/
def Pollers.step (endpoints : Runner → Endpoint) (w : Pollers) : PollEvent → Option Pollers
  | .start r =>
    if (w.runners r).stopping = none ∧ w.status r = .stopped then some (w.start (endpoints r) r)
    else none
  | .stop r => if (w.runners r).stopping = none then some (w.stop r) else none
  | .timeout r =>
    match (w.runners r).stopping with
    | some (k, _) => some ((w.cancel k).setRunner r { w.runners r with stopping := some (k, true) })
    | none => none
  | .stopped r =>
    match (w.runners r).stopping with
    | some (k, cancelled) => if w.done k then some (w.stopped r cancelled) else none
    | none => none
  | .resume k raises => if w.done k then none else some (w.setPoll k (Poll.resume raises))
  | .cleanup k =>
    match w.polls[k]? with
    | some p =>
      if p.phase = .unwinding ∧ p.cancelRequested = false then some (w.cleanup k p.runner) else none
    | none => none

/-- The runners of a new runtime, after any steps. -/
inductive Pollers.Reachable (endpoints : Runner → Endpoint) (capacity : ℕ) : Pollers → Prop
  | new : Reachable endpoints capacity { pool := { capacity } }
  | step {w w' : Pollers} {ev : PollEvent} (h : Reachable endpoints capacity w)
      (hstep : w.step endpoints ev = some w') : Reachable endpoints capacity w'

end PlcnextIot.Devices
