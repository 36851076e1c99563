/-
  PlcnextIot.Core.Submissions

  `core/lifecycle.py` as seen by its callers: `submit`, the bounded queue, the
  coordinator task that serves it, the startup task and the shutdown task.

  The tasks share one event loop, so a step of the model is what one task does
  between two of its awaits.  What `_apply` does to an item is left open here:
  while an item is processed any number of fatal errors, publications and lost
  commits may happen, and any result may come out.  A step whose task is not
  there, or waits for something else, leaves the state as it is and answers
  `idle`.
-/

import PlcnextIot.Core.Lifecycle
import PlcnextIot.Effect.Run
import Mathlib.Data.List.Perm.Basic
import Mathlib.Data.List.Range

namespace PlcnextIot.Core

open PlcnextIot.Python PlcnextIot.Config PlcnextIot.Effect

/-! ## State -/

/-- `queue_capacity` of the settings, which the settings check. -/
structure QueueCapacity where
  value : ℕ
  positive : 1 ≤ value
  bounded : value ≤ 16

/-- An accepted submission; `id` is its future. -/
structure Submission where
  id : ℕ
  payload : Bytes
  kind : ItemKind
  deriving DecidableEq, Repr

/-- The coordinator task. -/
inductive WorkerTask where
  | absent
  | waiting
  | processing (item : Submission)
  | ended
  deriving DecidableEq, Repr

/-- `_start_task` -/
inductive StartTask where
  | absent
  | running
  | failing
  | ended
  deriving DecidableEq, Repr

/-- `_close_task`: what it waits for. -/
inductive CloseTask where
  | absent
  | startup
  | worker
  | shutdown
  | ended
  deriving DecidableEq, Repr

/-- `AgentLifecycle` between its tasks.  An entry `none` of the queue is the
    stop marker; `accepted` and `begun` record what entered the queue and what
    was handed to `_apply`, and `results` the futures that are done. -/
structure Coordinator where
  state : LifecycleState := .new
  closing : Bool := false
  durableVersion : Option ℤ := some 0
  active : Option ConfigSnapshot := none
  queue : List (Option Submission) := []
  worker : WorkerTask := .absent
  starting : StartTask := .absent
  close : CloseTask := .absent
  accepted : List Submission := []
  begun : List Submission := []
  results : List (ℕ × ApplyResult) := []
  cancelled : List ℕ := []

/-- What a step gives back. -/
inductive CoordinatorAnswer where
  | idle
  | done
  | accepted (id : ℕ)
  | rejected (r : ApplyResult)
  deriving DecidableEq

/-- What `_apply` does between two awaits. -/
inductive ApplyStep where
  | awaits
  | fatal
  | durable (version : Option ℤ)
  | publish (committed : ConfigSnapshot)

/-- The item in the hands of the coordinator. -/
def WorkerTask.item : WorkerTask → Option Submission
  | .processing item => some item
  | _ => none

/-- `not self._worker.done()` -/
def WorkerTask.alive : WorkerTask → Bool
  | .waiting | .processing _ => true
  | .absent | .ended => false

/-- The states in which `submit` enqueues. -/
def LifecycleState.accepts : LifecycleState → Bool
  | .waitingConfig | .running | .disabled | .applying => true
  | _ => false

/-- `kind` of a submission, one of the two names. -/
def ItemKind.ofName (kind : PyStr) : Option ItemKind :=
  if kind = py "configSet" then some .configSet
  else if kind = py "configPatch" then some .configPatch
  else none

namespace Coordinator

/-- `active_message_id` -/
def activeMessageId (c : Coordinator) : Option PyStr :=
  match c.active with
  | some snapshot =>
    if some snapshot.configVersion = c.durableVersion then some snapshot.messageId else none
  | none => none

/-- `_result` -/
def resultOf (c : Coordinator) (status : ApplyStatus) (code : Option PyStr) (issues : List Contracts.Issue)
    (applied : Option ℤ) : ApplyResult :=
  ⟨status, c.durableVersion, code, issues, applied, c.activeMessageId⟩

/-- `_result("REJECTED", code)` -/
def refusal (c : Coordinator) (code : String) : ApplyResult :=
  c.resultOf .rejected (some (py code)) [] none

/-- `_steady` -/
def steady (c : Coordinator) : Coordinator :=
  if c.state = .failed then c
  else if c.closing then { c with state := .stopping }
  else
    match c.active with
    | none => { c with state := .waitingConfig }
    | some snapshot => { c with state := if snapshot.enabled then .running else .disabled }

/-- The futures that are done. -/
def answered (c : Coordinator) : List ℕ := c.results.map Prod.fst

/-- `if not future.done(): future.set_result(result)` -/
def answer (c : Coordinator) (id : ℕ) (r : ApplyResult) : Coordinator :=
  if id ∈ c.answered then c else { c with results := c.results ++ [(id, r)] }

/-! ## Callers -/

/-- `submit`, up to the await of its future. -/
def submit (capacity : QueueCapacity) (c : Coordinator) (payload : Option Bytes) (kind : PyStr) :
    Coordinator × CoordinatorAnswer :=
  if c.closing then (c, .rejected (c.refusal "STOPPING"))
  else if c.state.accepts = false then (c, .rejected (c.refusal "NOT_RUNNING"))
  else
    match payload with
    | none => (c, .rejected (c.refusal "INVALID_JSON"))
    | some payload =>
      if 2 * 1024 * 1024 < payload.length then (c, .rejected (c.refusal "PAYLOAD_TOO_LARGE"))
      else
        match ItemKind.ofName kind with
        | none => (c, .rejected (c.refusal "UNSUPPORTED_MESSAGE"))
        | some kind =>
          if capacity.value ≤ c.queue.length then (c, .rejected (c.refusal "RESOURCE_LIMIT"))
          else
            let item : Submission := ⟨c.accepted.length, payload, kind⟩
            ({ c with queue := c.queue ++ [some item], accepted := c.accepted ++ [item] },
              .accepted item.id)

/-- A caller that waits for its shielded future is cancelled. -/
def cancelCaller (c : Coordinator) (id : ℕ) : Coordinator :=
  { c with cancelled := c.cancelled ++ [id] }

/-! ## The queue -/

/-- One entry of `_drain`. -/
def drop (code : String) (c : Coordinator) : Option Submission → Coordinator
  | none => c
  | some item => c.answer item.id (c.refusal code)

/-- `_drain` -/
def drain (c : Coordinator) (code : String) : Coordinator :=
  { c.queue.foldl (drop code) c with queue := [] }

/-! ## Startup -/

/-- `start`, up to the await of its task.  It raises when the lifecycle is not
    new. -/
def start (c : Coordinator) : Option Coordinator :=
  if c.state ≠ .new ∨ c.closing then none
  else some { c with state := .starting, starting := .running }

/-- `_start` has read the active snapshot. -/
def startLoads (c : Coordinator) (snapshot : Option ConfigSnapshot) : Option Coordinator :=
  if c.starting = .running then
    some { c with durableVersion := some ((snapshot.map (·.configVersion)).getD 0) }
  else none

/-- The end of `_start`: the coordinator task is created. -/
def startReturns (c : Coordinator) (active : Option ConfigSnapshot) : Option Coordinator :=
  if c.starting = .running then
    some { { c with active := active }.steady with worker := .waiting, starting := .ended }
  else none

/-- The handler of `_start` calls `_fatal`. -/
def startFails (c : Coordinator) : Option Coordinator :=
  if c.starting = .running then some { c with state := .failed, starting := .failing } else none

/-- The handler of `_start` raises. -/
def startRaises (c : Coordinator) : Option Coordinator :=
  if c.starting = .failing then some { c with starting := .ended } else none

/-! ## The coordinator -/

/-- `_serve` gets an entry, and `_apply` begins. -/
def take (c : Coordinator) : Option Coordinator :=
  match c.worker, c.queue with
  | .waiting, some item :: rest =>
    some { c with queue := rest, worker := .processing item, begun := c.begun ++ [item],
                  state := if c.closing then .stopping else .applying }
  | .waiting, none :: rest => some { c with queue := rest, worker := .ended }
  | _, _ => none

/-- Between two awaits of `_apply`. -/
def apply (c : Coordinator) (s : ApplyStep) : Option Coordinator :=
  match c.worker with
  | .processing _ =>
    match s with
    | .awaits => some c
    | .fatal => some { c with state := .failed }
    | .durable version => some { c with durableVersion := version }
    | .publish committed =>
      some { c with durableVersion := some committed.configVersion, active := some committed }
  | _ => none

/-- `_apply` returns, after `_steady`, and `_serve` answers the item.  It ends
    when the agent failed. -/
def finish (c : Coordinator) (status : ApplyStatus) (code : Option PyStr)
    (issues : List Contracts.Issue) (applied : Option ℤ) : Option Coordinator :=
  match c.worker with
  | .processing item =>
    let settled := c.steady
    let replied := settled.answer item.id (settled.resultOf status code issues applied)
    if replied.state = .failed then some { replied.drain "NOT_RUNNING" with worker := .ended }
    else some { replied with worker := .waiting }
  | _ => none

/-! ## Shutdown -/

/-- `close`, up to the await of its task. -/
def beginClose (c : Coordinator) : Coordinator :=
  if c.close = .absent then
    { c with closing := true, state := if c.state = .failed then .failed else .stopping,
             close := .startup }
  else c

/-- `_close` once the startup is over: the queue is drained, and a live
    coordinator told to stop. -/
def closeDrains (c : Coordinator) : Option Coordinator :=
  if c.close = .startup ∧ (c.starting = .absent ∨ c.starting = .ended) then
    let drained := c.drain "STOPPING"
    if c.worker.alive then some { drained with queue := [none], close := .worker }
    else some { drained with close := .shutdown }
  else none

/-- `await self._worker` is over. -/
def closeJoins (c : Coordinator) : Option Coordinator :=
  if c.close = .worker ∧ c.worker.alive = false then some { c with close := .shutdown } else none

/-- The end of `_close`. -/
def closeEnds (c : Coordinator) (failed : Bool) : Option Coordinator :=
  if c.close = .shutdown then
    some { c with close := .ended, state := if failed ∨ c.state = .failed then .failed else .stopped }
  else none

end Coordinator

/-! ## Steps -/

inductive CoordinatorStep where
  | submit (payload : Option Bytes) (kind : PyStr)
  | cancelCaller (id : ℕ)
  | start
  | startLoads (snapshot : Option ConfigSnapshot)
  | startReturns (active : Option ConfigSnapshot)
  | startFails
  | startRaises
  | take
  | apply (s : ApplyStep)
  | finish (status : ApplyStatus) (code : Option PyStr) (issues : List Contracts.Issue)
      (applied : Option ℤ)
  | close
  | closeDrains
  | closeJoins
  | closeEnds (failed : Bool)

namespace Coordinator

/-- A step of a task, when the task can take it. -/
def whenReady (c : Coordinator) (next : Option Coordinator) : Coordinator × CoordinatorAnswer :=
  match next with
  | some c' => (c', .done)
  | none => (c, .idle)

/-- One step. -/
def step (capacity : QueueCapacity) (c : Coordinator) :
    CoordinatorStep → Coordinator × CoordinatorAnswer
  | .submit payload kind => c.submit capacity payload kind
  | .cancelCaller id => (c.cancelCaller id, .done)
  | .start => c.whenReady c.start
  | .startLoads snapshot => c.whenReady (c.startLoads snapshot)
  | .startReturns active => c.whenReady (c.startReturns active)
  | .startFails => c.whenReady c.startFails
  | .startRaises => c.whenReady c.startRaises
  | .take => c.whenReady c.take
  | .apply s => c.whenReady (c.apply s)
  | .finish status code issues applied => c.whenReady (c.finish status code issues applied)
  | .close => (c.beginClose, .done)
  | .closeDrains => c.whenReady c.closeDrains
  | .closeJoins => c.whenReady c.closeJoins
  | .closeEnds failed => c.whenReady (c.closeEnds failed)

end Coordinator

/-- The program of a step; it never raises. -/
def CoordinatorStep.exec (capacity : QueueCapacity) (s : CoordinatorStep) :
    Prog Coordinator Empty CoordinatorAnswer := fun c =>
  (.ok (c.step capacity s).2, (c.step capacity s).1)

end PlcnextIot.Core
