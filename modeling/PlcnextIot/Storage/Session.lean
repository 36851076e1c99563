/-
  PlcnextIot.Storage.Session

  `storage/outbox_session.py`: what one process remembers of its batches, for
  scheduling and for correlating acknowledgements.

  Times are those of the session clock, as exact numbers of milliseconds; they are
  never stored.
  Facts and observers are left out: nothing here reads them.
-/

import PlcnextIot.Storage.Batches

namespace PlcnextIot.Storage

open PlcnextIot.Python PlcnextIot.Config PlcnextIot.Reporting

structure BatchState where
  row : Row
  category : Category := .history
  due : ℚ := 0
  active : Bool := false
  source : Option TerminalSource := none
  events : List ℤ := []
  captureBoot : Option PyStr := none
  everSent : Bool := false
  previousSent : Bool := false
  deriving DecidableEq, Repr

/-- What the accounting is told of an entry. -/
def BatchState.facts (e : BatchState) : BatchFacts :=
  { messageId := e.row.messageId, size := e.row.size, dead := e.row.state = .dead
    events := e.events, captureBoot := e.captureBoot, everSent := e.everSent, source := e.source }

structure OutboxSession where
  maxBytes : ℤ
  maxRecords : ℕ
  accounting : Option Accounting := none
  entries : Dict PyStr BatchState := .empty
  staged : Dict PyStr BatchState := .empty
  watermark : ℤ := 0
  preferNew : Bool := true
  nextSend : ℚ := 0
  rate : List (ℚ × ℕ) := []

/-- `charge` -/
def charge (sizes : ObjectSizes) (e : BatchState) : ℤ :=
  e.row.retainedBytes sizes + e.events.length * 8 + 1536

namespace OutboxSession

/-- `OutboxSession(...)`: the accounting keeps its part of the bytes. -/
def create (maxBytes : ℤ) (maxRecords : ℕ) (accounting : Option (Accounting × ℤ)) : OutboxSession :=
  { maxBytes := maxBytes - (accounting.map (·.2)).getD 0, maxRecords
    accounting := accounting.map (·.1) }

/-- `used_bytes` -/
def usedBytes (sizes : ObjectSizes) (s : OutboxSession) : ℤ :=
  (s.entries.values.map (charge sizes)).sum + (s.staged.values.map (charge sizes)).sum

/-- There is no room for one more record. -/
def exhausted (sizes : ObjectSizes) (s : OutboxSession) (e : BatchState) : Bool :=
  s.maxRecords ≤ s.entries.items.length + s.staged.items.length
    || s.maxBytes < s.usedBytes sizes + charge sizes e

/-- An entry that is kept or staged already. -/
def known? (s : OutboxSession) (key : PyStr) : Option BatchState :=
  (s.entries.get? key).orElse fun _ => s.staged.get? key

/-- `stage` -/
def stage (sizes : ObjectSizes) (s : OutboxSession) (key : PyStr) (e : BatchState) :
    Option BatchState × OutboxSession :=
  match s.known? key with
  | some old => (some old, s)
  | none =>
    if s.exhausted sizes e then (none, s)
    else (some e, { s with staged := s.staged.set key e })

/-- Change an entry. -/
def update (s : OutboxSession) (key : PyStr) (f : BatchState → BatchState) : OutboxSession :=
  match s.entries.get? key with
  | some e => { s with entries := s.entries.set key (f e) }
  | none => s

/-- Forget an entry. -/
def remove (s : OutboxSession) (key : PyStr) : OutboxSession :=
  { s with entries := s.entries.erase key }

/-- A call on the accounting, if there is one. -/
def account (s : OutboxSession) (f : Accounting → Accounting) : OutboxSession :=
  { s with accounting := s.accounting.map f }

/-- Apply a function to every value. -/
def mapValues (f : BatchState → BatchState) (d : Dict PyStr BatchState) : Dict PyStr BatchState :=
  ⟨d.items.map fun kv => (kv.1, f kv.2), by
    rw [List.map_map]
    exact d.nodup⟩

/-- `open_gate` -/
def openGate (s : OutboxSession) (watermark : ℤ) : OutboxSession :=
  { s with
    watermark
    entries := mapValues (fun e => { e with category := .history }) s.entries
    staged := mapValues (fun e => { e with category := .history }) s.staged }

/-- The entries of some keys. -/
def listed (s : OutboxSession) (keys : List PyStr) : List BatchState :=
  keys.filterMap s.entries.get?

/-- The number of entries that are `DEAD`. -/
def deadCount (s : OutboxSession) : ℕ := s.entries.values.countP (·.row.state = .dead)

/-- The total payload size of the entries. -/
def totalSize (s : OutboxSession) : ℕ := (s.entries.values.map (·.row.size)).sum

end OutboxSession

end PlcnextIot.Storage
