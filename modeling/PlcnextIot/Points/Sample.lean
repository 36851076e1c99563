/-
  PlcnextIot.Points.Sample

  `Sample` of `points/samples.py`: a captured event, and the checks its
  `__post_init__` makes.

  A value of quality GOOD is stored as a `bool` or as a finite binary64 number;
  an integer is converted here, and one that does not convert is refused.  Times
  are integers in milliseconds.
-/

import PlcnextIot.Contracts.Protocol
import PlcnextIot.Python.Float

namespace PlcnextIot.Points

open PlcnextIot.Python

/-- `bool | int | float` -/
inductive Value where
  | bool (b : Bool)
  | int (n : ℤ)
  | float (x : PyFloat)
  deriving DecidableEq, Repr

inductive Quality where
  | good
  | badTimeout
  | badConnection
  | badProtocol
  | badDecode
  | badConfiguration
  | stale
  | unknown
  deriving DecidableEq, Repr

inductive EventKind where
  | physicalResult
  | qualityState
  deriving DecidableEq, Repr

inductive TimeSource where
  | systemRtcCompat
  | hubMqtt
  deriving DecidableEq, Repr

structure Sample where
  configVersion : ℤ
  deviceId : PyStr
  pointId : PyStr
  timestamp : Option ℤ
  value : Option Value
  quality : Quality
  monotonicTime : Option ℤ := none
  captureBootId : Option PyStr := none
  sampleSeq : Option ℤ := none
  nominalPollDueMonoMs : Option ℤ := none
  completedMonoMs : Option ℤ := none
  kind : EventKind := .physicalResult
  nominalOriginMonoMs : Option ℤ := none
  configGeneration : ℤ := 0
  timeGeneration : ℤ := 0
  timeValid : Bool := false
  clockRevision : ℤ := 0
  timeSource : TimeSource := .systemRtcCompat
  gatewayId : Option PyStr := none
  deriving DecidableEq, Repr

/-- The text of a `ValueError`. -/
abbrev ValueError := String

/-! ## `__post_init__` -/

/-- `type(value) is not int or not minimum <= value <= MAX_SEQUENCE` -/
def unsafeMetadata (entry : Option ℤ × ℤ) : Bool :=
  match entry.1 with
  | some n => !(entry.2 ≤ n && n ≤ Contracts.maxSafe)
  | none => true

/-- The metadata of an event of this process. -/
def Sample.checkEvent (s : Sample) : Except ValueError Unit := do
  if [(s.sampleSeq, 1), (s.completedMonoMs, 0), (s.nominalOriginMonoMs, 0),
      (some s.configGeneration, 0), (some s.timeGeneration, 0), (some s.clockRevision, 0)].any
      unsafeMetadata then
    throw "Unsafe event metadata"
  if (s.kind == .physicalResult) != s.nominalPollDueMonoMs.isSome then
    throw "Invalid event kind/slot"
  if let some due := s.nominalPollDueMonoMs then
    if !(0 ≤ due && due ≤ s.completedMonoMs.getD 0) then
      throw "Invalid physical slot"

/-- `float(self.value) if type(self.value) in (int, float) else float('nan')`, with
    a NaN for an integer that does not convert. -/
def binary64Of : Option Value → PyFloat
  | some (.int n) => (toFloat n).getD .nan
  | some (.float x) => x
  | _ => .nan

/-- The value as it is stored. -/
def Sample.checkValue (s : Sample) : Except ValueError Sample :=
  if s.quality = .good then
    match s.value with
    | some (.bool _) => .ok s
    | v =>
      if (binary64Of v).isFinite then .ok { s with value := some (.float (binary64Of v)) }
      else .error "GOOD requires a finite binary64 value or bool"
  else if s.value.isSome then .error "Non-GOOD event value must be null"
  else .ok s

/-- The checks before the one of the value. -/
def Sample.checkMetadata (s : Sample) : Except ValueError Unit :=
  if s.timestamp.any fun utc => !(0 ≤ utc && utc ≤ Contracts.maxSafe) then
    .error "Unsafe sample UTC"
  else if s.captureBootId.isSome then s.checkEvent
  else .ok ()

/-- `__post_init__` -/
def Sample.postInit (s : Sample) : Except ValueError Sample := do
  s.checkMetadata
  s.checkValue

/-! ## Accepted values -/

/-- What a GOOD sample may carry. -/
def Value.accepted : Value → Bool
  | .bool _ => true
  | .int n => |n| < floatLimit
  | .float x => x.isFinite

theorem binary64Of_isFinite {v : Value} (hb : ∀ b, v ≠ .bool b) :
    (binary64Of (some v)).isFinite = v.accepted := by
  cases v with
  | bool b => exact absurd rfl (hb b)
  | float x => rfl
  | int n =>
      rw [binary64Of, Value.accepted]
      cases hf : toFloat n with
      | none =>
          have hlimit := toFloat_eq_none.mp hf
          simp [PyFloat.isFinite, hlimit]
      | some x =>
          have hlimit : ¬ floatLimit ≤ |n| := fun h => by
            rw [toFloat_eq_none.mpr h] at hf
            cases hf
          simp [toFloat_finite hf, not_le.mp hlimit]

/-- A GOOD sample passes the check of its value exactly with an accepted one. -/
theorem checkValue_good {s : Sample} {v : Value} (hq : s.quality = .good) (hv : s.value = some v) :
    (∃ t, s.checkValue = .ok t) ↔ v.accepted = true := by
  rw [Sample.checkValue, if_pos hq, hv]
  cases v with
  | bool b => exact ⟨fun _ => rfl, fun _ => ⟨s, rfl⟩⟩
  | int n =>
      rw [← binary64Of_isFinite (by simp)]
      simp only
      split <;> simp [*]
  | float x =>
      rw [← binary64Of_isFinite (by simp)]
      simp only
      split <;> simp [*]

/-- Other samples carry no value. -/
theorem checkValue_bad {s : Sample} (hq : s.quality ≠ .good) (hv : s.value = none) :
    s.checkValue = .ok s := by
  rw [Sample.checkValue, if_neg hq, hv]
  rfl

end PlcnextIot.Points
