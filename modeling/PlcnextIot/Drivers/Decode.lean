/-
  PlcnextIot.Drivers.Decode

  `decode` of `drivers/modbus.py` and `drivers/opcua.py`, and what their callers
  make of it: a raw value read from a device becomes a number of the point's
  data type, is scaled, and is captured as a sample.

  A raw integer scaled by integers stays an integer of any size; every other
  combination goes through `float`.  The exceptions are kept apart by type,
  since each caller names the ones it turns into BAD_DECODE.
-/

import PlcnextIot.Config.Models
import PlcnextIot.Points.Sample

namespace PlcnextIot.Drivers

open PlcnextIot.Python PlcnextIot.Config PlcnextIot.Points

/-- The exceptions that can leave a `decode`. -/
inductive DecodeExc where
  | valueError (message : ValueError)
  | typeError
  | keyError
  | overflowError
  | structError
  | indexError
  | attributeError
  deriving DecidableEq, Repr

/-! ## Scaling -/

/-- `int | float` at run time. -/
inductive Number where
  | int (n : ℤ)
  | float (x : PyFloat)
  deriving DecidableEq, Repr

/-- A configured number. -/
def Number.ofConfig : PyNum → Number
  | .int n => .int n
  | .float q => .float (.finite q)

def Number.toFloat : Number → Except DecodeExc PyFloat
  | .int n =>
    match Python.toFloat n with
    | some x => .ok x
    | none => .error .overflowError
  | .float x => .ok x

section Scaling

variable [FloatArith]

/-- `a * b` -/
def Number.mul : Number → Number → Except DecodeExc Number
  | .int a, .int b => .ok (.int (a * b))
  | a, b => do return .float (FloatArith.mul (← a.toFloat) (← b.toFloat))

/-- `a + b` -/
def Number.add : Number → Number → Except DecodeExc Number
  | .int a, .int b => .ok (.int (a + b))
  | a, b => do return .float (FloatArith.add (← a.toFloat) (← b.toFloat))

/-- `if isinstance(result, float) and not math.isfinite(result): raise`, then the result. -/
def finiteResult : Number → Except DecodeExc Value
  | .int n => .ok (.int n)
  | .float x => if x.isFinite then .ok (.float x) else .error (.valueError "Nonfinite value")

/-- `raw * point.scale + point.offset` -/
def scaled (p : PointConfig) (raw : Number) : Except DecodeExc Value := do
  let product ← raw.mul (.ofConfig p.scale)
  finiteResult (← product.add (.ofConfig p.offset))

end Scaling

/-! ## `drivers/modbus.py` -/

/-- An item of `response.bits` or of `response.registers`. -/
inductive Register where
  | bit (b : Bool)
  | word (n : ℤ)
  deriving DecidableEq, Repr

/-- The number `struct` packs; a `bool` is 0 or 1. -/
def Register.number : Register → ℤ
  | .bit b => if b then 1 else 0
  | .word n => n

/-- The formats of `struct`: `h`, `H`, `i`, `I` and `f`. -/
inductive Format where
  | int16
  | uint16
  | int32
  | uint32
  | float32
  deriving DecidableEq, Repr

def formats : List (PyStr × Format) :=
  [(py "int16", .int16), (py "uint16", .uint16), (py "int32", .int32), (py "uint32", .uint32),
   (py "float32", .float32)]

/-- `struct.calcsize('>' + fmt)` -/
def Format.calcsize : Format → Nat
  | .int16 => 2
  | .uint16 => 2
  | .int32 => 4
  | .uint32 => 4
  | .float32 => 4

/-- `struct.pack('>H', v)` -/
def packWord (v : Register) : Except DecodeExc (List Nat) :=
  if 0 ≤ v.number ∧ v.number < 65536 then
    .ok [(v.number / 256).toNat, (v.number % 256).toNat]
  else .error .structError

/-- The bytes in big-endian order. -/
def bigEndian (bytes : List Nat) : Nat := bytes.foldl (fun n b => 256 * n + b) 0

/-- Two's complement of `2^width`. -/
def signed (width : Nat) (n : ℤ) : ℤ := if n < 2 ^ (width - 1) then n else n - 2 ^ width

/-- `struct.unpack('>' + fmt, canonical)[0]` -/
def Format.unpack (fmt : Format) (bytes : List Nat) : Number :=
  match fmt with
  | .int16 => .int (signed 16 (bigEndian bytes))
  | .uint16 => .int (bigEndian bytes)
  | .int32 => .int (signed 32 (bigEndian bytes))
  | .uint32 => .int (bigEndian bytes)
  | .float32 => .float (floatOfBits32 (bigEndian bytes))

/-- `wire[order.index(letter)]` -/
def byteAt (wire : List Nat) (order : PyStr) (letter : Nat) : Except DecodeExc Nat :=
  match order.idxOf? letter with
  | none => .error (.valueError "substring not found")
  | some i =>
    match wire[i]? with
    | some b => .ok b
    | none => .error .indexError

/-- `bytes(wire[order.index(letter)] for letter in 'ABCD'[:width])` -/
def canonicalBytes (wire : List Nat) (modbus : Option ModbusAddress) (width : Nat) :
    Except DecodeExc (List Nat) :=
  match modbus.bind (·.byteOrder) with
  | none => .error .attributeError
  | some order => ((py "ABCD").take width).mapM (byteAt wire order)

/-- The raw number of the registers. -/
def registerNumber (p : PointConfig) (values : List Register) : Except DecodeExc Number :=
  match formats.lookup p.dataType with
  | none => .error .keyError
  | some fmt =>
    if values.length * 2 ≠ fmt.calcsize then .error (.valueError "Unexpected register count")
    else do
      let wire ← values.mapM packWord
      return fmt.unpack (← canonicalBytes wire.flatten p.modbus fmt.calcsize)

/-- What `decode` may turn into `ReadError('BAD_DECODE')`. -/
def modbusCatches : DecodeExc → Bool
  | .valueError _ => true
  | .typeError => true
  | .keyError => true
  | .overflowError => true
  | .structError => true
  | .indexError => false
  | .attributeError => false

/-- What a driver reports for a point: the value, or BAD_DECODE for an exception it
    catches. -/
def outcome (catches : DecodeExc → Bool) :
    Except DecodeExc Value → Except DecodeExc (Option Value × Quality)
  | .ok v => .ok (some v, .good)
  | .error e => if catches e then .ok (none, .badDecode) else .error e

variable [FloatArith]

/-- `decode`, before its `except`. -/
def decodeRegisters (p : PointConfig) (values : List Register) : Except DecodeExc Value :=
  if p.dataType = py "bool" then
    match values with
    | .bit b :: _ => .ok (.bool b)
    | _ => .error (.valueError "Expected bit")
  else do scaled p (← registerNumber p values)

/-- The result of `decode` for a point of a block. -/
def registerOutcome (p : PointConfig) (values : List Register) :
    Except DecodeExc (Option Value × Quality) :=
  outcome modbusCatches (decodeRegisters p values)

/-- `width(point)` -/
def width (p : PointConfig) : Nat :=
  if p.dataType = py "int32" ∨ p.dataType = py "uint32" ∨ p.dataType = py "float32" then 2 else 1

structure ReadBlock where
  area : PyStr
  address : ℤ
  count : ℤ
  pollIntervalMs : ℤ
  points : List PointConfig
  deriving DecidableEq, Repr

/-- The qualities of a `ReadError` other than BAD_DECODE. -/
inductive ReadFailure where
  | connection
  | timeout
  | protocol
  deriving DecidableEq, Repr

def ReadFailure.quality : ReadFailure → Quality
  | .connection => .badConnection
  | .timeout => .badTimeout
  | .protocol => .badProtocol

/-- What was read for a point: its registers, or nothing. -/
inductive PointRead where
  | values (values : List Register)
  | failed (failure : ReadFailure)
  deriving DecidableEq, Repr

/-- `values[offset:offset + width(point)]` of a block that was read in one request. -/
def ReadBlock.slice (block : ReadBlock) (values : List Register) (p : PointConfig) : PointRead :=
  match p.modbus with
  | some m => .values ((values.drop (m.address - block.address).toNat).take (width p))
  | none => .values []

/-- The entry of a point in the results of `read_block`. -/
def pointResult (p : PointConfig) : PointRead → Except DecodeExc (Option Value × Quality)
  | .values values => registerOutcome p values
  | .failed failure => .ok (none, failure.quality)

/-- `read_block`: the results, in the order of the points.  `reads` is the slice of one
    request, the fallback request of the point, or a failure. -/
def blockResults (block : ReadBlock) (reads : PointConfig → PointRead) :
    Except DecodeExc (List (PointConfig × Option Value × Quality)) :=
  block.points.mapM fun p => do return (p, ← pointResult p (reads p))

/-! ## `drivers/opcua.py` -/

/-- `data.Value.Value`: a number, a `bool`, an instance of a subclass of `int`, or
    anything else. -/
inductive NodeValue where
  | bool (b : Bool)
  | int (n : ℤ)
  | enumeration (n : ℤ)
  | float (x : PyFloat)
  | other
  deriving DecidableEq, Repr

/-- `RANGES` -/
def ranges : List (PyStr × ℤ × ℤ) :=
  [(py "int16", -32768, 32767), (py "uint16", 0, 65535), (py "int32", -2147483648, 2147483647),
   (py "uint32", 0, 4294967295)]

/-- The raw number of a node's value. -/
def nodeNumber (p : PointConfig) (v : NodeValue) : Except DecodeExc Number :=
  match v, ranges.lookup p.dataType with
  | .bool _, _ => .error (.valueError "Expected number")
  | .other, _ => .error (.valueError "Expected number")
  | .int n, some (lo, hi) =>
    if lo ≤ n ∧ n ≤ hi then .ok (.int n) else .error (.valueError "Out of range")
  -- A subclass of `int` and a float are no value of an integer type.
  | _, some _ => .error (.valueError "Out of range")
  | .int n, none => .ok (.int n)
  | .enumeration n, none => .ok (.int n)
  | .float x, none => .ok (.float x)

/-- `decode` -/
def decodeNode (p : PointConfig) (v : NodeValue) : Except DecodeExc Value :=
  if p.dataType = py "bool" then
    match v with
    | .bool b => .ok (.bool b)
    | _ => .error (.valueError "Expected bool")
  else do scaled p (← nodeNumber p v)

/-- `except (ValueError, TypeError, OverflowError)` -/
def opcuaCatches : DecodeExc → Bool
  | .valueError _ => true
  | .typeError => true
  | .overflowError => true
  | .keyError => false
  | .structError => false
  | .indexError => false
  | .attributeError => false

/-- What a scheduled read with a GOOD status emits. -/
def nodeOutcome (p : PointConfig) (v : NodeValue) : Except DecodeExc (Option Value × Quality) :=
  outcome opcuaCatches (decodeNode p v)

/-! ## Capturing the results -/

/-- What ends a poll: an exception of `decode` that nothing catches, or one of `Sample`. -/
inductive PollExc where
  | decode (e : DecodeExc)
  | capture (e : ValueError)
  deriving DecidableEq, Repr

/-- The sample of a result, stamped with its identity and its times. -/
def captureResult (stamp : Sample) (result : Option Value × Quality) : Except PollExc Sample :=
  Except.mapError .capture { stamp with value := result.1, quality := result.2 }.postInit

/-- `ModbusRunner._poll`: the results of a block, captured point by point. -/
def pollBlock (stamp : PointConfig → Sample) (block : ReadBlock) (reads : PointConfig → PointRead) :
    Except PollExc (List Sample) := do
  let results ← Except.mapError .decode (blockResults block reads)
  results.mapM fun r => captureResult (stamp r.1) r.2

/-- `OpcUaReader.run`: one scheduled read, emitted. -/
def pollNode (stamp : PointConfig → Sample) (p : PointConfig) (v : NodeValue) :
    Except PollExc Sample := do
  captureResult (stamp p) (← Except.mapError .decode (nodeOutcome p v))

end PlcnextIot.Drivers
