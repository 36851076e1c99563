/-
  PlcnextIot.Config.Models

  `config/models.py`: the validated, immutable configuration snapshot and its
  canonical text.

  `parse` decodes the payload a second time, without the hooks that refuse
  duplicate members and non-finite numbers; after a successful validation both
  readings agree, so `loads` stands for both.  Subscripts run in `Except PyExc`
  as in `Contracts.Validate`; an annotated field (`int`, `str`, `bool`) is read
  at its type.
-/

import PlcnextIot.Contracts.Validate
import PlcnextIot.Python.Sha256

namespace PlcnextIot.Config

open PlcnextIot.Python PlcnextIot.Contracts

/-- What the configuration code raises: its own `ConfigValidationError`, or an
    exception of the interpreter. -/
inductive ConfigExc where
  | validation (issues : List Issue)
  | python (e : PyExc)
  deriving DecidableEq, Repr

/-- An exception of the interpreter passes through. -/
def lift {α : Type} : Except PyExc α → Except ConfigExc α
  | .ok a => .ok a
  | .error e => .error (.python e)

@[simp] theorem lift_ok {α : Type} (a : α) : lift (.ok a) = .ok a := rfl

@[simp] theorem lift_error {α : Type} (e : PyExc) :
    lift (.error e : Except PyExc α) = .error (.python e) := rfl

/-! ## Data model -/

/-- `int | float` -/
inductive PyNum where
  | int (n : ℤ)
  | float (q : ℚ)
  deriving DecidableEq, Repr

structure ModbusAddress where
  area : PyStr
  address : ℤ
  byteOrder : Option PyStr
  deriving DecidableEq, Repr

structure OpcUaAddress where
  nodeId : PyStr
  deriving DecidableEq, Repr

structure PointConfig where
  pointId : PyStr
  name : PyStr
  enabled : Bool
  dataType : PyStr
  pollIntervalMs : ℤ
  scale : PyNum
  offset : PyNum
  unit : Option PyStr
  reportMode : PyStr
  reportIntervalMs : ℤ
  deadband : PyNum
  staleAfterMs : ℤ
  modbus : Option ModbusAddress
  opcua : Option OpcUaAddress := none
  deriving DecidableEq, Repr

structure ConnectionConfig where
  host : PyStr
  port : ℤ
  unitId : Option ℤ
  connectTimeoutMs : ℤ
  requestTimeoutMs : ℤ
  retryCount : ℤ
  path : Option PyStr := none
  securityPolicy : Option PyStr := none
  securityMode : Option PyStr := none
  username : Option PyStr := none
  passwordEnv : Option PyStr := none
  deriving DecidableEq, Repr

structure DeviceConfig where
  deviceId : PyStr
  name : PyStr
  enabled : Bool
  protocol : PyStr
  connection : ConnectionConfig
  points : List PointConfig
  deriving DecidableEq, Repr

structure ReportConfig where
  batchIntervalMs : ℤ
  maxBatchPoints : ℤ
  deriving DecidableEq, Repr

structure ConfigSnapshot where
  gatewayId : PyStr
  messageId : PyStr
  configVersion : ℤ
  timestamp : ℤ
  enabled : Bool
  report : ReportConfig
  devices : List DeviceConfig
  contentJson : PyStr
  wireJson : PyStr
  deriving DecidableEq, Repr

/-- `hashlib.sha256(self.content_json.encode('utf-8')).hexdigest()` -/
def ConfigSnapshot.contentHash (s : ConfigSnapshot) : Except PyExc PyStr :=
  match utf8Encode s.contentJson with
  | some bytes => .ok (sha256 bytes)
  | none => .error .unicodeEncodeError

/-! ## Canonical form -/

mutual

/-- `_normalize`: a float with an integral value becomes that integer. -/
def normalize : Json → Json
  | .obj members => .obj (normalizeMembers members)
  | .arr items => .arr (normalizeItems items)
  | .float q => if q.den = 1 then .int q.num else .float q
  | .negZero => .int 0
  | v => v

def normalizeItems : List Json → List Json
  | [] => []
  | v :: rest => normalize v :: normalizeItems rest

def normalizeMembers : List (PyStr × Json) → List (PyStr × Json)
  | [] => []
  | (k, v) :: rest => (k, normalize v) :: normalizeMembers rest

end

/-- `_json`: the text with sorted member names. -/
def json (value : Json) : PyStr := dumps (sortKeys value)

/-- `value[key] = v` on a `dict`: a new member goes to the end. -/
def setMember : List (PyStr × Json) → PyStr → Json → List (PyStr × Json)
  | [], key, v => [(key, v)]
  | (k, w) :: rest, key, v =>
    if k = key then (k, v) :: rest else (k, w) :: setMember rest key v

/-- `value[key] = v` -/
def setItem (j : Json) (key : String) (v : Json) : Json :=
  match j with
  | .obj members => .obj (setMember members (py key) v)
  | _ => j

/-- `values.sort(key=lambda v: v[key])`, which is stable. -/
def sortBy (key : String) (values : List Json) : Except PyExc (List Json) := do
  let keyed ← values.mapM fun v => do return (← strItem v key, v)
  return (keyed.insertionSort fun a b => a.1 ≤ b.1).map (·.2)

/-! ## Reading fields at their types -/

def intItem (j : Json) (key : String) : Except PyExc ℤ := do
  match ← item j key with
  | .int n => .ok n
  | _ => .error .typeError

def boolItem (j : Json) (key : String) : Except PyExc Bool := do
  match ← item j key with
  | .bool b => .ok b
  | _ => .error .typeError

def pyNumItem (j : Json) (key : String) : Except PyExc PyNum := do
  match ← item j key with
  | .int n => .ok (.int n)
  | .float q => .ok (.float q)
  | _ => .error .typeError

/-- `value.get(key)`, for a string member. -/
def optStrItem (j : Json) (key : String) : Except PyExc (Option PyStr) :=
  match j.get? (py key) with
  | none => .ok none
  | some v => (asStr v).map some

/-! ## Devices -/

/-- The address of a point of one protocol. -/
def pointAddress (p : Json) (protocol : PyStr) :
    Except PyExc (Option ModbusAddress × Option OpcUaAddress) := do
  if protocol = py "opcua" then
    return (none, some ⟨← strItem (← item p "opcua") "nodeId"⟩)
  else
    let m ← item p "modbus"
    return (some ⟨← strItem m "area", ← intItem m "address", ← optStrItem m "byteOrder"⟩, none)

/-- `_point` -/
def point (p : Json) (protocol : PyStr) : Except PyExc PointConfig := do
  let (modbus, opcua) ← pointAddress p protocol
  return { pointId := ← strItem p "pointId", name := ← strItem p "name",
           enabled := ← boolItem p "enabled", dataType := ← strItem p "dataType",
           pollIntervalMs := ← intItem p "pollIntervalMs", scale := ← pyNumItem p "scale",
           offset := ← pyNumItem p "offset", unit := ← optStrItem p "unit",
           reportMode := ← strItem p "reportMode",
           reportIntervalMs := ← intItem p "reportIntervalMs",
           deadband := ← pyNumItem p "deadband", staleAfterMs := ← intItem p "staleAfterMs",
           modbus, opcua }

/-- `_connection` -/
def connection (c : Json) (protocol : PyStr) : Except PyExc ConnectionConfig := do
  let host ← strItem c "host"
  let port ← intItem c "port"
  let connectTimeoutMs ← intItem c "connectTimeoutMs"
  let requestTimeoutMs ← intItem c "requestTimeoutMs"
  let retryCount ← intItem c "retryCount"
  if protocol = py "opcua" then
    return { host, port, unitId := none, connectTimeoutMs, requestTimeoutMs, retryCount,
             path := some (← strItem c "path"),
             securityPolicy := some (← strItem c "securityPolicy"),
             securityMode := some (← strItem c "securityMode"),
             username := ← optStrItem c "username", passwordEnv := ← optStrItem c "passwordEnv" }
  else
    return { host, port, unitId := some (← intItem c "unitId"), connectTimeoutMs,
             requestTimeoutMs, retryCount }

/-- `_device` -/
def device (d : Json) : Except PyExc DeviceConfig := do
  let protocol ← strItem d "protocol"
  return { deviceId := ← strItem d "deviceId", name := ← strItem d "name",
           enabled := ← boolItem d "enabled", protocol,
           connection := ← connection (← item d "connection") protocol,
           points := ← (← listItem d "points").mapM fun p => point p protocol }

/-! ## `ConfigSnapshot.parse` -/

/-- The points of a device in the order of their ids. -/
def sortPoints (d : Json) : Except PyExc Json := do
  return setItem d "points" (.arr (← sortBy "pointId" (← listItem d "points")))

/-- The configuration with its devices, and their points, in order. -/
def sortDevices (config : Json) : Except PyExc Json := do
  let devices ← sortBy "deviceId" (← listItem config "devices")
  return setItem config "devices" (.arr (← devices.mapM sortPoints))

/-- The snapshot of a normalised message. -/
def snapshotOf (wire : Json) (text : PyStr) : Except PyExc ConfigSnapshot := do
  let config ← sortDevices (← item wire "config")
  let report ← item config "report"
  return { gatewayId := ← strItem wire "gatewayId", messageId := ← strItem wire "messageId",
           configVersion := ← intItem wire "configVersion", timestamp := ← intItem wire "timestamp",
           enabled := ← boolItem config "enabled",
           report := ⟨← intItem report "batchIntervalMs", ← intItem report "maxBatchPoints"⟩,
           devices := ← (← listItem config "devices").mapM device,
           contentJson := json config, wireJson := text }

/-- `json.loads(payload.decode('utf-8'))`, with the text. -/
def decodeText (payload : Bytes) : Except PyExc (PyStr × Json) :=
  match utf8Decode payload with
  | none => .error .unicodeDecodeError
  | some text =>
    match loads text with
    | none => .error .jsonDecodeError
    | some message => .ok (text, message)

variable [JsonSchema]

/-- `ConfigSnapshot.parse` -/
def ConfigSnapshot.parse (payload : Bytes) (gatewayId : PyStr) :
    Except ConfigExc ConfigSnapshot := do
  let issues ← lift (validateMessage .configSet payload gatewayId)
  if issues ≠ [] then
    throw (.validation issues)
  let (text, message) ← lift (decodeText payload)
  lift (snapshotOf (normalize message) text)

end PlcnextIot.Config
