/-
  PlcnextIot.Contracts.Validate

  `contracts.py`: `validate_message` and the cross-field rules that the schema
  cannot state.

  Python code raises on a missing member or on an operand of the wrong type, so
  everything here runs in `Except PyExc`; that a conforming message never
  raises is a theorem of `Contracts.Sound`, not an assumption of the model.
  The schema library (`jsonschema`) is a parameter: which errors it lists, and
  in which order, is its own affair, but it lists none exactly for the values
  that conform.
-/

import PlcnextIot.Contracts.Protocol

namespace PlcnextIot.Contracts

open PlcnextIot.Python

/-- The Python exceptions that can leave the modelled code. -/
inductive PyExc where
  | keyError
  | typeError
  | unicodeEncodeError
  | unicodeDecodeError
  | jsonDecodeError
  deriving DecidableEq, Repr

structure Issue where
  code : PyStr
  path : PyStr
  message : PyStr
  deriving DecidableEq, Repr

/-- A step of a JSON path: a member name or an array index. -/
inductive PathPart where
  | key (k : PyStr)
  | index (n : Nat)
  deriving DecidableEq, Repr

/-- `jsonschema.Draft202012Validator`: the path and the failed keyword of each
    error, in the order of `iter_errors`. -/
class JsonSchema where
  iterErrors : Kind → Json → List (List PathPart × PyStr)
  iterErrors_eq_nil : ∀ k j, iterErrors k j = [] ↔ conforms k j = true

/-- A schema library that names one error, at the root of the message. -/
@[reducible] def JsonSchema.atRoot : JsonSchema where
  iterErrors k j := if conforms k j then [] else [([], py "type")]
  iterErrors_eq_nil k j := by split <;> simp [*]

/-! ## Reading values as Python does -/

/-- `value[key]` -/
def item (j : Json) (key : String) : Except PyExc Json :=
  match j with
  | .obj members =>
    match members.lookup (py key) with
    | some v => .ok v
    | none => .error .keyError
  | _ => .error .typeError

/-- `key in value`, for an object. -/
def hasKey (j : Json) (key : String) : Bool := (j.get? (py key)).isSome

/-- The items of a list. -/
def elements : Json → Except PyExc (List Json)
  | .arr js => .ok js
  | _ => .error .typeError

/-- A string operand. -/
def asStr : Json → Except PyExc PyStr
  | .str s => .ok s
  | _ => .error .typeError

/-- A number operand; a `bool` is the number 0 or 1. -/
def asNum : Json → Except PyExc ℚ
  | .int n => .ok n
  | .float q => .ok q
  | .negZero => .ok 0
  | .bool b => .ok (if b then 1 else 0)
  | _ => .error .typeError

/-- `type(value) is int`. -/
def isIntToken : Json → Bool
  | .int _ => true
  | _ => false

/-- The string a member holds. -/
def strItem (j : Json) (key : String) : Except PyExc PyStr := do asStr (← item j key)

/-- The number a member holds. -/
def numItem (j : Json) (key : String) : Except PyExc ℚ := do asNum (← item j key)

/-- The list a member holds. -/
def listItem (j : Json) (key : String) : Except PyExc (List Json) := do elements (← item j key)

/-- `str(n)` -/
def indexText (n : Nat) : PyStr := intText n

/-- `str(part).replace('~', '~0').replace('/', '~1')` -/
def escapePart : PathPart → PyStr
  | .key k => k.flatMap fun c =>
    if c = '~'.toNat then py "~0" else if c = '/'.toNat then py "~1" else [c]
  | .index n => indexText n

def pointer (parts : List PathPart) : PyStr :=
  parts.flatMap fun part => py "/" ++ escapePart part

/-! ## Configuration rules -/

/-- One point of `_config_issues`; the sets seen so far in the device. -/
structure PointScan where
  issues : List Issue := []
  points : List PyStr := []
  nodeIds : List PyStr := []

def widePointTypes : List PyStr := [py "int32", py "uint32", py "float32"]

/-- The address rule of a Modbus point. -/
def addressIssues (pp : PyStr) (point : Json) : Except PyExc (List Issue) := do
  let dataType ← strItem point "dataType"
  let width : ℚ := if widePointTypes.contains dataType then 2 else 1
  let address ← numItem (← item point "modbus") "address"
  return if 65535 < address + width - 1 then
    [⟨py "INVALID_ADDRESS", pp ++ py "/modbus/address",
      py "Complete value width exceeds the address range."⟩]
  else []

def pointIssues (dp : PyStr) (protocol : PyStr) (scan : PointScan) (entry : Json × Nat) :
    Except PyExc PointScan := do
  let (point, pi) := entry
  let pp := dp ++ py "/points/" ++ indexText pi
  let pointId ← strItem point "pointId"
  let duplicate : List Issue :=
    if scan.points.contains pointId then
      [⟨py "DUPLICATE_POINT_ID", pp ++ py "/pointId",
        py "Point identity must be unique within its child device."⟩]
    else []
  let staleAfter ← numItem point "staleAfterMs"
  let pollInterval ← numItem point "pollIntervalMs"
  let stale : List Issue :=
    if staleAfter < pollInterval then
      [⟨py "INVALID_STALE_INTERVAL", pp ++ py "/staleAfterMs",
        py "Stale interval cannot be shorter than polling interval."⟩]
    else []
  let points := pointId :: scan.points
  if protocol = py "modbus_tcp" then
    let address ← addressIssues pp point
    return ⟨scan.issues ++ duplicate ++ stale ++ address, points, scan.nodeIds⟩
  else if protocol = py "opcua" then
    let nodeId ← strItem (← item point "opcua") "nodeId"
    let node : List Issue :=
      if scan.nodeIds.contains nodeId then
        [⟨py "DUPLICATE_NODE_ID", pp ++ py "/opcua/nodeId",
          py "OPC UA node identity must be unique within its child device."⟩]
      else []
    return ⟨scan.issues ++ duplicate ++ stale ++ node, points, nodeId :: scan.nodeIds⟩
  else
    return ⟨scan.issues ++ duplicate ++ stale, points, scan.nodeIds⟩

structure DeviceScan where
  issues : List Issue := []
  devices : List PyStr := []
  total : Nat := 0

def deviceIssues (scan : DeviceScan) (entry : Json × Nat) : Except PyExc DeviceScan := do
  let (device, di) := entry
  let dp := py "/config/devices/" ++ indexText di
  let deviceId ← strItem device "deviceId"
  let duplicate : List Issue :=
    if scan.devices.contains deviceId then
      [⟨py "DUPLICATE_DEVICE_ID", dp ++ py "/deviceId",
        py "Child device identity must be unique within the PLC."⟩]
    else []
  let points ← listItem device "points"
  -- `protocol` is read per point, so a device without points never reads it.
  let inner ← match points with
    | [] => pure ({} : PointScan)
    | _ => do
      let protocol ← strItem device "protocol"
      points.zipIdx.foldlM (pointIssues dp protocol) {}
  return ⟨scan.issues ++ duplicate ++ inner.issues, deviceId :: scan.devices,
    scan.total + points.length⟩

/-- `_config_issues`, on the list of devices of a configuration. -/
def configIssues (devices : List Json) : Except PyExc (List Issue) := do
  let scan ← devices.zipIdx.foldlM deviceIssues {}
  return scan.issues ++
    (if 2000 < scan.total then
      [⟨py "POINT_LIMIT_EXCEEDED", py "/config/devices",
        py "Total configured points exceed the PLC limit."⟩]
    else [])

/-! ## Patch rules -/

/-- `path.replace('/config/devices/0', target)`; the prefix occurs once. -/
def rebase (target path : PyStr) : PyStr :=
  let source := py "/config/devices/0"
  if source.isPrefixOf path then target ++ path.drop source.length else path

def operationIssues (scan : List Issue × List PyStr) (entry : Json × Nat) :
    Except PyExc (List Issue × List PyStr) := do
  let (operation, index) := entry
  let path := py "/operations/" ++ indexText index
  let deviceId ← strItem operation "deviceId"
  let repeated : List Issue :=
    if scan.2.contains deviceId then
      [⟨py "OPERATION_CONFLICT", path ++ py "/deviceId",
        py "One operation per device is required."⟩]
    else []
  if hasKey operation "device" then
    let device ← item operation "device"
    let mismatch : List Issue :=
      if (← strItem device "deviceId") ≠ deviceId then
        [⟨py "OPERATION_CONFLICT", path ++ py "/device/deviceId",
          py "Operation and device identity differ."⟩]
      else []
    let inner ← configIssues [device]
    return (scan.1 ++ repeated ++ mismatch
      ++ inner.map fun i => ⟨i.code, rebase (path ++ py "/device") i.path, i.message⟩,
      deviceId :: scan.2)
  else return (scan.1 ++ repeated, deviceId :: scan.2)

def patchIssues (message : Json) : Except PyExc (List Issue) := do
  if (← numItem message "configVersion") ≤ (← numItem message "baseConfigVersion") then
    return [⟨py "STALE_VERSION", py "/configVersion",
      py "Target version must exceed its base."⟩]
  let scan ← (← listItem message "operations").zipIdx.foldlM operationIssues ([], [])
  return scan.1

/-! ## The remaining kinds -/

/-- The time messages admit integer tokens only, not 1.0. -/
def timeIssues (keys : List String) (message : Json) : Except PyExc (List Issue) := do
  let bad ← keys.filterM fun k => do return !isIntToken (← item message k)
  return bad.map fun k => ⟨py "SCHEMA_INVALID", py "/" ++ py k, py "Expected an integer token."⟩

def activeIdentityIssues (message : Json) : Except PyExc (List Issue) := do
  let version ← numItem message "activeConfigVersion"
  let active ← item message "activeMessageId"
  return if (version = 0) ≠ (active = .null) then
    [⟨py "ACK_VERSION_MISMATCH", py "/activeMessageId",
      py "The active message identity must match configured state."⟩]
  else []

def configPatchAckIssues (message : Json) : Except PyExc (List Issue) := do
  if (← strItem message "status") = py "APPLIED" then
    let applied ← numItem message "appliedConfigVersion"
    if applied ≠ (← numItem message "configVersion")
        ∨ (← numItem message "activeConfigVersion") < applied then
      return [⟨py "ACK_VERSION_MISMATCH", py "/appliedConfigVersion",
        py "APPLIED must identify a committed requested version."⟩]
  activeIdentityIssues message

def configAckIssues (message : Json) : Except PyExc (List Issue) := do
  if (← strItem message "status") = py "APPLIED" then
    if (← numItem message "configVersion") ≠ (← numItem message "activeConfigVersion") then
      return [⟨py "ACK_VERSION_MISMATCH", py "/activeConfigVersion",
        py "APPLIED must report the requested version."⟩]
  return []

/-- The first repeated device/point identity of a batch. -/
def duplicateValue : List (PyStr × PyStr) → List (Json × Nat) → Except PyExc (List Issue)
  | _, [] => return []
  | seen, (value, index) :: rest => do
    let key := (← strItem value "deviceId", ← strItem value "pointId")
    if seen.contains key then
      return [⟨py "DUPLICATE_VALUE", py "/values/" ++ indexText index,
        py "A batch contains a repeated device/point identity."⟩]
    duplicateValue (key :: seen) rest

def dataIssues (message : Json) : Except PyExc (List Issue) := do
  duplicateValue [] (← listItem message "values").zipIdx

def heartbeatIssues (message : Json) : Except PyExc (List Issue) := do
  let counts ← item message "points"
  let countIssues : List Issue :=
    if (← numItem counts "good") + (← numItem counts "bad") ≠ (← numItem counts "total") then
      [⟨py "INCONSISTENT_COUNTS", py "/points", py "Good plus bad must equal total."⟩]
    else []
  let waiting := (← strItem message "agentState") = py "WAITING_CONFIG"
  let stateIssues : List Issue :=
    if waiting ≠ ((← numItem message "activeConfigVersion") = 0) then
      [⟨py "INCONSISTENT_STATE", py "/agentState",
        py "Only an unconfigured agent can be WAITING_CONFIG."⟩]
    else []
  let devices ← listItem message "devices"
  let idleIssues : List Issue :=
    if waiting ∧ (devices ≠ [] ∨ (← numItem counts "total") ≠ 0) then
      [⟨py "INCONSISTENT_STATE", py "/devices",
        py "An unconfigured agent cannot report configured devices or points."⟩]
    else []
  let ids ← devices.mapM fun d => strItem d "deviceId"
  let idIssues : List Issue :=
    if ids.dedup.length ≠ ids.length then
      [⟨py "DUPLICATE_DEVICE_ID", py "/devices", py "Repeated device status identity."⟩]
    else []
  return countIssues ++ stateIssues ++ idleIssues ++ idIssues

/-- `_semantic_issues` -/
def semanticIssues (kind : Kind) (message : Json) : Except PyExc (List Issue) :=
  match kind with
  | .timeRequest => timeIssues ["schemaVersion", "clientMonoMs"] message
  | .timeResponse =>
    timeIssues ["schemaVersion", "clientMonoMs", "serverReceivedAt", "serverSentAt"] message
  | .configSet => do configIssues (← listItem (← item message "config") "devices")
  | .configPatch => patchIssues message
  | .configPatchAck => configPatchAckIssues message
  | .configGet =>
    if hasKey message "activeMessageId" then activeIdentityIssues message else return []
  | .configAck => configAckIssues message
  | .data => dataIssues message
  | .heartbeat => heartbeatIssues message
  | .dataAck | .status | .deviceStatus | .event => return []

/-! ## `validate_message` -/

def maxIssues : Nat := 32

/-- The depth bound of `_check_depth`. -/
def maxDepth : Nat := 64

/-- Decode, parse and check the nesting; `none` is `INVALID_JSON`. -/
def decodeMessage (payload : Bytes) : Option Json :=
  match (utf8Decode payload).bind loads with
  | some message => if message.height ≤ maxDepth then some message else none
  | none => none

variable [JsonSchema]

/-- The issues of a decoded message. -/
def messageIssues (kind : Kind) (message : Json) (expectedGatewayId : PyStr) :
    Except PyExc (List Issue) := do
  match (JsonSchema.iterErrors kind message).take maxIssues with
  | e :: es =>
    return (e :: es).map fun err =>
      ⟨py "SCHEMA_INVALID", pointer err.1, py "Schema constraint failed: " ++ err.2 ++ py "."⟩
  | [] =>
    if (← item message "gatewayId") ≠ .str expectedGatewayId then
      return [⟨py "GATEWAY_MISMATCH", py "/gatewayId",
        py "Gateway differs from the trusted context."⟩]
    return (← semanticIssues kind message).take maxIssues

/-- `validate_message`, for a caller that names its gateway. -/
def validateMessage (kind : Kind) (payload : Bytes) (expectedGatewayId : PyStr) :
    Except PyExc (List Issue) :=
  if kind.maxPayloadBytes < payload.length then
    .ok [⟨py "PAYLOAD_TOO_LARGE", [], py "Payload exceeds the byte limit."⟩]
  else
    match decodeMessage payload with
    | none => .ok [⟨py "INVALID_JSON", [], py "Expected finite, unique-key UTF-8 JSON."⟩]
    | some message => messageIssues kind message expectedGatewayId

end PlcnextIot.Contracts
