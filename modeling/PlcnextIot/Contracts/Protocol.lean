/-
  PlcnextIot.Contracts.Protocol

  `contracts/v1/protocol.schema.json`: every definition of the versioned
  schema, in the order of the file, and the message kinds of `topics.json`.
-/

import PlcnextIot.Contracts.Schema

namespace PlcnextIot.Contracts

open PlcnextIot.Python Schema

/-- 2^53 - 1, the largest integer every JSON peer reads exactly. -/
def maxSafe : ℤ := 9007199254740991

/-! ## Patterns -/

def isAlnum (c : Nat) : Bool :=
  isDigit c || (0x41 ≤ c && c ≤ 0x5A) || (0x61 ≤ c && c ≤ 0x7A)

/-- One of the characters of a literal. -/
def oneOf (cs : String) (c : Nat) : Bool := (py cs).contains c

/-- `first rest*`, to the end of the string. -/
def headTail (first rest : Nat → Bool) : PyStr → Bool
  | [] => false
  | c :: cs => first c && cs.all rest

/-- `^...$`: the end may be just before a final newline. -/
def beforeNewline (p : PyStr → Bool) (s : PyStr) : Bool :=
  p s || (s.getLast? == some 0x0A && p s.dropLast)

/-- `[A-Za-z0-9][A-Za-z0-9._-]*`. -/
def idPattern : PyStr → Bool := headTail isAlnum fun c => isAlnum c || oneOf "._-" c

/-- `ID.fullmatch`: the identity pattern with its length bound. -/
def isId (s : PyStr) : Bool := idPattern s && s.length ≤ 64

def hostPattern : PyStr → Bool := headTail isAlnum fun c => isAlnum c || oneOf ".:-" c

/-- `(|/.*)`. -/
def pointerPattern : PyStr → Bool := beforeNewline fun s =>
  match s with
  | [] => true
  | c :: cs => c == '/'.toNat && cs.all (· != 0x0A)

/-- `(/[A-Za-z0-9._~-]+)*/?`: no empty segment but the last. -/
def urlPath : PyStr → Bool
  | [] => true
  | c :: cs => c == '/'.toNat && segments cs
where
  segments : PyStr → Bool
    | [] => true
    | c :: cs => (isAlnum c || oneOf "._~-" c) && inSegment cs
  inSegment : PyStr → Bool
    | [] => true
    | c :: cs =>
      if c == '/'.toNat then
        match cs with
        | [] => true
        | d :: ds => (isAlnum d || oneOf "._~-" d) && inSegment ds
      else (isAlnum c || oneOf "._~-" c) && inSegment cs

def usernamePattern (s : PyStr) : Bool :=
  1 ≤ s.length && s.length ≤ 128 && s.all fun c => isAlnum c || oneOf "._@-" c

def envPattern (s : PyStr) : Bool :=
  s.length ≤ 64 && headTail (fun c => (isAlnum c && !isDigit c) || oneOf "_" c)
    (fun c => isAlnum c || oneOf "_" c) s

def isHex (c : Nat) : Bool := (hexValue c).isSome

/-- A run of `lo`..`hi` characters of a class, to the end of the string. -/
def run (lo hi : Nat) (p : Nat → Bool) (s : PyStr) : Bool :=
  lo ≤ s.length && s.length ≤ hi && s.all p

/-- `[0-9A-Fa-f]{8}(-[0-9A-Fa-f]{4}){3}-[0-9A-Fa-f]{12}`. -/
def guidPattern (s : PyStr) : Bool :=
  s.length == 36 && s.zipIdx.all fun (c, i) =>
    if i == 8 || i == 13 || i == 18 || i == 23 then c == '-'.toNat else isHex c

/-- The identifier part of an OPC UA node id. -/
def nodeIdentifier : PyStr → Bool
  | t :: e :: body =>
    e == '='.toNat &&
      (if t == 'i'.toNat then run 1 10 isDigit body
       else if t == 's'.toNat then run 1 200 (fun c => isAlnum c || oneOf "._~%+/-" c) body
       else if t == 'g'.toNat then guidPattern body
       else t == 'b'.toNat && run 4 256 (fun c => isAlnum c || oneOf "+/=" c) body)
  | _ => false

/-- The optional `ns=[0-9]{1,5};` in front of it. -/
def nodeIdPattern (s : PyStr) : Bool :=
  nodeIdentifier s ||
    (s.take 3 == py "ns=" &&
      let digits := (s.drop 3).takeWhile isDigit
      let rest := (s.drop 3).dropWhile isDigit
      1 ≤ digits.length && digits.length ≤ 5 && rest.head? == some ';'.toNat
        && nodeIdentifier rest.tail)

/-! ## Shared definitions -/

namespace Protocol

def id : Schema := matching 1 64 idPattern

/-- An integer within 0..2^53-1. -/
def safeInt : Schema := range 0 maxSafe

def positiveInt : Schema := range 1 maxSafe

def errorCodes : List String :=
  ["SCHEMA_INVALID", "INVALID_JSON", "PAYLOAD_TOO_LARGE", "GATEWAY_MISMATCH",
   "DUPLICATE_DEVICE_ID", "DUPLICATE_POINT_ID", "DUPLICATE_NODE_ID", "INVALID_ADDRESS",
   "INVALID_STALE_INTERVAL", "POINT_LIMIT_EXCEEDED", "VERSION_CONFLICT", "STALE_VERSION",
   "RESOURCE_LIMIT", "STORAGE_ERROR", "APPLY_FAILED", "UNKNOWN_CONFIG_VERSION",
   "UNKNOWN_DEVICE", "UNKNOWN_POINT", "EXPIRED_DATA", "INVALID_TIMESTAMP", "DUPLICATE_VALUE"]

/-- `error`, and `patchError` with its further codes. -/
def errorItem (codes : List String) : Schema :=
  record ["code", "path", "message"]
    [("code", enum codes), ("path", allOf [string, maxLength 512, pattern pointerPattern]),
     ("message", text 1 256), ("deviceId", id), ("pointId", id)]

def error : Schema := errorItem errorCodes

def modbus : Schema :=
  record ["area", "address"]
    [("area", enum ["coil", "discrete_input", "holding_register", "input_register"]),
     ("address", range 0 65535),
     ("byteOrder", enum ["AB", "BA", "ABCD", "BADC", "CDAB", "DCBA"])]

def timeouts : List (String × Schema) :=
  [("connectTimeoutMs", range 1 300000), ("requestTimeoutMs", range 1 300000),
   ("retryCount", range 0 10)]

def connection : Schema :=
  strict ([("host", matching 1 253 hostPattern), ("port", range 1 65535),
    ("unitId", range 0 255)] ++ timeouts)

def opcua : Schema := strict [("nodeId", matching 3 256 nodeIdPattern)]

def opcuaConnection : Schema :=
  allOf
    [record ["host", "port", "path", "securityPolicy", "securityMode", "connectTimeoutMs",
        "requestTimeoutMs", "retryCount"]
      ([("host", matching 1 253 hostPattern), ("port", range 1 65535),
        ("path", allOf [string, maxLength 128, pattern (beforeNewline urlPath)]),
        ("securityPolicy", enum ["None", "Basic256Sha256"]),
        ("securityMode", enum ["None", "Sign", "SignAndEncrypt"]),
        ("username", matching 1 128 usernamePattern),
        ("passwordEnv", matching 1 64 envPattern)] ++ timeouts),
     implies (required ["username"]) (required ["passwordEnv"]),
     implies (required ["passwordEnv"]) (required ["username"]),
     implies (allOf [property "securityPolicy" (constStr "None"), required ["securityPolicy"]])
       (property "securityMode" (constStr "None")),
     implies (allOf [property "securityPolicy" (constStr "Basic256Sha256"),
         required ["securityPolicy"]])
       (property "securityMode" (enum ["Sign", "SignAndEncrypt"]))]

/-- The members `opcuaPoint` and `point` share; `address` is their own. -/
def pointRecord (address : String × Schema) : Schema :=
  record ["pointId", "name", "enabled", "dataType", "pollIntervalMs", "scale", "offset",
      "reportMode", "reportIntervalMs", "deadband", "staleAfterMs", address.1]
    [("pointId", id), ("name", text 1 128), ("enabled", boolean),
     ("dataType", enum ["bool", "int16", "uint16", "int32", "uint32", "float32"]),
     ("pollIntervalMs", range 1 86400000), ("scale", isNumber), ("offset", isNumber),
     ("unit", text 0 32), ("reportMode", enum ["cyclic", "change", "change_or_cyclic"]),
     ("reportIntervalMs", range 1 86400000), ("deadband", allOf [isNumber, minimum 0]),
     ("staleAfterMs", range 1 86400000), address]

/-- A boolean is neither scaled nor dead-banded. -/
def boolPoint : Schema :=
  properties [("scale", constNum 1), ("offset", constNum 0), ("deadband", constNum 0)]

def isBoolPoint : Schema :=
  allOf [property "dataType" (constStr "bool"), required ["dataType"]]

def opcuaPoint : Schema :=
  allOf [pointRecord ("opcua", opcua), implies isBoolPoint boolPoint]

/-- Register points name a byte order of their width. -/
def registerPoint (orders : List String) : Schema :=
  property "modbus" (allOf [required ["byteOrder"],
    properties [("area", enum ["holding_register", "input_register"]),
      ("byteOrder", enum orders)]])

def point : Schema :=
  allOf
    [pointRecord ("modbus", modbus),
     implies isBoolPoint (allOf [boolPoint,
       property "modbus" (allOf [property "area" (enum ["coil", "discrete_input"]),
         neg (required ["byteOrder"])])]),
     implies (property "dataType" (enum ["int16", "uint16"])) (registerPoint ["AB", "BA"]),
     implies (property "dataType" (enum ["int32", "uint32", "float32"]))
       (registerPoint ["ABCD", "BADC", "CDAB", "DCBA"])]

/-- What a device of one protocol has to be. -/
def deviceOf (protocol : String) (conn pt : Schema) : Schema :=
  implies (allOf [property "protocol" (constStr protocol), required ["protocol"]])
    (properties [("connection", conn), ("points", items pt)])

def device : Schema :=
  allOf
    [strict [("deviceId", id), ("name", text 1 128), ("enabled", boolean),
       ("protocol", enum ["modbus_tcp", "opcua"]), ("connection", fun _ => true),
       ("points", allOf [array, maxItems 2000, minItems 0])],
     deviceOf "modbus_tcp" connection point,
     deviceOf "opcua" opcuaConnection opcuaPoint]

def report : Schema :=
  strict [("batchIntervalMs", range 1 86400000), ("maxBatchPoints", range 1 500)]

/-! ## Messages -/

/-- What every message starts with. -/
def header : List (String × Schema) :=
  [("schemaVersion", constNum 1), ("gatewayId", id), ("timestamp", safeInt)]

def configSet : Schema :=
  strict (header ++ [("messageId", id), ("configVersion", positiveInt),
    ("config", strict [("enabled", boolean), ("report", report),
      ("devices", list 0 50 device)])])

/-- `errors` is empty exactly for one status. -/
def errorsUnless (status : String) : Schema :=
  cond (allOf [property "status" (constStr status), required ["status"]])
    (property "errors" (maxItems 0)) (property "errors" (minItems 1))

def configAck : Schema :=
  allOf [strict (header ++ [("messageId", id), ("configVersion", positiveInt),
      ("activeConfigVersion", safeInt), ("status", enum ["APPLIED", "REJECTED", "FAILED"]),
      ("errors", list 0 32 error)]),
    errorsUnless "APPLIED"]

def configGet : Schema :=
  record ["schemaVersion", "gatewayId", "timestamp", "messageId", "activeConfigVersion",
      "sessionId"]
    (header ++ [("messageId", id), ("activeConfigVersion", safeInt), ("sessionId", id),
      ("configCapabilities", list 0 1 (enum ["devicePatchV1"])),
      ("activeMessageId", anyOf [id, null])])

def value : Schema :=
  allOf [record ["deviceId", "pointId", "value", "quality", "timestamp"]
      [("deviceId", id), ("pointId", id), ("value", anyOf [isNumber, boolean, null]),
       ("quality", enum ["GOOD", "BAD_TIMEOUT", "BAD_CONNECTION", "BAD_PROTOCOL", "BAD_DECODE",
         "BAD_CONFIGURATION", "STALE", "UNKNOWN"]),
       ("timestamp", safeInt), ("sourceTimestamp", anyOf [safeInt, null])],
    cond (allOf [property "quality" (constStr "GOOD"), required ["quality"]])
      (property "value" (anyOf [isNumber, boolean])) (property "value" null)]

def data : Schema :=
  strict (header ++ [("messageId", id), ("bootId", id), ("sequence", positiveInt),
    ("configVersion", positiveInt), ("values", list 1 500 value)])

def dataAck : Schema :=
  allOf [strict (header ++ [("messageId", id), ("status", enum ["STORED", "REJECTED"]),
      ("errors", list 0 32 error)]),
    errorsUnless "STORED"]

def status : Schema :=
  allOf
    [strict [("schemaVersion", constNum 1), ("gatewayId", id),
       ("timestamp", anyOf [safeInt, null]), ("sessionId", id), ("online", boolean),
       ("reason", enum ["connected", "shutdown", "connection_lost"])],
     cond (allOf [property "reason" (constStr "connection_lost"), required ["reason"]])
       (properties [("timestamp", null), ("online", constBool false)])
       (property "timestamp" safeInt),
     cond (allOf [property "reason" (constStr "connected"), required ["reason"]])
       (property "online" (constBool true)) (property "online" (constBool false))]

def deviceState : Schema :=
  strict [("deviceId", id),
    ("status", enum ["DISABLED", "CONNECTING", "ONLINE", "DEGRADED", "OFFLINE"]),
    ("lastError", anyOf [null, text 1 256]), ("lastGoodTimestamp", anyOf [safeInt, null])]

def deviceStatus : Schema :=
  strict (header ++ [("sessionId", id), ("configVersion", positiveInt),
    ("device", deviceState)])

def heartbeat : Schema :=
  strict (header ++ [("sessionId", id), ("bootId", id), ("agentVersion", text 1 64),
    ("activeConfigVersion", safeInt), ("uptimeSeconds", safeInt),
    ("agentState", enum ["WAITING_CONFIG", "RUNNING", "DISABLED"]),
    ("devices", list 0 50 deviceState),
    ("points", strict [("total", range 0 2000), ("good", range 0 2000), ("bad", range 0 2000)]),
    ("queue", strict [("batches", safeInt), ("payloadBytes", safeInt),
      ("droppedBatches", safeInt)])])

def event : Schema :=
  record ["schemaVersion", "gatewayId", "timestamp", "messageId", "sessionId",
      "activeConfigVersion", "level", "code", "message"]
    (header ++ [("messageId", id), ("sessionId", id), ("activeConfigVersion", safeInt),
      ("level", enum ["INFO", "WARNING", "ERROR"]),
      ("code", enum ["CONFIG_REJECTED", "CONFIG_APPLY_FAILED", "DATA_DROPPED",
        "STORAGE_ERROR", "DATA_REJECTED", "CLOCK_SKEW", "RESOURCE_LIMIT"]),
      ("message", text 1 256), ("deviceId", id), ("pointId", id)])

/-- A patch operation carries a device unless it removes one. -/
def operation : Schema :=
  allOf [record ["op", "deviceId"]
      [("op", enum ["add", "replace", "remove"]), ("deviceId", id), ("device", device)],
    cond (allOf [property "op" (constStr "remove"), required ["op"]])
      (neg (required ["device"])) (required ["device"])]

def configPatch : Schema :=
  allOf
    [record ["schemaVersion", "gatewayId", "timestamp", "messageId", "configVersion",
        "baseConfigVersion", "baseMessageId", "operations"]
      (header ++ [("messageId", id), ("configVersion", positiveInt),
        ("baseConfigVersion", safeInt), ("baseMessageId", anyOf [id, null]),
        ("operations", list 0 50 operation),
        ("gateway", allOf [record [] [("enabled", boolean), ("report", report)],
          minProperties 1])]),
     cond (allOf [property "baseConfigVersion" (constNum 0), required ["baseConfigVersion"]])
       (allOf [required ["gateway"], properties [("baseMessageId", null),
         ("gateway", required ["enabled", "report"])]])
       (property "baseMessageId" id),
     anyOf [property "operations" (minItems 1), required ["gateway"]]]

def patchError : Schema :=
  errorItem (errorCodes ++
    ["BASE_CONFIG_MISMATCH", "DEVICE_EXISTS", "DEVICE_NOT_FOUND", "OPERATION_CONFLICT"])

def configPatchAck : Schema :=
  allOf
    [strict (header ++ [("messageId", id), ("configVersion", positiveInt),
       ("activeConfigVersion", safeInt), ("status", enum ["APPLIED", "REJECTED", "FAILED"]),
       ("errors", list 0 32 patchError),
       ("appliedConfigVersion", anyOf [positiveInt, null]),
       ("activeMessageId", anyOf [id, null])]),
     errorsUnless "APPLIED",
     cond (allOf [property "status" (constStr "APPLIED"), required ["status"]])
       (property "appliedConfigVersion" (allOf [integer, minimum 1]))
       (property "appliedConfigVersion" null)]

def timeRequest : Schema :=
  strict [("schemaVersion", allOf [integer, constNum 1]), ("gatewayId", id), ("requestId", id),
    ("bootId", id), ("sessionId", id), ("clientMonoMs", safeInt)]

def timeResponse : Schema :=
  strict [("schemaVersion", allOf [integer, constNum 1]), ("gatewayId", id), ("requestId", id),
    ("bootId", id), ("sessionId", id), ("clientMonoMs", safeInt),
    ("serverReceivedAt", safeInt), ("serverSentAt", safeInt)]

end Protocol

/-! ## Kinds -/

/-- The message kinds of `topics.json`. -/
inductive Kind where
  | configSet | configAck | configGet | data | dataAck | status | heartbeat | deviceStatus
  | event | configPatch | configPatchAck | timeRequest | timeResponse
  deriving DecidableEq, Repr

/-- `maxPayloadBytes`. -/
def Kind.maxPayloadBytes : Kind → Nat
  | .configSet | .configPatch => 2097152
  | .timeRequest | .timeResponse => 2048
  | _ => 131072

/-- The definition a kind refers to. -/
def Kind.schema : Kind → Schema
  | .configSet => Protocol.configSet
  | .configAck => Protocol.configAck
  | .configGet => Protocol.configGet
  | .data => Protocol.data
  | .dataAck => Protocol.dataAck
  | .status => Protocol.status
  | .heartbeat => Protocol.heartbeat
  | .deviceStatus => Protocol.deviceStatus
  | .event => Protocol.event
  | .configPatch => Protocol.configPatch
  | .configPatchAck => Protocol.configPatchAck
  | .timeRequest => Protocol.timeRequest
  | .timeResponse => Protocol.timeResponse

/-- The value conforms to the definition of its kind. -/
def conforms (k : Kind) (j : Json) : Bool := k.schema j

end PlcnextIot.Contracts
