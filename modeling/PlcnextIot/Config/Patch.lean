/-
  PlcnextIot.Config.Patch

  `config/patch.py`: a device command is materialised against its exact
  committed base into a complete configuration, which is then validated like
  any other.
-/

import PlcnextIot.Config.Models

namespace PlcnextIot.Config

open PlcnextIot.Python PlcnextIot.Contracts

/-! ## Dictionaries -/

/-- `del d[key]` -/
def eraseMember (members : List (PyStr × Json)) (key : PyStr) : List (PyStr × Json) :=
  members.eraseP (·.1 == key)

/-- `d.update(other)` -/
def updateMembers (members other : List (PyStr × Json)) : List (PyStr × Json) :=
  other.foldl (fun ms m => setMember ms m.1 m.2) members

/-- The members of a `dict`. -/
def membersOf : Json → Except PyExc (List (PyStr × Json))
  | .obj members => .ok members
  | _ => .error .typeError

/-- `{d['deviceId']: d for d in devices}` -/
def byDeviceId (devices : List Json) : Except PyExc (List (PyStr × Json)) :=
  devices.foldlM (fun ms d => do return setMember ms (← strItem d "deviceId") d) []

/-! ## `materialize` -/

/-- The rejection of a command that does not fit its base. -/
def reject {α : Type} (code path : PyStr) : Except ConfigExc α :=
  .error (.validation [⟨code, path, py "Device command cannot be applied to its base."⟩])

/-- `command['baseConfigVersion'] != base_version or command['baseMessageId'] != base_message` -/
def baseDiffers (command : Json) (active : Option ConfigSnapshot) : Except PyExc Bool := do
  let baseVersion : ℚ := (active.map (·.configVersion)).getD 0
  let baseMessage : Json := (active.map fun a => Json.str a.messageId).getD .null
  let version ← numItem command "baseConfigVersion"
  if version ≠ baseVersion then return true
  return (← item command "baseMessageId") ≠ baseMessage

/-- The configuration a command starts from. -/
def baseConfig (active : Option ConfigSnapshot) : Except PyExc (List (PyStr × Json)) :=
  match active with
  | none => .ok [(py "devices", .arr [])]
  | some a =>
    match loads a.contentJson with
    | none => .error .jsonDecodeError
    | some config => membersOf config

/-- `command.get('gateway', {})` -/
def gatewayMembers (command : Json) : Except PyExc (List (PyStr × Json)) :=
  match command.get? (py "gateway") with
  | none => .ok []
  | some gateway => membersOf gateway

/-- One operation on the devices by id. -/
def applyOperation (devices : List (PyStr × Json)) (entry : Json × Nat) :
    Except ConfigExc (List (PyStr × Json)) := do
  let (operation, index) := entry
  let key ← lift (strItem operation "deviceId")
  let op ← lift (strItem operation "op")
  let path := py "/operations/" ++ indexText index ++ py "/deviceId"
  let known := (devices.lookup key).isSome
  if op = py "add" ∧ known then reject (py "DEVICE_EXISTS") path
  else if (op = py "replace" ∨ op = py "remove") ∧ ¬ known then
    reject (py "DEVICE_NOT_FOUND") path
  else if op = py "remove" then return eraseMember devices key
  -- `add` puts a device at the end, `replace` leaves it in its place.
  else return setMember devices key (← lift (item operation "device"))

/-- The members that the complete message takes from the command. -/
def envelopeKeys : List String :=
  ["schemaVersion", "gatewayId", "timestamp", "messageId", "configVersion"]

/-- The complete message around a configuration. -/
def envelope (command : Json) (config : Json) : Except PyExc Json := do
  let members ← envelopeKeys.mapM fun k => do return (py k, ← item command k)
  return .obj (members ++ [(py "config", config)])

/-- The configuration that a command makes of its base. -/
def merged (command : Json) (active : Option ConfigSnapshot) : Except ConfigExc Json := do
  if ← lift (baseDiffers command active) then
    reject (py "BASE_CONFIG_MISMATCH") (py "/baseConfigVersion")
  else
    let config ← lift (baseConfig active)
    let config := updateMembers config (← lift (gatewayMembers command))
    let devices ← lift (byDeviceId (← lift (listItem (.obj config) "devices")))
    let operations ← lift (listItem command "operations")
    let devices ← operations.zipIdx.foldlM applyOperation devices
    return .obj (setMember config (py "devices") (.arr (devices.map (·.2))))

variable [JsonSchema]

/-- `parse_command` -/
def parseCommand (payload : Bytes) (gatewayId : PyStr) : Except ConfigExc Json := do
  let issues ← lift (validateMessage .configPatch payload gatewayId)
  if issues ≠ [] then
    throw (.validation issues)
  let (_, message) ← lift (decodeText payload)
  return message

/-- `materialize` -/
def materialize (command : Json) (active : Option ConfigSnapshot) (gatewayId : PyStr) :
    Except ConfigExc ConfigSnapshot := do
  let config ← merged command active
  let full ← lift (envelope command config)
  match utf8Encode (dumps full) with
  | none => throw (.python .unicodeEncodeError)
  | some payload => ConfigSnapshot.parse payload gatewayId

end PlcnextIot.Config
