/-
  PlcnextIot.Contracts.Sound

  What conformance buys the code that reads a message: every subscript of the
  cross-field rules finds its member, and finds it of the expected type.  So a
  validation of a configuration message returns its issues and never raises.
-/

import PlcnextIot.Contracts.Validate
import PlcnextIot.Effect.Returns

namespace PlcnextIot.Contracts

open PlcnextIot.Python PlcnextIot.Effect Schema

/-! ## Conforming values -/

namespace Schema

variable {j v : Json} {s : Schema}

theorem allOf_iff {ss : List Schema} : allOf ss j = true ↔ ∀ s ∈ ss, s j = true := by
  simp [allOf]

theorem text_str {lo hi : Nat} (h : text lo hi v = true) : ∃ t, v = .str t := by
  have h0 : string v = true := allOf_iff.mp h _ (by simp)
  cases v <;> simp [string] at h0
  exact ⟨_, rfl⟩

theorem matching_str {lo hi : Nat} {p : PyStr → Bool} (h : matching lo hi p v = true) :
    ∃ t, v = .str t :=
  text_str (allOf_iff.mp h (text lo hi) (by simp))

theorem enum_str {ss : List String} (h : enum ss v = true) : ∃ t ∈ ss, v = .str (py t) := by
  cases v <;> simp [enum] at h
  obtain ⟨t, ht, rfl⟩ := h
  exact ⟨t, ht, rfl⟩

theorem boolean_bool (h : boolean v = true) : ∃ b, v = .bool b := by
  cases v <;> simp [boolean] at h
  exact ⟨_, rfl⟩

theorem isNumber_num (h : isNumber v = true) : ∃ q, number? v = some q :=
  Option.isSome_iff_exists.mp h

/-- A value of an integer range is a number within its bounds. -/
theorem range_num {lo hi : ℚ} (h : range lo hi v = true) :
    ∃ q, number? v = some q ∧ lo ≤ q ∧ q ≤ hi ∧ integer v = true := by
  have hint : integer v = true := allOf_iff.mp h _ (by simp)
  have hlo : minimum lo v = true := allOf_iff.mp h _ (by simp)
  have hhi : maximum hi v = true := allOf_iff.mp h _ (by simp)
  obtain ⟨q, hq⟩ : ∃ q, number? v = some q := by
    cases v <;> simp [integer, number?] at hint ⊢
  simp only [minimum, maximum, hq, decide_eq_true_eq] at hlo hhi
  exact ⟨q, hq, hlo, hhi, hint⟩

theorem list_arr {lo hi : Nat} (h : list lo hi s v = true) :
    ∃ js, v = .arr js ∧ ∀ x ∈ js, s x = true := by
  have harr : array v = true := allOf_iff.mp h _ (by simp)
  have hitems : items s v = true := allOf_iff.mp h _ (by simp)
  cases v <;> simp [array] at harr
  exact ⟨_, rfl, by simpa [items] using hitems⟩

/-! ## Members of a record -/

theorem item_eq_ok {key : String} : item j key = .ok v ↔ j.get? (py key) = some v := by
  cases j with
  | obj members =>
      simp only [item, Json.get?]
      cases members.lookup (py key) <;> simp
  | _ => simp [item, Json.get?]

theorem record_object {req : List String} {props : List (String × Schema)}
    (h : record req props j = true) : ∃ members, j = .obj members := by
  have hobj : object j = true := allOf_iff.mp h _ (by simp)
  cases j <;> simp [object] at hobj
  exact ⟨_, rfl⟩

/-- A member of a record, where it is there, conforms to its property. -/
theorem record_property {req : List String} {props : List (String × Schema)} {key : String}
    (h : record req props j = true) (hp : (key, s) ∈ props) (hv : j.get? (py key) = some v) :
    s v = true := by
  obtain ⟨members, rfl⟩ := record_object h
  have hprops : properties props (.obj members) = true := allOf_iff.mp h _ (by simp)
  have hprop : property key s (.obj members) = true :=
    allOf_iff.mp hprops _ (List.mem_map.mpr ⟨_, hp, rfl⟩)
  have hlook : members.lookup (py key) = some v := hv
  simpa [property, hlook] using hprop

/-- A required member of a record is there and conforms to its property. -/
theorem record_item {req : List String} {props : List (String × Schema)} {key : String}
    (h : record req props j = true) (hr : key ∈ req) (hp : (key, s) ∈ props) :
    Returns (item j key) fun v => s v = true := by
  obtain ⟨members, rfl⟩ := record_object h
  have hreq : required req (.obj members) = true := allOf_iff.mp h _ (by simp)
  have hsome : (members.lookup (py key)).isSome = true := by
    simp only [required, List.all_eq_true] at hreq
    exact hreq key hr
  obtain ⟨v, hv⟩ := Option.isSome_iff_exists.mp hsome
  exact ⟨v, item_eq_ok.mpr hv, record_property h hp hv⟩

theorem strict_item {props : List (String × Schema)} {key : String} (h : strict props j = true)
    (hp : (key, s) ∈ props) : Returns (item j key) fun v => s v = true :=
  record_item h (List.mem_map.mpr ⟨_, hp, rfl⟩) hp

end Schema

/-! ## Typed reads -/

section Reads

variable {j : Json} {key : String} {s : Schema}

theorem strItem_returns (h : Returns (item j key) fun v => s v = true)
    (hs : ∀ v, s v = true → ∃ t, v = .str t) : Returns (strItem j key) fun _ => True := by
  refine h.bind fun v hv => ?_
  obtain ⟨t, rfl⟩ := hs v hv
  exact .ok trivial

theorem asNum_of_number {v : Json} {q : ℚ} (h : number? v = some q) : asNum v = .ok q := by
  cases v <;> simp [number?] at h <;> subst h <;> rfl

theorem numItem_returns (h : Returns (item j key) fun v => s v = true)
    (hs : ∀ v, s v = true → ∃ q, number? v = some q) : Returns (numItem j key) fun _ => True := by
  refine h.bind fun v hv => ?_
  obtain ⟨q, hq⟩ := hs v hv
  exact ⟨q, asNum_of_number hq, trivial⟩

theorem listItem_returns {P : Json → Prop} (h : Returns (item j key) fun v => s v = true)
    (hs : ∀ v, s v = true → ∃ js, v = .arr js ∧ ∀ x ∈ js, P x) :
    Returns (listItem j key) fun js => ∀ x ∈ js, P x := by
  refine h.bind fun v hv => ?_
  obtain ⟨js, rfl, hjs⟩ := hs v hv
  exact .ok hjs

end Reads

/-! ## Devices and points -/

/-- The point schema of a protocol. -/
def pointFor (protocol : PyStr) : Schema :=
  if protocol = py "opcua" then Protocol.opcuaPoint else Protocol.point

/-- The connection schema of a protocol. -/
def connectionFor (protocol : PyStr) : Schema :=
  if protocol = py "opcua" then Protocol.opcuaConnection else Protocol.connection

/-- A device of a protocol has a connection and points of that protocol. -/
theorem deviceOf_spec {members : List (PyStr × Json)} {protocol : String} {conn pt : Schema}
    (h : Protocol.deviceOf protocol conn pt (.obj members) = true)
    (hp : members.lookup (py "protocol") = some (.str (py protocol))) :
    property "connection" conn (.obj members) = true ∧
      property "points" (items pt) (.obj members) = true := by
  have hcond : allOf [property "protocol" (constStr protocol), required ["protocol"]]
      (.obj members) = true := by
    simp [allOf, property, required, hp, constStr, enum]
  unfold Protocol.deviceOf implies Schema.cond at h
  rw [if_pos hcond] at h
  have hall := allOf_iff.mp h
  exact ⟨hall _ (by simp), hall _ (by simp)⟩

/-- What a conforming device holds for the code that reads it. -/
structure ReadableDevice (d : Json) (protocol : PyStr) : Prop where
  known : protocol = py "modbus_tcp" ∨ protocol = py "opcua"
  deviceId : Returns (strItem d "deviceId") fun _ => True
  name : Returns (strItem d "name") fun _ => True
  enabled : Returns (item d "enabled") fun v => boolean v = true
  connection : Returns (item d "connection") fun v => connectionFor protocol v = true
  points : Returns (listItem d "points") fun ps => ∀ p ∈ ps, pointFor protocol p = true

theorem device_readable {d : Json} (h : Protocol.device d = true) :
    Returns (strItem d "protocol") (ReadableDevice d) := by
  have hall := allOf_iff.mp h
  have hstrict := hall _ (List.mem_cons_self)
  obtain ⟨members, rfl⟩ := record_object hstrict
  have hmodbus : Protocol.deviceOf "modbus_tcp" Protocol.connection Protocol.point
      (.obj members) = true := hall _ (by simp)
  have hopcua : Protocol.deviceOf "opcua" Protocol.opcuaConnection Protocol.opcuaPoint
      (.obj members) = true := hall _ (by simp)
  have hprotocol : Returns (item (.obj members) "protocol") fun v =>
      enum ["modbus_tcp", "opcua"] v = true := strict_item hstrict (by simp)
  obtain ⟨v, hv, hprot⟩ := hprotocol
  obtain ⟨t, ht, rfl⟩ := enum_str hprot
  have hlook : members.lookup (py "protocol") = some (.str (py t)) := item_eq_ok.mp hv
  have hspec : property "connection" (connectionFor (py t)) (.obj members) = true ∧
      property "points" (items (pointFor (py t))) (.obj members) = true := by
    rcases List.mem_cons.mp ht with rfl | ht
    · exact deviceOf_spec hmodbus hlook
    · rw [List.mem_singleton] at ht
      subst ht
      exact deviceOf_spec hopcua hlook
  have hid : Returns (item (.obj members) "deviceId") fun v => Protocol.id v = true :=
    strict_item hstrict (by simp)
  have hname : Returns (item (.obj members) "name") fun v => text 1 128 v = true :=
    strict_item hstrict (by simp)
  have hconn : Returns (item (.obj members) "connection") fun _ => True :=
    (strict_item hstrict (s := fun _ => true) (by simp)).total
  have hpoints : Returns (item (.obj members) "points") fun v =>
      allOf [array, maxItems 2000, minItems 0] v = true := strict_item hstrict (by simp)
  refine ⟨py t, by simp [strItem, hv, asStr, bind, Except.bind], ?_, ?_, ?_, ?_, ?_, ?_⟩
  · rcases List.mem_cons.mp ht with rfl | ht
    · exact .inl rfl
    · rw [List.mem_singleton] at ht
      subst ht
      exact .inr rfl
  · exact strItem_returns hid fun _ => matching_str
  · exact strItem_returns hname fun _ => text_str
  · exact strict_item hstrict (by simp)
  · obtain ⟨c, hc, -⟩ := hconn
    refine ⟨c, hc, ?_⟩
    have hc' : members.lookup (py "connection") = some c := item_eq_ok.mp hc
    simpa [property, hc'] using hspec.1
  · obtain ⟨ps, hps, hlist⟩ := hpoints
    have hps' : members.lookup (py "points") = some ps := item_eq_ok.mp hps
    have harr : array ps = true := allOf_iff.mp hlist _ (by simp)
    cases ps with
    | arr js =>
        refine ⟨js, by simp [listItem, hps, elements, bind, Except.bind], ?_⟩
        have hitems := hspec.2
        simpa [property, hps', items] using hitems
    | _ => simp [array] at harr

/-- The address property of the points of a protocol. -/
def addressFor (protocol : PyStr) : String × Schema :=
  if protocol = py "opcua" then ("opcua", Protocol.opcua) else ("modbus", Protocol.modbus)

theorem point_record {protocol : PyStr} {p : Json} (h : pointFor protocol p = true) :
    Protocol.pointRecord (addressFor protocol) p = true := by
  unfold pointFor at h
  unfold addressFor
  split at h
  · rename_i hp
    rw [if_pos hp]
    exact allOf_iff.mp h _ List.mem_cons_self
  · rename_i hp
    rw [if_neg hp]
    exact allOf_iff.mp h _ List.mem_cons_self

section Points

variable {protocol : PyStr} {p : Json} {key : String}

/-- A required member of a point. -/
theorem point_item {s : Schema} (h : pointFor protocol p = true)
    (hr : key ∈ ["pointId", "name", "enabled", "dataType", "pollIntervalMs", "scale", "offset",
      "reportMode", "reportIntervalMs", "deadband", "staleAfterMs", (addressFor protocol).1])
    (hp : (key, s) ∈ [("pointId", Protocol.id), ("name", text 1 128), ("enabled", boolean),
      ("dataType", enum ["bool", "int16", "uint16", "int32", "uint32", "float32"]),
      ("pollIntervalMs", range 1 86400000), ("scale", isNumber), ("offset", isNumber),
      ("unit", text 0 32), ("reportMode", enum ["cyclic", "change", "change_or_cyclic"]),
      ("reportIntervalMs", range 1 86400000), ("deadband", allOf [isNumber, minimum 0]),
      ("staleAfterMs", range 1 86400000), addressFor protocol]) :
    Returns (item p key) fun v => s v = true :=
  record_item (point_record h) hr hp

theorem range_number {lo hi : ℚ} {v : Json} (h : range lo hi v = true) :
    ∃ q, number? v = some q := by
  obtain ⟨q, hq, -⟩ := range_num h
  exact ⟨q, hq⟩

theorem enum_string {ss : List String} {v : Json} (h : enum ss v = true) : ∃ t, v = .str t := by
  obtain ⟨t, -, rfl⟩ := enum_str h
  exact ⟨_, rfl⟩

theorem point_id (h : pointFor protocol p = true) :
    Returns (strItem p "pointId") fun _ => True :=
  strItem_returns (s := Protocol.id) (point_item h (by simp) (by simp)) fun _ => matching_str

theorem point_dataType (h : pointFor protocol p = true) :
    Returns (strItem p "dataType") fun _ => True :=
  strItem_returns (point_item h (by simp)
    (s := enum ["bool", "int16", "uint16", "int32", "uint32", "float32"]) (by simp))
    fun _ => enum_string

theorem point_interval (h : pointFor protocol p = true)
    (hk : key = "pollIntervalMs" ∨ key = "staleAfterMs") :
    Returns (numItem p key) fun _ => True := by
  refine numItem_returns (s := range 1 86400000) (point_item h ?_ ?_) fun _ => range_number
  · rcases hk with rfl | rfl <;> simp
  · rcases hk with rfl | rfl <;> simp

theorem point_modbus (h : pointFor protocol p = true) (hp : protocol = py "modbus_tcp") :
    Returns (item p "modbus") fun m => Protocol.modbus m = true := by
  have haddr : addressFor protocol = ("modbus", Protocol.modbus) := by
    subst hp
    rfl
  exact point_item h (by simp [haddr]) (by simp [haddr])

theorem point_opcua (h : pointFor protocol p = true) (hp : protocol = py "opcua") :
    Returns (item p "opcua") fun m => Protocol.opcua m = true := by
  have haddr : addressFor protocol = ("opcua", Protocol.opcua) := by
    subst hp
    rfl
  exact point_item h (by simp [haddr]) (by simp [haddr])

end Points

/-! ## The rules return -/

theorem addressIssues_returns {pp protocol : PyStr} {p : Json} (h : pointFor protocol p = true)
    (hp : protocol = py "modbus_tcp") : Returns (addressIssues pp p) fun _ => True := by
  refine (point_dataType h).bind fun dataType _ => ?_
  refine (point_modbus h hp).bind fun m hm => ?_
  have haddr : Returns (item m "address") fun v => range 0 65535 v = true :=
    record_item hm (by simp) (by simp)
  refine (numItem_returns haddr fun _ => range_number).bind fun address _ => ?_
  exact .pure trivial

theorem pointIssues_returns {dp protocol : PyStr} {scan : PointScan} {p : Json} {i : Nat}
    (h : pointFor protocol p = true) : Returns (pointIssues dp protocol scan (p, i)) fun _ => True := by
  unfold pointIssues
  refine (point_id h).bind fun pointId _ => ?_
  refine (point_interval h (.inr rfl)).bind fun stale _ => ?_
  refine (point_interval h (.inl rfl)).bind fun poll _ => ?_
  by_cases hm : protocol = py "modbus_tcp"
  · rw [if_pos hm]
    refine (addressIssues_returns h hm).bind fun address _ => ?_
    exact .pure trivial
  rw [if_neg hm]
  by_cases ho : protocol = py "opcua"
  · rw [if_pos ho]
    refine (point_opcua h ho).bind fun m hopcua => ?_
    have hnode : Returns (item m "nodeId") fun v => matching 3 256 nodeIdPattern v = true :=
      strict_item hopcua (by simp)
    refine (strItem_returns hnode fun _ => matching_str).bind fun nodeId _ => ?_
    exact .pure trivial
  · rw [if_neg ho]
    exact .pure trivial

theorem mem_of_mem_zipIdx {α : Type} {xs : List α} {entry : α × Nat} (h : entry ∈ xs.zipIdx) :
    entry.1 ∈ xs := by
  obtain ⟨a, i⟩ := entry
  exact (List.mem_zipIdx' h).2 ▸ List.getElem_mem _

theorem deviceIssues_returns {scan : DeviceScan} {d : Json} {i : Nat}
    (h : Protocol.device d = true) : Returns (deviceIssues scan (d, i)) fun _ => True := by
  obtain ⟨protocol, hprotocol, hd⟩ := device_readable h
  unfold deviceIssues
  refine hd.deviceId.bind fun deviceId _ => ?_
  refine hd.points.bind fun points hpoints => ?_
  cases points with
  | nil => exact ⟨_, rfl, trivial⟩
  | cons p ps =>
      refine Returns.bind (P := fun p => p = protocol) ⟨protocol, hprotocol, rfl⟩ ?_
      rintro _ rfl
      refine Returns.bind (P := fun _ => True) ?_ fun inner _ => .pure trivial
      refine .foldlM (fun scan _ entry hentry => ?_) trivial
      obtain ⟨q, qi⟩ := entry
      exact pointIssues_returns (hpoints q (mem_of_mem_zipIdx hentry))

/-- The configuration rules return on conforming devices. -/
theorem configIssues_returns {devices : List Json} (h : ∀ d ∈ devices, Protocol.device d = true) :
    Returns (configIssues devices) fun _ => True := by
  refine Returns.bind (P := fun _ => True) (Q := fun _ => True) ?_ fun _ _ => .pure trivial
  refine .foldlM (fun scan _ entry hentry => ?_) trivial
  obtain ⟨d, di⟩ := entry
  exact deviceIssues_returns (h d (mem_of_mem_zipIdx hentry))

/-! ## Messages -/

/-- What a conforming full configuration holds. -/
theorem configSet_members {j : Json} (h : Protocol.configSet j = true) :
    Returns (item j "gatewayId") (fun v => Protocol.id v = true) ∧
      Returns (item j "messageId") (fun v => Protocol.id v = true) ∧
      Returns (item j "configVersion") (fun v => Protocol.positiveInt v = true) ∧
      Returns (item j "timestamp") (fun v => Protocol.safeInt v = true) ∧
      Returns (item j "config") fun c => strict [("enabled", boolean), ("report", Protocol.report),
        ("devices", list 0 50 Protocol.device)] c = true := by
  unfold Protocol.configSet at h
  exact ⟨strict_item h (by simp [Protocol.header]), strict_item h (by simp [Protocol.header]),
    strict_item h (by simp [Protocol.header]), strict_item h (by simp [Protocol.header]),
    strict_item h (by simp [Protocol.header])⟩

/-- The devices of a conforming configuration. -/
theorem config_devices {c : Json} (h : strict [("enabled", boolean), ("report", Protocol.report),
      ("devices", list 0 50 Protocol.device)] c = true) :
    Returns (listItem c "devices") fun ds => ∀ d ∈ ds, Protocol.device d = true :=
  listItem_returns (strict_item h (s := list 0 50 Protocol.device) (by simp)) fun _ => list_arr

theorem configSet_semantic {j : Json} (h : Protocol.configSet j = true) :
    Returns (semanticIssues .configSet j) fun _ => True := by
  obtain ⟨-, -, -, -, hconfig⟩ := configSet_members h
  refine hconfig.bind fun c hc => ?_
  exact (config_devices hc).bind fun ds hds => configIssues_returns hds

/-- The record that every patch message is. -/
theorem configPatch_record {j : Json} (h : Protocol.configPatch j = true) :
    record ["schemaVersion", "gatewayId", "timestamp", "messageId", "configVersion",
        "baseConfigVersion", "baseMessageId", "operations"]
      (Protocol.header ++ [("messageId", Protocol.id), ("configVersion", Protocol.positiveInt),
        ("baseConfigVersion", Protocol.safeInt), ("baseMessageId", anyOf [Protocol.id, null]),
        ("operations", list 0 50 Protocol.operation),
        ("gateway", allOf [record [] [("enabled", boolean), ("report", Protocol.report)],
          minProperties 1])]) j = true :=
  allOf_iff.mp h _ List.mem_cons_self

theorem operation_record {o : Json} (h : Protocol.operation o = true) :
    record ["op", "deviceId"] [("op", enum ["add", "replace", "remove"]),
      ("deviceId", Protocol.id), ("device", Protocol.device)] o = true :=
  allOf_iff.mp h _ List.mem_cons_self

theorem operationIssues_returns {scan : List Issue × List PyStr} {o : Json} {i : Nat}
    (h : Protocol.operation o = true) : Returns (operationIssues scan (o, i)) fun _ => True := by
  have hid : Returns (item o "deviceId") fun v => Protocol.id v = true :=
    record_item (operation_record h) (by simp) (by simp)
  unfold operationIssues
  refine (strItem_returns hid fun _ => matching_str).bind fun deviceId _ => ?_
  by_cases hk : hasKey o "device" = true
  · obtain ⟨d, hd⟩ := Option.isSome_iff_exists.mp hk
    have hdev : Protocol.device d = true := record_property (operation_record h) (by simp) hd
    obtain ⟨protocol, -, hread⟩ := device_readable hdev
    have hinner : Returns (configIssues [d]) fun _ => True :=
      configIssues_returns fun _ hmem => List.mem_singleton.mp hmem ▸ hdev
    rw [if_pos hk]
    refine Returns.bind (P := fun v => v = d) ⟨d, item_eq_ok.mpr hd, rfl⟩ ?_
    rintro _ rfl
    refine hread.deviceId.bind fun inner _ => ?_
    refine hinner.bind fun issues _ => ?_
    exact .pure trivial
  · rw [if_neg hk]
    exact .pure trivial

theorem configPatch_semantic {j : Json} (h : Protocol.configPatch j = true) :
    Returns (semanticIssues .configPatch j) fun _ => True := by
  have hrec := configPatch_record h
  have hversion : Returns (item j "configVersion") fun v => Protocol.positiveInt v = true :=
    record_item hrec (by simp) (by simp [Protocol.header])
  have hbase : Returns (item j "baseConfigVersion") fun v => Protocol.safeInt v = true :=
    record_item hrec (by simp) (by simp [Protocol.header])
  have hops : Returns (item j "operations") fun v => list 0 50 Protocol.operation v = true :=
    record_item hrec (by simp) (by simp [Protocol.header])
  show Returns (patchIssues j) _
  unfold patchIssues
  refine (numItem_returns hversion fun _ => range_number).bind fun version _ => ?_
  refine (numItem_returns hbase fun _ => range_number).bind fun base _ => ?_
  split
  · exact .pure trivial
  · refine (listItem_returns hops fun _ => list_arr).bind fun ops hall => ?_
    refine Returns.bind (P := fun _ => True) ?_ fun scan _ => .pure trivial
    refine .foldlM (fun scan _ entry hentry => ?_) trivial
    obtain ⟨o, i⟩ := entry
    exact operationIssues_returns (hall o (mem_of_mem_zipIdx hentry))

/-! ## Validation returns -/

section Validation

variable {payload : Bytes} {gatewayId : PyStr}

/-- The kinds whose rules read a configuration. -/
def Kind.isConfig (k : Kind) : Prop := k = .configSet ∨ k = .configPatch

theorem semanticIssues_returns {k : Kind} {j : Json} (hk : k.isConfig)
    (h : conforms k j = true) : Returns (semanticIssues k j) fun _ => True := by
  rcases hk with rfl | rfl
  · exact configSet_semantic h
  · exact configPatch_semantic h

theorem gatewayId_returns {k : Kind} {j : Json} (hk : k.isConfig) (h : conforms k j = true) :
    Returns (item j "gatewayId") fun v => Protocol.id v = true := by
  rcases hk with rfl | rfl
  · exact (configSet_members h).1
  · exact record_item (configPatch_record h) (by simp) (by simp [Protocol.header])

variable [JsonSchema]

theorem conforms_of_take {k : Kind} {j : Json}
    (h : (JsonSchema.iterErrors k j).take maxIssues = []) : conforms k j = true := by
  rw [← JsonSchema.iterErrors_eq_nil]
  rcases List.take_eq_nil_iff.mp h with h | h
  · cases h
  · exact h

/-- Validating a configuration message never raises. -/
theorem validateMessage_returns {k : Kind} (hk : k.isConfig) :
    Returns (validateMessage k payload gatewayId) fun _ => True := by
  unfold validateMessage
  split
  · exact .ok trivial
  split
  · exact .ok trivial
  unfold messageIssues
  split
  · exact .ok trivial
  · rename_i message _ _ htake
    have hconf : conforms k message = true := conforms_of_take htake
    refine (gatewayId_returns hk hconf).bind fun v _ => ?_
    split
    · exact .pure trivial
    · exact (semanticIssues_returns hk hconf).bind fun issues _ => .pure trivial

/-- A message without issues was decoded, conforms and names the gateway. -/
theorem validateMessage_valid {k : Kind} (h : validateMessage k payload gatewayId = .ok []) :
    ∃ message, decodeMessage payload = some message ∧ conforms k message = true ∧
      item message "gatewayId" = .ok (.str gatewayId) ∧
      payload.length ≤ k.maxPayloadBytes := by
  unfold validateMessage at h
  split at h
  · cases h
  rename_i hlen
  split at h
  · cases h
  rename_i message hmessage
  unfold messageIssues at h
  split at h
  · cases h
  rename_i htake
  obtain ⟨v, hv, h⟩ := bind_eq_ok h
  split at h
  · cases h
  rename_i hgate
  have hgate : v = .str gatewayId := by simpa using hgate
  exact ⟨message, hmessage, conforms_of_take htake, hgate ▸ hv, by omega⟩

end Validation

end PlcnextIot.Contracts
