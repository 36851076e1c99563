/-
  PlcnextIot.Config.Content

  What `ConfigSnapshot.parse` and `materialize` return.

  Parsing a payload never raises anything but `ConfigValidationError`, and a
  parsed snapshot carries the identity of the message it was parsed from; its
  wire text encodes to the payload again, so a stored payload parses to the
  snapshot it was stored for.  The snapshot of a materialised command carries
  the identity of the command, which travels through `dumps` and `loads`.
-/

import PlcnextIot.Config.Patch
import PlcnextIot.Contracts.Sound
import PlcnextIot.Python.JsonText

namespace PlcnextIot.Config

open PlcnextIot.Python PlcnextIot.Contracts PlcnextIot.Effect PlcnextIot.Contracts.Schema

/-! ## Normalised members -/

theorem normalizeItems_eq (items : List Json) : normalizeItems items = items.map normalize := by
  induction items with
  | nil => rfl
  | cons v rest ih => rw [normalizeItems, ih, List.map_cons]

theorem lookup_normalizeMembers (members : List (PyStr × Json)) (key : PyStr) :
    (normalizeMembers members).lookup key = (members.lookup key).map normalize := by
  induction members with
  | nil => rfl
  | cons m rest ih =>
      obtain ⟨k, v⟩ := m
      rw [normalizeMembers, List.lookup_cons, List.lookup_cons, ih]
      cases key == k <;> rfl

theorem get?_normalize (j : Json) (key : PyStr) :
    (normalize j).get? key = (j.get? key).map normalize := by
  cases j with
  | obj members => exact lookup_normalizeMembers members key
  | float q =>
      rw [normalize]
      split <;> rfl
  | _ => rfl

theorem lookup_setMember (members : List (PyStr × Json)) (key k : PyStr) (v : Json) :
    (setMember members key v).lookup k = if k = key then some v else members.lookup k := by
  induction members with
  | nil =>
      by_cases h : k = key
      · simp [setMember, h]
      · have hb : (k == key) = false := by simpa using h
        simp [setMember, List.lookup_cons, h, hb]
  | cons m rest ih =>
      obtain ⟨k', w⟩ := m
      rw [setMember]
      by_cases hk : k' = key
      · subst hk
        rw [if_pos rfl, List.lookup_cons, List.lookup_cons]
        by_cases h : k = k'
        · simp [h]
        · have hb : (k == k') = false := by simpa using h
          rw [hb, if_neg h]
      · rw [if_neg hk, List.lookup_cons, List.lookup_cons, ih]
        by_cases h : k = k'
        · subst h
          simp [hk]
        · have hb : (k == k') = false := by simpa using h
          rw [hb]

theorem get?_setItem {members : List (PyStr × Json)} {key : String} {v : Json} (k : PyStr) :
    (setItem (.obj members) key v).get? k
      = if k = py key then some v else (Json.obj members).get? k :=
  lookup_setMember members (py key) k v

/-- A member of a normalised object that conformed before. -/
def Holds (w : Json) (key : String) (s : Schema) : Prop :=
  ∃ v, w.get? (py key) = some (normalize v) ∧ s v = true

theorem holds_normalize {j : Json} {key : String} {s : Schema}
    (h : Returns (item j key) fun v => s v = true) : Holds (normalize j) key s := by
  obtain ⟨v, hv, hs⟩ := h
  exact ⟨v, by rw [get?_normalize, item_eq_ok.mp hv, Option.map_some], hs⟩

section Typed

variable {w : Json} {key : String} {s : Schema}

theorem Holds.item (h : Holds w key s) :
    Returns (item w key) fun u => ∃ v, u = normalize v ∧ s v = true := by
  obtain ⟨v, hv, hs⟩ := h
  exact ⟨normalize v, item_eq_ok.mpr hv, v, rfl, hs⟩

theorem Holds.strItem (h : Holds w key s) (hs : ∀ v, s v = true → ∃ t, v = .str t) :
    Returns (strItem w key) fun t => s (.str t) = true := by
  refine h.item.bind fun u hu => ?_
  obtain ⟨v, rfl, hv⟩ := hu
  obtain ⟨t, rfl⟩ := hs v hv
  exact .ok hv

theorem Holds.boolItem (h : Holds w key s) (hs : ∀ v, s v = true → ∃ b, v = .bool b) :
    Returns (boolItem w key) fun _ => True := by
  refine h.item.bind fun u hu => ?_
  obtain ⟨v, rfl, hv⟩ := hu
  obtain ⟨b, rfl⟩ := hs v hv
  exact .ok trivial

/-- A value of an integer range is an integer once normalised. -/
theorem normalize_range {lo hi : ℚ} {v : Json} (h : range lo hi v = true) :
    ∃ n : ℤ, normalize v = .int n ∧ lo ≤ n ∧ (n : ℚ) ≤ hi := by
  obtain ⟨q, hq, hlo, hhi, hint⟩ := range_num h
  cases v with
  | int n =>
      simp only [number?, Option.some.injEq] at hq
      subst hq
      exact ⟨n, rfl, hlo, hhi⟩
  | float r =>
      simp only [number?, Option.some.injEq] at hq
      subst hq
      have hden : r.den = 1 := by simpa [integer] using hint
      have hnum : ((r.num : ℤ) : ℚ) = r := by
        rw [← Rat.mul_den_eq_num, hden, Nat.cast_one, mul_one]
      exact ⟨r.num, by rw [normalize, if_pos hden], by rw [hnum]; exact hlo, by rw [hnum]; exact hhi⟩
  | negZero =>
      simp only [number?, Option.some.injEq] at hq
      subst hq
      exact ⟨0, rfl, by simpa using hlo, by simpa using hhi⟩
  | _ => simp [number?] at hq

theorem Holds.intItem {lo hi : ℚ} (h : Holds w key (range lo hi)) :
    Returns (intItem w key) fun n => lo ≤ n ∧ (n : ℚ) ≤ hi := by
  refine h.item.bind fun u hu => ?_
  obtain ⟨v, rfl, hv⟩ := hu
  obtain ⟨n, hn, hlo, hhi⟩ := normalize_range hv
  rw [hn]
  exact .ok ⟨hlo, hhi⟩

theorem Holds.pyNumItem (h : Holds w key s) (hs : ∀ v, s v = true → ∃ q, number? v = some q) :
    Returns (pyNumItem w key) fun _ => True := by
  refine h.item.bind fun u hu => ?_
  obtain ⟨v, rfl, hv⟩ := hu
  obtain ⟨q, hq⟩ := hs v hv
  cases v with
  | int n => exact .ok trivial
  | float r =>
      by_cases hd : r.den = 1
      · rw [normalize, if_pos hd]
        exact .ok trivial
      · rw [normalize, if_neg hd]
        exact .ok trivial
  | negZero => exact .ok trivial
  | _ => simp [number?] at hq

/-- An optional string member of a normalised record. -/
theorem optStrItem_reads {j : Json} (hs : ∀ v, j.get? (py key) = some v → ∃ t, v = .str t) :
    Returns (optStrItem (normalize j) key) fun t => t.map .str = j.get? (py key) := by
  unfold optStrItem
  rw [get?_normalize]
  cases hv : j.get? (py key) with
  | none => exact .ok rfl
  | some v =>
      obtain ⟨t, rfl⟩ := hs v hv
      exact .ok rfl

theorem optStrItem_returns {j : Json} (hs : ∀ v, j.get? (py key) = some v → ∃ t, v = .str t) :
    Returns (optStrItem (normalize j) key) fun _ => True := (optStrItem_reads hs).total

end Typed

/-! ## Sorting -/

/-- Sorting by a string member permutes the values. -/
theorem sortBy_returns {key : String} {values : List Json}
    (h : ∀ v ∈ values, Returns (strItem v key) fun _ => True) :
    Returns (sortBy key values) fun sorted => sorted.Perm values := by
  have hkeyed : Returns (values.mapM fun v => (do return (← strItem v key, v) :
      Except PyExc (PyStr × Json))) fun _ => True :=
    (Returns.mapM (P := fun _ => True) fun v hv =>
      (h v hv).bind fun k _ => .pure trivial).total
  obtain ⟨keyed, hk, -⟩ := hkeyed
  have hsnd : keyed.map (·.2) = values := by
    have hall := mapM_eq_ok hk
    clear hk h
    induction hall with
    | nil => rfl
    | cons hab _ ih =>
        obtain ⟨k, -, hk⟩ := bind_eq_ok hab
        cases hk
        rw [List.map_cons, ih]
  refine ⟨_, by rw [sortBy, hk]; rfl, ?_⟩
  rw [← hsnd]
  exact (List.perm_insertionSort _ keyed).map _

/-! ## A conforming configuration becomes a snapshot -/

section Snapshot

/-- The data types of a point. -/
def dataTypes : List String := ["bool", "int16", "uint16", "int32", "uint32", "float32"]

/-- A register point of some data types names one of some byte orders. -/
def Ordered (types orders : List String) (p : PointConfig) : Prop :=
  (∃ t ∈ types, p.dataType = py t) →
    ∃ m, p.modbus = some m ∧ ∃ o ∈ orders, m.byteOrder = some (py o)

/-- What the drivers rely on in a point of their protocol. -/
structure Readable (protocol : PyStr) (p : PointConfig) : Prop where
  dataType : ∃ t ∈ dataTypes, p.dataType = py t
  words : protocol = py "modbus_tcp" → Ordered ["int16", "uint16"] ["AB", "BA"] p
  pairs : protocol = py "modbus_tcp" →
    Ordered ["int32", "uint32", "float32"] ["ABCD", "BADC", "CDAB", "DCBA"] p

/-- The registers of a conforming point. -/
theorem registerPoint_order {p m : Json} {types orders : List String} {t : String}
    (h : implies (property "dataType" (enum types)) (Protocol.registerPoint orders) p = true)
    (ht : p.get? (py "dataType") = some (.str (py t))) (hmem : t ∈ types)
    (hm : p.get? (py "modbus") = some m) (hobj : ∃ members, m = .obj members) :
    ∃ o ∈ orders, m.get? (py "byteOrder") = some (.str (py o)) := by
  cases p with
  | obj members =>
      obtain ⟨inner, rfl⟩ := hobj
      have hlt : members.lookup (py "dataType") = some (.str (py t)) := ht
      have hlm : members.lookup (py "modbus") = some (.obj inner) := hm
      have henum : enum types (.str (py t)) = true := by
        simp only [enum, List.any_eq_true]
        exact ⟨t, hmem, by simp⟩
      have hreg : Protocol.registerPoint orders (.obj members) = true := by
        simpa [implies, Schema.cond, property, hlt, henum] using h
      have hboth : allOf [required ["byteOrder"], properties
          [("area", enum ["holding_register", "input_register"]), ("byteOrder", enum orders)]]
          (.obj inner) = true := by
        simpa [Protocol.registerPoint, property, hlm] using hreg
      have hreq : required ["byteOrder"] (.obj inner) = true := allOf_iff.mp hboth _ (by simp)
      have hprops : properties [("area", enum ["holding_register", "input_register"]),
          ("byteOrder", enum orders)] (.obj inner) = true := allOf_iff.mp hboth _ (by simp)
      have hone : property "byteOrder" (enum orders) (.obj inner) = true :=
        allOf_iff.mp hprops _ (by simp)
      obtain ⟨v, hv⟩ : ∃ v, inner.lookup (py "byteOrder") = some v :=
        Option.isSome_iff_exists.mp (by simpa [required] using hreq)
      obtain ⟨o, ho, rfl⟩ := enum_str (v := v) (by simpa [property, hv] using hone)
      exact ⟨o, ho, hv⟩
  | _ => cases ht

/-- The address of a point of a protocol, normalised. -/
theorem pointAddress_returns {p : Json} {protocol : PyStr} (h : pointFor protocol p = true)
    (hp : protocol = py "modbus_tcp" ∨ protocol = py "opcua") :
    Returns (pointAddress (normalize p) protocol) fun address => protocol = py "modbus_tcp" →
      ∃ m a, p.get? (py "modbus") = some m ∧ (∃ members, m = .obj members) ∧
        address.1 = some a ∧ a.byteOrder.map .str = m.get? (py "byteOrder") := by
  unfold pointAddress
  rcases hp with rfl | rfl
  · rw [if_neg (by decide)]
    obtain ⟨m, hget, hm⟩ := point_modbus h rfl
    have hitem : item (normalize p) "modbus" = .ok (normalize m) := by
      rw [item_eq_ok, get?_normalize, item_eq_ok.mp hget, Option.map_some]
    have hobj : ∃ members, m = .obj members := record_object hm
    have harea : Returns (item m "area") fun v =>
        enum ["coil", "discrete_input", "holding_register", "input_register"] v = true :=
      record_item hm (by simp) (by simp)
    have haddress : Returns (item m "address") fun v => range 0 65535 v = true :=
      record_item hm (by simp) (by simp)
    have horder : Returns (optStrItem (normalize m) "byteOrder") fun o =>
        o.map .str = m.get? (py "byteOrder") :=
      optStrItem_reads fun v hv => enum_string (record_property hm
        (s := enum ["AB", "BA", "ABCD", "BADC", "CDAB", "DCBA"]) (by simp) hv)
    rw [hitem]
    refine ((holds_normalize harea).strItem fun _ => enum_string).bind fun area _ => ?_
    refine (holds_normalize haddress).intItem.bind fun address _ => ?_
    refine horder.bind fun order ho => ?_
    exact .pure fun _ => ⟨m, ⟨area, address, order⟩, item_eq_ok.mp hget, hobj, rfl, ho⟩
  · rw [if_pos rfl]
    refine (holds_normalize (point_opcua h rfl)).item.bind fun u hu => ?_
    obtain ⟨m, rfl, hm⟩ := hu
    have hnode : Returns (item m "nodeId") fun v => matching 3 256 nodeIdPattern v = true :=
      strict_item hm (by simp)
    refine ((holds_normalize hnode).strItem fun _ => matching_str).bind fun nodeId _ => ?_
    exact .pure fun hne => absurd hne (by decide)

/-- A point of a protocol, normalised. -/
theorem point_returns {p : Json} {protocol : PyStr} (h : pointFor protocol p = true)
    (hp : protocol = py "modbus_tcp" ∨ protocol = py "opcua") :
    Returns (point (normalize p) protocol) (Readable protocol) := by
  have haddr := pointAddress_returns h hp
  obtain ⟨type, hmem, hget⟩ : ∃ t ∈ dataTypes, p.get? (py "dataType") = some (.str (py t)) := by
    have hitem : ∃ v, item p "dataType" = .ok v ∧ enum dataTypes v = true :=
      point_item h (by simp) (by simp [dataTypes])
    obtain ⟨v, hv, henum⟩ := hitem
    obtain ⟨t, ht, rfl⟩ := enum_str henum
    exact ⟨t, ht, item_eq_ok.mp hv⟩
  have hunit : Returns (optStrItem (normalize p) "unit") fun _ => True :=
    optStrItem_returns fun v hv => text_str (record_property (point_record h)
      (s := text 0 32) (by simp) hv)
  have hid : Holds (normalize p) "pointId" Protocol.id :=
    holds_normalize (point_item h (by simp) (by simp))
  have hname : Holds (normalize p) "name" (text 1 128) :=
    holds_normalize (point_item h (by simp) (by simp))
  have henabled : Holds (normalize p) "enabled" boolean :=
    holds_normalize (point_item h (by simp) (by simp))
  have htype : strItem (normalize p) "dataType" = .ok (py type) := by
    simp [strItem, item_eq_ok.mpr (show (normalize p).get? (py "dataType") = some (.str (py type)) by
      rw [get?_normalize, hget]; rfl), asStr, bind, Except.bind]
  have hpoll : Holds (normalize p) "pollIntervalMs" (range 1 86400000) :=
    holds_normalize (point_item h (by simp) (by simp))
  have hscale : Holds (normalize p) "scale" isNumber :=
    holds_normalize (point_item h (by simp) (by simp))
  have hoffset : Holds (normalize p) "offset" isNumber :=
    holds_normalize (point_item h (by simp) (by simp))
  have hmode : Holds (normalize p) "reportMode" (enum ["cyclic", "change", "change_or_cyclic"]) :=
    holds_normalize (point_item h (by simp) (by simp))
  have hreport : Holds (normalize p) "reportIntervalMs" (range 1 86400000) :=
    holds_normalize (point_item h (by simp) (by simp))
  have hdead : Holds (normalize p) "deadband" (allOf [isNumber, minimum 0]) :=
    holds_normalize (point_item h (by simp) (by simp))
  have hstale : Holds (normalize p) "staleAfterMs" (range 1 86400000) :=
    holds_normalize (point_item h (by simp) (by simp))
  have hnum : ∀ v, allOf [isNumber, minimum 0] v = true → ∃ q, number? v = some q :=
    fun v hv => isNumber_num (allOf_iff.mp hv _ List.mem_cons_self)
  -- The byte order is the one the schema asks for.
  have hordered : ∀ types orders, protocol = py "modbus_tcp" →
      implies (property "dataType" (enum types)) (Protocol.registerPoint orders) p = true →
      ∀ address : Option ModbusAddress × Option OpcUaAddress,
      (protocol = py "modbus_tcp" → ∃ m a, p.get? (py "modbus") = some m ∧
        (∃ members, m = .obj members) ∧ address.1 = some a ∧
        a.byteOrder.map .str = m.get? (py "byteOrder")) →
      (∃ t ∈ types, py type = py t) →
      ∃ a, address.1 = some a ∧ ∃ o ∈ orders, a.byteOrder = some (py o) := by
    rintro types orders hp himp address haddr ⟨t, ht, heq⟩
    obtain ⟨m, a, hm, hobj, ha, hbyte⟩ := haddr hp
    obtain ⟨o, ho, hv⟩ := registerPoint_order himp (by rw [hget, heq]) ht hm hobj
    refine ⟨a, ha, o, ho, ?_⟩
    rw [hv] at hbyte
    cases hb : a.byteOrder with
    | none =>
        rw [hb] at hbyte
        cases hbyte
    | some b =>
        rw [hb] at hbyte
        cases hbyte
        rfl
  have hpoint : protocol = py "modbus_tcp" → Protocol.point p = true := by
    rintro rfl
    exact h
  unfold point
  refine haddr.bind fun address ha => ?_
  refine (hid.strItem fun _ => matching_str).bind fun _ _ => ?_
  refine (hname.strItem fun _ => text_str).bind fun _ _ => ?_
  refine (henabled.boolItem fun _ => boolean_bool).bind fun _ _ => ?_
  rw [htype]
  refine hpoll.intItem.bind fun _ _ => ?_
  refine (hscale.pyNumItem fun _ => isNumber_num).bind fun _ _ => ?_
  refine (hoffset.pyNumItem fun _ => isNumber_num).bind fun _ _ => ?_
  refine hunit.bind fun _ _ => ?_
  refine (hmode.strItem fun _ => enum_string).bind fun _ _ => ?_
  refine hreport.intItem.bind fun _ _ => ?_
  refine (hdead.pyNumItem hnum).bind fun _ _ => ?_
  refine hstale.intItem.bind fun _ _ => ?_
  refine .pure ⟨⟨type, hmem, rfl⟩, fun hp => ?_, fun hp => ?_⟩
  · exact hordered _ _ hp (allOf_iff.mp (hpoint hp) _ (by simp)) address ha
  · exact hordered _ _ hp (allOf_iff.mp (hpoint hp) _ (by simp)) address ha

/-- A connection of a protocol, normalised. -/
theorem connection_returns {c : Json} {protocol : PyStr} (h : connectionFor protocol c = true)
    (hp : protocol = py "modbus_tcp" ∨ protocol = py "opcua") :
    Returns (connection (normalize c) protocol) fun _ => True := by
  unfold connection
  rcases hp with rfl | rfl
  · have hc : Protocol.connection c = true := h
    have hhost : Holds (normalize c) "host" (matching 1 253 hostPattern) :=
      holds_normalize (strict_item hc (by simp))
    have hport : Holds (normalize c) "port" (range 1 65535) :=
      holds_normalize (strict_item hc (by simp))
    have hconnect : Holds (normalize c) "connectTimeoutMs" (range 1 300000) :=
      holds_normalize (strict_item hc (by simp [Protocol.timeouts]))
    have hrequest : Holds (normalize c) "requestTimeoutMs" (range 1 300000) :=
      holds_normalize (strict_item hc (by simp [Protocol.timeouts]))
    have hretry : Holds (normalize c) "retryCount" (range 0 10) :=
      holds_normalize (strict_item hc (by simp [Protocol.timeouts]))
    have hunit : Holds (normalize c) "unitId" (range 0 255) :=
      holds_normalize (strict_item hc (by simp))
    refine (hhost.strItem fun _ => matching_str).bind fun _ _ => ?_
    refine hport.intItem.bind fun _ _ => ?_
    refine hconnect.intItem.bind fun _ _ => ?_
    refine hrequest.intItem.bind fun _ _ => ?_
    refine hretry.intItem.bind fun _ _ => ?_
    rw [if_neg (by decide)]
    refine hunit.intItem.bind fun _ _ => ?_
    exact .pure trivial
  · have hc := allOf_iff.mp h _ List.mem_cons_self
    have hhost : Holds (normalize c) "host" (matching 1 253 hostPattern) :=
      holds_normalize (record_item hc (by simp) (by simp))
    have hport : Holds (normalize c) "port" (range 1 65535) :=
      holds_normalize (record_item hc (by simp) (by simp))
    have hconnect : Holds (normalize c) "connectTimeoutMs" (range 1 300000) :=
      holds_normalize (record_item hc (by simp) (by simp [Protocol.timeouts]))
    have hrequest : Holds (normalize c) "requestTimeoutMs" (range 1 300000) :=
      holds_normalize (record_item hc (by simp) (by simp [Protocol.timeouts]))
    have hretry : Holds (normalize c) "retryCount" (range 0 10) :=
      holds_normalize (record_item hc (by simp) (by simp [Protocol.timeouts]))
    have hpath : Holds (normalize c) "path"
        (allOf [string, maxLength 128, pattern (beforeNewline urlPath)]) :=
      holds_normalize (record_item hc (by simp) (by simp))
    have hpolicy : Holds (normalize c) "securityPolicy" (enum ["None", "Basic256Sha256"]) :=
      holds_normalize (record_item hc (by simp) (by simp))
    have hmode : Holds (normalize c) "securityMode" (enum ["None", "Sign", "SignAndEncrypt"]) :=
      holds_normalize (record_item hc (by simp) (by simp))
    have huser : Returns (optStrItem (normalize c) "username") fun _ => True :=
      optStrItem_returns fun v hv => matching_str (record_property hc
        (s := matching 1 128 usernamePattern) (by simp) hv)
    have hpassword : Returns (optStrItem (normalize c) "passwordEnv") fun _ => True :=
      optStrItem_returns fun v hv => matching_str (record_property hc
        (s := matching 1 64 envPattern) (by simp) hv)
    have hstr : ∀ v, allOf [string, maxLength 128, pattern (beforeNewline urlPath)] v = true →
        ∃ t, v = .str t := by
      intro v hv
      have h0 : string v = true := allOf_iff.mp hv _ List.mem_cons_self
      cases v <;> simp [string] at h0
      exact ⟨_, rfl⟩
    refine (hhost.strItem fun _ => matching_str).bind fun _ _ => ?_
    refine hport.intItem.bind fun _ _ => ?_
    refine hconnect.intItem.bind fun _ _ => ?_
    refine hrequest.intItem.bind fun _ _ => ?_
    refine hretry.intItem.bind fun _ _ => ?_
    rw [if_pos rfl]
    refine (hpath.strItem hstr).bind fun _ _ => ?_
    refine (hpolicy.strItem fun _ => enum_string).bind fun _ _ => ?_
    refine (hmode.strItem fun _ => enum_string).bind fun _ _ => ?_
    refine huser.bind fun _ _ => ?_
    refine hpassword.bind fun _ _ => ?_
    exact .pure trivial

theorem strItem_eq_ok {j : Json} {key : String} {t : PyStr} :
    strItem j key = .ok t ↔ j.get? (py key) = some (.str t) := by
  constructor
  · intro h
    obtain ⟨v, hv, ht⟩ := bind_eq_ok h
    cases v <;> simp [asStr] at ht
    subst ht
    exact item_eq_ok.mp hv
  · intro h
    simp [strItem, item_eq_ok.mpr h, asStr, bind, Except.bind]

theorem listItem_eq_ok {j : Json} {key : String} {js : List Json} :
    listItem j key = .ok js ↔ j.get? (py key) = some (.arr js) := by
  constructor
  · intro h
    obtain ⟨v, hv, ht⟩ := bind_eq_ok h
    cases v <;> simp [elements] at ht
    subst ht
    exact item_eq_ok.mp hv
  · intro h
    simp [listItem, item_eq_ok.mpr h, elements, bind, Except.bind]

theorem get?_isSome {j : Json} {k : PyStr} {v : Json} (h : j.get? k = some v) :
    ∃ members, j = .obj members := by
  cases j <;> simp [Json.get?] at h
  exact ⟨_, rfl⟩

/-- A normalised device after the sorting of its points. -/
structure ReadyDevice (w : Json) : Prop where
  deviceId : Holds w "deviceId" Protocol.id
  converts : Returns (device w) fun d => ∀ p ∈ d.points, Readable d.protocol p

/-- Sorting the points of a conforming device leaves a device that converts. -/
theorem sortPoints_returns {d : Json} (h : Protocol.device d = true) :
    Returns (sortPoints (normalize d)) ReadyDevice := by
  obtain ⟨protocol, hprotocol, hd⟩ := device_readable h
  obtain ⟨ps, hps, hpoints⟩ := hd.points
  have hget : (normalize d).get? (py "points") = some (.arr (ps.map normalize)) := by
    rw [get?_normalize, listItem_eq_ok.mp hps, ← normalizeItems_eq]
    rfl
  obtain ⟨members, hobj⟩ := get?_isSome hget
  have hkeys : ∀ w ∈ ps.map normalize, Returns (strItem w "pointId") fun _ => True := by
    intro w hw
    obtain ⟨p, hp, rfl⟩ := List.mem_map.mp hw
    have hid : Returns (item p "pointId") fun v => Protocol.id v = true :=
      point_item (hpoints p hp) (by simp) (by simp)
    exact ((holds_normalize hid).strItem fun _ => matching_str).total
  obtain ⟨sorted, hsort, hperm⟩ := sortBy_returns hkeys
  refine ⟨setItem (normalize d) "points" (.arr sorted), ?_, ?_⟩
  · simp [sortPoints, listItem_eq_ok.mpr hget, hsort, bind, Except.bind, pure, Except.pure]
  -- Every member but the points is the one of the normalised device.
  have hother : ∀ k, k ≠ py "points" →
      (setItem (normalize d) "points" (.arr sorted)).get? k = (normalize d).get? k := by
    intro k hk
    rw [hobj, get?_setItem, if_neg hk]
  have hholds : ∀ (key : String) (s : Schema), py key ≠ py "points" →
      Returns (item d key) (fun v => s v = true) →
      Holds (setItem (normalize d) "points" (.arr sorted)) key s := by
    intro key s hk hr
    obtain ⟨v, hv, hs⟩ := holds_normalize hr
    exact ⟨v, by rw [hother _ hk, hv], hs⟩
  have hstrict := allOf_iff.mp h _ List.mem_cons_self
  have hid := hholds "deviceId" Protocol.id (by decide) (strict_item hstrict (by simp))
  have hname := hholds "name" (text 1 128) (by decide) (strict_item hstrict (by simp))
  have henabled := hholds "enabled" boolean (by decide) (strict_item hstrict (by simp))
  have hconn := hholds "connection" (connectionFor protocol) (by decide) hd.connection
  have hprot : strItem (setItem (normalize d) "points" (.arr sorted)) "protocol"
      = .ok protocol := by
    rw [strItem_eq_ok, hother _ (by decide), get?_normalize, strItem_eq_ok.mp hprotocol]
    rfl
  have hpts : listItem (setItem (normalize d) "points" (.arr sorted)) "points" = .ok sorted := by
    rw [listItem_eq_ok, hobj, get?_setItem, if_pos rfl]
  refine ⟨hid, ?_⟩
  unfold device
  refine Returns.bind (P := fun p => p = protocol) ⟨protocol, hprot, rfl⟩ ?_
  rintro _ rfl
  refine (hid.strItem fun _ => matching_str).bind fun _ _ => ?_
  refine (hname.strItem fun _ => text_str).bind fun _ _ => ?_
  refine (henabled.boolItem fun _ => boolean_bool).bind fun _ _ => ?_
  refine hconn.item.bind fun u hu => ?_
  obtain ⟨c, rfl, hc⟩ := hu
  refine (connection_returns hc hd.known).bind fun _ _ => ?_
  refine Returns.bind (P := fun qs => qs = sorted) ⟨sorted, hpts, rfl⟩ ?_
  rintro _ rfl
  refine Returns.bind ?_ fun points hreadable => .pure hreadable
  refine Returns.mapM (P := Readable _) fun w hw => ?_
  obtain ⟨p, hp, rfl⟩ := List.mem_map.mp (hperm.mem_iff.mp hw)
  exact point_returns (hpoints p hp) hd.known

/-- A conforming message becomes a snapshot. -/
theorem snapshotOf_returns {message : Json} (h : Protocol.configSet message = true)
    (text : PyStr) : Returns (snapshotOf (normalize message) text) fun s =>
      ∀ d ∈ s.devices, ∀ p ∈ d.points, Readable d.protocol p := by
  obtain ⟨hgateway, hmessage, hversion, htimestamp, hconfig⟩ := configSet_members h
  obtain ⟨c, hc, hstrict⟩ := hconfig
  obtain ⟨ds, hds, hdevices⟩ := config_devices hstrict
  have hget : (normalize c).get? (py "devices") = some (.arr (ds.map normalize)) := by
    rw [get?_normalize, listItem_eq_ok.mp hds, ← normalizeItems_eq]
    rfl
  obtain ⟨members, hobj⟩ := get?_isSome hget
  have hkeys : ∀ w ∈ ds.map normalize, Returns (strItem w "deviceId") fun _ => True := by
    intro w hw
    obtain ⟨d, hd, rfl⟩ := List.mem_map.mp hw
    have hid : Returns (item d "deviceId") fun v => Protocol.id v = true :=
      strict_item (allOf_iff.mp (hdevices d hd) _ List.mem_cons_self) (by simp)
    exact ((holds_normalize hid).strItem fun _ => matching_str).total
  obtain ⟨sorted, hsort, hperm⟩ := sortBy_returns hkeys
  have hready : Returns (sorted.mapM sortPoints) fun ws => ∀ w ∈ ws, ReadyDevice w := by
    refine .mapM fun w hw => ?_
    obtain ⟨d, hd, rfl⟩ := List.mem_map.mp (hperm.mem_iff.mp hw)
    exact sortPoints_returns (hdevices d hd)
  obtain ⟨ws, hws, hall⟩ := hready
  have hconfig : sortDevices (normalize c) = .ok (setItem (normalize c) "devices" (.arr ws)) := by
    simp [sortDevices, listItem_eq_ok.mpr hget, hsort, hws, bind, Except.bind, pure, Except.pure]
  have hother : ∀ (key : String) (s : Schema), py key ≠ py "devices" →
      Returns (item c key) (fun v => s v = true) →
      Holds (setItem (normalize c) "devices" (.arr ws)) key s := by
    intro key s hk hr
    obtain ⟨v, hv, hs⟩ := holds_normalize hr
    exact ⟨v, by rw [hobj, get?_setItem, if_neg hk, ← hobj, hv], hs⟩
  have henabled := hother "enabled" boolean (by decide) (strict_item hstrict (by simp))
  have hreport := hother "report" Protocol.report (by decide) (strict_item hstrict (by simp))
  have hlist : listItem (setItem (normalize c) "devices" (.arr ws)) "devices" = .ok ws := by
    rw [listItem_eq_ok, hobj, get?_setItem, if_pos rfl]
  unfold snapshotOf
  refine Returns.bind (P := fun v => v = normalize c)
    ⟨_, item_eq_ok.mpr (by rw [get?_normalize, item_eq_ok.mp hc]; rfl), rfl⟩ ?_
  rintro _ rfl
  refine Returns.bind (P := fun v => v = setItem (normalize c) "devices" (.arr ws))
    ⟨_, hconfig, rfl⟩ ?_
  rintro _ rfl
  refine hreport.item.bind fun u hu => ?_
  obtain ⟨r, rfl, hr⟩ := hu
  have hinterval : Holds (normalize r) "batchIntervalMs" (range 1 86400000) :=
    holds_normalize (strict_item hr (by simp))
  have hbatch : Holds (normalize r) "maxBatchPoints" (range 1 500) :=
    holds_normalize (strict_item hr (by simp))
  refine ((holds_normalize hgateway).strItem fun _ => matching_str).bind fun _ _ => ?_
  refine ((holds_normalize hmessage).strItem fun _ => matching_str).bind fun _ _ => ?_
  refine (holds_normalize hversion).intItem.bind fun _ _ => ?_
  refine (holds_normalize htimestamp).intItem.bind fun _ _ => ?_
  refine (henabled.boolItem fun _ => boolean_bool).bind fun _ _ => ?_
  refine hinterval.intItem.bind fun _ _ => ?_
  refine hbatch.intItem.bind fun _ _ => ?_
  refine Returns.bind (P := fun v => v = ws) ⟨ws, hlist, rfl⟩ ?_
  rintro _ rfl
  refine Returns.bind ?_ fun devices hreadable => .pure hreadable
  exact .mapM fun w hw => (hall w hw).converts

end Snapshot

/-! ## What `parse` returns -/

section Parse

variable {payload : Bytes} {gatewayId : PyStr}

/-- A snapshot and the message it was parsed from. -/
structure Parsed (payload : Bytes) (s : ConfigSnapshot) (message : Json) : Prop where
  decoded : utf8Decode payload = some s.wireJson
  loaded : loads s.wireJson = some message
  conforming : Protocol.configSet message = true
  snapshot : snapshotOf (normalize message) s.wireJson = .ok s

theorem decodeMessage_eq_some {message : Json} (h : decodeMessage payload = some message) :
    ∃ text, utf8Decode payload = some text ∧ loads text = some message := by
  unfold decodeMessage at h
  split at h
  · rename_i m hm
    split at h
    · cases h
      exact Option.bind_eq_some_iff.mp hm
    · cases h
  · cases h

/-- The parts of a snapshot that its identity and its content come from. -/
theorem snapshotOf_eq_ok {wire : Json} {text : PyStr} {s : ConfigSnapshot}
    (h : snapshotOf wire text = .ok s) :
    s.wireJson = text ∧ strItem wire "messageId" = .ok s.messageId ∧
      intItem wire "configVersion" = .ok s.configVersion ∧
      ∃ c config, item wire "config" = .ok c ∧ sortDevices c = .ok config ∧
        s.contentJson = json config := by
  unfold snapshotOf at h
  obtain ⟨c, hc, h⟩ := bind_eq_ok h
  obtain ⟨config, hconfig, h⟩ := bind_eq_ok h
  obtain ⟨_, -, h⟩ := bind_eq_ok h
  obtain ⟨_, -, h⟩ := bind_eq_ok h
  obtain ⟨m, hm, h⟩ := bind_eq_ok h
  obtain ⟨v, hv, h⟩ := bind_eq_ok h
  obtain ⟨_, -, h⟩ := bind_eq_ok h
  obtain ⟨_, -, h⟩ := bind_eq_ok h
  obtain ⟨_, -, h⟩ := bind_eq_ok h
  obtain ⟨_, -, h⟩ := bind_eq_ok h
  obtain ⟨_, -, h⟩ := bind_eq_ok h
  obtain ⟨_, -, h⟩ := bind_eq_ok h
  cases h
  exact ⟨rfl, hm, hv, c, config, hc, hconfig, rfl⟩

theorem intItem_eq_ok {j : Json} {key : String} {n : ℤ} :
    intItem j key = .ok n ↔ j.get? (py key) = some (.int n) := by
  constructor
  · intro h
    obtain ⟨v, hv, ht⟩ := bind_eq_ok h
    cases v <;> simp at ht
    subst ht
    exact item_eq_ok.mp hv
  · intro h
    simp [intItem, item_eq_ok.mpr h, bind, Except.bind]

theorem strItem_normalize {j : Json} {key : String} {t : PyStr}
    (h : strItem (normalize j) key = .ok t) : strItem j key = .ok t := by
  rw [strItem_eq_ok, get?_normalize, Option.map_eq_some_iff] at h
  obtain ⟨v, hv, ht⟩ := h
  rw [strItem_eq_ok, hv]
  cases v <;> simp [normalize] at ht
  · split at ht <;> cases ht
  · rw [ht]

namespace Parsed

variable {s : ConfigSnapshot} {message : Json}

/-- The wire text is the payload. -/
theorem encoded (h : Parsed payload s message) : utf8Encode s.wireJson = some payload :=
  utf8Encode_of_utf8Decode h.decoded

theorem fields (h : Parsed payload s message) :
    strItem message "messageId" = .ok s.messageId ∧
      intItem (normalize message) "configVersion" = .ok s.configVersion := by
  obtain ⟨-, hm, hv, -⟩ := snapshotOf_eq_ok h.snapshot
  exact ⟨strItem_normalize hm, hv⟩

/-- Versions are positive. -/
theorem version_pos (h : Parsed payload s message) : 0 < s.configVersion := by
  obtain ⟨-, -, hversion, -, -⟩ := configSet_members h.conforming
  obtain ⟨n, hn, hlo, -⟩ := (holds_normalize hversion).intItem
  have hv := h.fields.2
  rw [hn] at hv
  cases hv
  have : (0 : ℚ) < s.configVersion := lt_of_lt_of_le one_pos hlo
  exact_mod_cast this

/-- The drivers can read every point of a parsed snapshot. -/
theorem readable (h : Parsed payload s message) {d : DeviceConfig} (hd : d ∈ s.devices)
    {p : PointConfig} (hp : p ∈ d.points) : Readable d.protocol p := by
  obtain ⟨t, ht, hall⟩ := snapshotOf_returns h.conforming s.wireJson
  rw [h.snapshot] at ht
  cases ht
  exact hall d hd p hp

end Parsed

variable [JsonSchema]

/-- Parsing returns a snapshot or raises `ConfigValidationError` with issues. -/
theorem parse_cases (payload : Bytes) (gatewayId : PyStr) :
    (∃ s message, ConfigSnapshot.parse payload gatewayId = .ok s ∧ Parsed payload s message ∧
      item message "gatewayId" = .ok (.str gatewayId)) ∨
      ∃ issues, issues ≠ [] ∧ ConfigSnapshot.parse payload gatewayId = .error (.validation issues) := by
  obtain ⟨issues, hvalid, -⟩ :=
    validateMessage_returns (.inl rfl)
  unfold ConfigSnapshot.parse
  rw [hvalid]
  by_cases hi : issues = []
  · subst hi
    obtain ⟨message, hmessage, hconf, hgate, -⟩ := validateMessage_valid hvalid
    obtain ⟨text, htext, hloads⟩ := decodeMessage_eq_some hmessage
    obtain ⟨s, hs, -⟩ := snapshotOf_returns hconf text
    have hwire : s.wireJson = text := (snapshotOf_eq_ok hs).1
    refine .inl ⟨s, message, ?_, ⟨by rw [hwire, htext], by rw [hwire, hloads], hconf,
      by rw [hwire, hs]⟩, hgate⟩
    simp [decodeText, htext, hloads, hs, bind, Except.bind]
  · exact .inr ⟨issues, hi, by simp [hi, bind, Except.bind, throw, throwThe, MonadExceptOf.throw]⟩

/-- What a parsed snapshot was parsed from. -/
theorem parse_eq_ok {s : ConfigSnapshot} (h : ConfigSnapshot.parse payload gatewayId = .ok s) :
    ∃ message, Parsed payload s message ∧ item message "gatewayId" = .ok (.str gatewayId) := by
  rcases parse_cases payload gatewayId with ⟨s', message, hs', hp, hg⟩ | ⟨issues, -, hi⟩
  · rw [h] at hs'
    cases hs'
    exact ⟨message, hp, hg⟩
  · rw [h] at hi
    cases hi

end Parse

end PlcnextIot.Config
