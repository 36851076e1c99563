/-
  PlcnextIot.Config.Merge

  The message that `materialize` builds around a command can be written and
  read again, so the snapshot it returns carries the command's identity.
-/

import PlcnextIot.Config.Content

namespace PlcnextIot.Config

open PlcnextIot.Python PlcnextIot.Contracts PlcnextIot.Effect PlcnextIot.Contracts.Schema

/-! ## Dictionaries of loaded values -/

/-- The values of a dictionary are loaded. -/
def LoadedValues (members : List (PyStr × Json)) : Prop := ∀ m ∈ members, m.2.Loaded

theorem loaded_obj {members : List (PyStr × Json)} :
    (Json.obj members).Loaded ↔ (members.map (·.1)).Nodup ∧ LoadedValues members := by
  rw [Json.Loaded, loadedMembers_iff]
  rfl

theorem mem_of_lookup {members : List (PyStr × Json)} {key : PyStr} {v : Json}
    (h : members.lookup key = some v) : (key, v) ∈ members := by
  obtain ⟨before, after, rfl, -⟩ := List.lookup_eq_some_iff.mp h
  exact List.mem_append_right _ List.mem_cons_self

theorem get?_loaded {j v : Json} {key : PyStr} (h : j.Loaded) (hv : j.get? key = some v) :
    v.Loaded := by
  obtain ⟨members, rfl⟩ := get?_isSome hv
  exact (loaded_obj.mp h).2 _ (mem_of_lookup hv)

theorem listItem_loaded {j : Json} {key : String} {js : List Json} (h : j.Loaded)
    (hv : listItem j key = .ok js) : ∀ v ∈ js, v.Loaded := by
  have harr : (Json.arr js).Loaded := get?_loaded h (listItem_eq_ok.mp hv)
  rw [Json.Loaded, loadedItems_iff] at harr
  exact harr

theorem setMember_keys (members : List (PyStr × Json)) (key : PyStr) (v : Json) :
    (setMember members key v).map (·.1)
      = if key ∈ members.map (·.1) then members.map (·.1) else members.map (·.1) ++ [key] := by
  induction members with
  | nil => simp [setMember]
  | cons m rest ih =>
      obtain ⟨k, w⟩ := m
      rw [setMember]
      by_cases hk : k = key
      · simp [hk]
      · rw [if_neg hk, List.map_cons, ih]
        by_cases hmem : key ∈ rest.map (·.1)
        · simp [hmem]
        · have hne : ¬ key = k := fun h => hk h.symm
          simp [hmem, hne]

theorem mem_setMember {members : List (PyStr × Json)} {key : PyStr} {v : Json} {m : PyStr × Json}
    (h : m ∈ setMember members key v) : m ∈ members ∨ m = (key, v) := by
  induction members with
  | nil => exact .inr (List.mem_singleton.mp h)
  | cons n rest ih =>
      obtain ⟨k, w⟩ := n
      rw [setMember] at h
      by_cases hk : k = key
      · rw [if_pos hk] at h
        rcases List.mem_cons.mp h with rfl | h
        · exact .inr (by rw [hk])
        · exact .inl (List.mem_cons_of_mem _ h)
      · rw [if_neg hk] at h
        rcases List.mem_cons.mp h with rfl | h
        · exact .inl List.mem_cons_self
        · exact (ih h).imp (List.mem_cons_of_mem _) id

theorem LoadedValues.setMember {members : List (PyStr × Json)} (h : LoadedValues members)
    {key : PyStr} {v : Json} (hv : v.Loaded) : LoadedValues (setMember members key v) := by
  intro m hm
  rcases mem_setMember hm with hm | rfl
  · exact h m hm
  · exact hv

theorem nodup_setMember {members : List (PyStr × Json)} (h : (members.map (·.1)).Nodup)
    (key : PyStr) (v : Json) : ((setMember members key v).map (·.1)).Nodup := by
  rw [setMember_keys]
  split
  · exact h
  · rename_i hk
    rw [List.nodup_append]
    refine ⟨h, List.nodup_singleton _, fun a ha b hb => ?_⟩
    rw [List.mem_singleton.mp hb]
    exact fun heq => hk (heq ▸ ha)

theorem loaded_updateMembers {members other : List (PyStr × Json)} (h : (Json.obj members).Loaded)
    (ho : LoadedValues other) : (Json.obj (updateMembers members other)).Loaded := by
  unfold updateMembers
  induction other generalizing members with
  | nil => exact h
  | cons m rest ih =>
      obtain ⟨hnodup, hvals⟩ := loaded_obj.mp h
      have hm : m.2.Loaded := ho m List.mem_cons_self
      refine ih ?_ fun n hn => ho n (List.mem_cons_of_mem _ hn)
      exact loaded_obj.mpr ⟨nodup_setMember hnodup _ _, hvals.setMember hm⟩

/-! ## The merged configuration -/

theorem byDeviceId_loaded {devices : List Json} {ms : List (PyStr × Json)}
    (hd : ∀ d ∈ devices, d.Loaded) (h : byDeviceId devices = .ok ms) : LoadedValues ms := by
  unfold byDeviceId at h
  suffices hgen : ∀ (acc : List (PyStr × Json)), LoadedValues acc →
      devices.foldlM (fun ms d => (do return setMember ms (← strItem d "deviceId") d :
        Except PyExc (List (PyStr × Json)))) acc = .ok ms → LoadedValues ms from
    hgen [] (fun _ hm => absurd hm List.not_mem_nil) h
  clear h
  induction devices with
  | nil =>
      intro acc hacc h
      cases h
      exact hacc
  | cons d rest ih =>
      intro acc hacc h
      rw [List.foldlM_cons] at h
      obtain ⟨acc', hstep, h⟩ := bind_eq_ok h
      obtain ⟨k, -, hk⟩ := bind_eq_ok hstep
      cases hk
      exact ih (fun x hx => hd x (List.mem_cons_of_mem _ hx)) _
        (hacc.setMember (hd d List.mem_cons_self)) h

theorem lift_eq_ok {α : Type} {x : Except PyExc α} {a : α} (h : lift x = .ok a) : x = .ok a := by
  cases x with
  | ok b =>
      cases h
      rfl
  | error e => cases h

theorem applyOperation_loaded {ms ms' : List (PyStr × Json)} {o : Json} {i : Nat}
    (hms : LoadedValues ms) (ho : o.Loaded) (h : applyOperation ms (o, i) = .ok ms') :
    LoadedValues ms' := by
  unfold applyOperation at h
  obtain ⟨key, -, h⟩ := bind_eq_ok h
  obtain ⟨op, -, h⟩ := bind_eq_ok h
  dsimp only at h
  split at h
  · cases h
  split at h
  · cases h
  split at h
  · cases h
    exact fun m hm => hms m (List.mem_of_mem_eraseP hm)
  · obtain ⟨d, hd, h⟩ := bind_eq_ok h
    cases h
    exact hms.setMember (get?_loaded ho (item_eq_ok.mp (lift_eq_ok hd)))

theorem foldlM_applyOperation_loaded {entries : List (Json × Nat)} {ms ms' : List (PyStr × Json)}
    (hms : LoadedValues ms) (ho : ∀ e ∈ entries, e.1.Loaded)
    (h : entries.foldlM applyOperation ms = .ok ms') : LoadedValues ms' := by
  induction entries generalizing ms with
  | nil =>
      cases h
      exact hms
  | cons e rest ih =>
      rw [List.foldlM_cons] at h
      obtain ⟨ms1, h1, h⟩ := bind_eq_ok h
      have hms1 : LoadedValues ms1 :=
        applyOperation_loaded hms (ho e List.mem_cons_self) h1
      exact ih hms1 (fun x hx => ho x (List.mem_cons_of_mem _ hx)) h

theorem baseConfig_loaded {active : Option ConfigSnapshot} {members : List (PyStr × Json)}
    (h : baseConfig active = .ok members) : (Json.obj members).Loaded := by
  cases active with
  | none =>
      cases h
      exact ⟨List.nodup_singleton _, trivial, trivial⟩
  | some a =>
      simp only [baseConfig] at h
      split at h
      · cases h
      · rename_i config hconfig
        have hl : config.Loaded := loads_loaded hconfig
        cases config <;> simp [membersOf] at h
        subst h
        exact hl

theorem gatewayMembers_loaded {command : Json} (hc : command.Loaded)
    {members : List (PyStr × Json)} (h : gatewayMembers command = .ok members) :
    LoadedValues members := by
  unfold gatewayMembers at h
  split at h
  · cases h
    exact fun _ hm => absurd hm List.not_mem_nil
  · rename_i gateway hget
    have hl : gateway.Loaded := get?_loaded hc hget
    cases gateway <;> simp [membersOf] at h
    subst h
    exact (loaded_obj.mp hl).2

/-- The merged configuration of a loaded command is loaded. -/
theorem merged_loaded {command config : Json} {active : Option ConfigSnapshot}
    (hc : command.Loaded) (h : merged command active = .ok config) : config.Loaded := by
  unfold merged at h
  obtain ⟨differs, -, h⟩ := bind_eq_ok h
  split at h
  · cases h
  obtain ⟨base, hbase, h⟩ := bind_eq_ok h
  obtain ⟨gateway, hgateway, h⟩ := bind_eq_ok h
  obtain ⟨devices, hdevices, h⟩ := bind_eq_ok h
  obtain ⟨known, hknown, h⟩ := bind_eq_ok h
  obtain ⟨ops, hops, h⟩ := bind_eq_ok h
  obtain ⟨ms, hms, h⟩ := bind_eq_ok h
  cases h
  have hupdated : (Json.obj (updateMembers base gateway)).Loaded :=
    loaded_updateMembers (baseConfig_loaded (lift_eq_ok hbase))
      (gatewayMembers_loaded hc (lift_eq_ok hgateway))
  have hlist : ∀ d ∈ devices, d.Loaded := listItem_loaded hupdated (lift_eq_ok hdevices)
  have hby : LoadedValues known := byDeviceId_loaded hlist (lift_eq_ok hknown)
  have hopsl : ∀ o ∈ ops, o.Loaded := listItem_loaded hc (lift_eq_ok hops)
  have hvals : LoadedValues ms :=
    foldlM_applyOperation_loaded hby (fun e he => hopsl _ (mem_of_mem_zipIdx he)) hms
  have harr : (Json.arr (ms.map (·.2))).Loaded := by
    rw [Json.Loaded, loadedItems_iff]
    intro v hv
    obtain ⟨m, hm, rfl⟩ := List.mem_map.mp hv
    exact hvals m hm
  obtain ⟨hnodup, hv⟩ := loaded_obj.mp hupdated
  exact loaded_obj.mpr ⟨nodup_setMember hnodup _ _, hv.setMember harr⟩

/-! ## The complete message -/

/-- The members that the envelope takes over, one by one. -/
theorem envelope_eq_ok {command config full : Json} (h : envelope command config = .ok full) :
    ∃ sv g t m v, full = .obj [(py "schemaVersion", sv), (py "gatewayId", g), (py "timestamp", t),
        (py "messageId", m), (py "configVersion", v), (py "config", config)] ∧
      command.get? (py "schemaVersion") = some sv ∧ command.get? (py "gatewayId") = some g ∧
      command.get? (py "timestamp") = some t ∧ command.get? (py "messageId") = some m ∧
      command.get? (py "configVersion") = some v := by
  unfold envelope envelopeKeys at h
  obtain ⟨members, hmembers, h⟩ := bind_eq_ok h
  cases h
  have taken : ∀ {k : String} {p : PyStr × Json},
      (do return (py k, ← item command k) : Except PyExc (PyStr × Json)) = .ok p →
        ∃ v, p = (py k, v) ∧ item command k = .ok v := by
    intro k p hp
    obtain ⟨v, hv, hp⟩ := bind_eq_ok hp
    cases hp
    exact ⟨v, rfl, hv⟩
  have htaken := mapM_eq_ok hmembers
  clear hmembers
  rcases htaken with _ | ⟨h1, _ | ⟨h2, _ | ⟨h3, _ | ⟨h4, _ | ⟨h5, _ | _⟩⟩⟩⟩⟩
  obtain ⟨sv, rfl, hsv⟩ := taken h1
  obtain ⟨g, rfl, hg⟩ := taken h2
  obtain ⟨t, rfl, ht⟩ := taken h3
  obtain ⟨m, rfl, hm⟩ := taken h4
  obtain ⟨v, rfl, hv⟩ := taken h5
  exact ⟨sv, g, t, m, v, rfl, item_eq_ok.mp hsv, item_eq_ok.mp hg, item_eq_ok.mp ht,
    item_eq_ok.mp hm, item_eq_ok.mp hv⟩

theorem envelope_loaded {command config full : Json} (hc : command.Loaded) (hl : config.Loaded)
    (h : envelope command config = .ok full) : full.Loaded := by
  obtain ⟨sv, g, t, m, v, rfl, hsv, hg, ht, hm, hv⟩ := envelope_eq_ok h
  refine loaded_obj.mpr ⟨?_, fun p hp => ?_⟩
  · show [py "schemaVersion", py "gatewayId", py "timestamp", py "messageId",
      py "configVersion", py "config"].Nodup
    decide
  simp only [List.mem_cons, List.not_mem_nil, or_false] at hp
  rcases hp with rfl | rfl | rfl | rfl | rfl | rfl
  · exact get?_loaded hc hsv
  · exact get?_loaded hc hg
  · exact get?_loaded hc ht
  · exact get?_loaded hc hm
  · exact get?_loaded hc hv
  · exact hl

/-! ## The snapshot of a command -/

section Materialize

variable [JsonSchema] {gatewayId : PyStr} {command : Json} {active : Option ConfigSnapshot}

/-- A materialised snapshot was parsed from the text of the complete message. -/
theorem materialize_eq_ok {s : ConfigSnapshot} (hc : command.Loaded)
    (h : materialize command active gatewayId = .ok s) :
    ∃ config full payload, merged command active = .ok config ∧
      envelope command config = .ok full ∧ utf8Encode (dumps full) = some payload ∧
      ConfigSnapshot.parse payload gatewayId = .ok s ∧ Parsed payload s full := by
  unfold materialize at h
  obtain ⟨config, hconfig, h⟩ := bind_eq_ok h
  obtain ⟨full, hfull, h⟩ := bind_eq_ok h
  have hfull' := lift_eq_ok hfull
  split at h
  · cases h
  · rename_i payload hpayload
    obtain ⟨message, hparsed, -⟩ := parse_eq_ok h
    have hl : full.Loaded := envelope_loaded hc (merged_loaded hc hconfig) hfull'
    have hwire : s.wireJson = dumps full := by
      have hd := hparsed.decoded
      rw [utf8Decode_of_utf8Encode hpayload] at hd
      exact (Option.some.inj hd).symm
    have hmessage : message = full := by
      have hm := hparsed.loaded
      rw [hwire, loads_dumps hl] at hm
      exact (Option.some.inj hm).symm
    exact ⟨config, full, payload, hconfig, hfull', hpayload, h, hmessage ▸ hparsed⟩

/-- The snapshot of a command carries the command's identity. -/
theorem materialize_identity {s : ConfigSnapshot} (hc : command.Loaded)
    (h : materialize command active gatewayId = .ok s) :
    strItem command "messageId" = .ok s.messageId ∧
      intItem (normalize command) "configVersion" = .ok s.configVersion := by
  obtain ⟨config, full, payload, -, hfull, -, -, hparsed⟩ := materialize_eq_ok hc h
  obtain ⟨sv, g, t, m, v, rfl, -, -, -, hm, hv⟩ := envelope_eq_ok hfull
  obtain ⟨hmessage, hversion⟩ := hparsed.fields
  constructor
  · rw [strItem_eq_ok] at hmessage ⊢
    rw [hm, ← hmessage]
    rfl
  · rw [intItem_eq_ok, get?_normalize] at hversion ⊢
    rw [hv, ← hversion]
    rfl

/-- Parsing a command returns it or raises `ConfigValidationError`. -/
theorem parseCommand_cases (payload : Bytes) (gatewayId : PyStr) :
    (∃ command, parseCommand payload gatewayId = .ok command ∧ command.Loaded ∧
      Protocol.configPatch command = true ∧ item command "gatewayId" = .ok (.str gatewayId)) ∨
      ∃ issues, issues ≠ [] ∧ parseCommand payload gatewayId = .error (.validation issues) := by
  obtain ⟨issues, hvalid, -⟩ :=
    validateMessage_returns (.inr rfl)
  unfold parseCommand
  rw [hvalid]
  by_cases hi : issues = []
  · subst hi
    obtain ⟨message, hmessage, hconf, hgate, -⟩ := validateMessage_valid hvalid
    obtain ⟨text, htext, hloads⟩ := decodeMessage_eq_some hmessage
    refine .inl ⟨message, ?_, loads_loaded hloads, hconf, hgate⟩
    simp [decodeText, htext, hloads, bind, Except.bind, pure, Except.pure]
  · exact .inr ⟨issues, hi, by simp [hi, bind, Except.bind, throw, throwThe, MonadExceptOf.throw]⟩

end Materialize

end PlcnextIot.Config
