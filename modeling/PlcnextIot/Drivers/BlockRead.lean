/-
  PlcnextIot.Drivers.BlockRead

  `ModbusReader.read_block` of `drivers/modbus.py`: one request for a block, and
  one for each of its points when the device does not know an address of it.

  A device is what each request finds: registers and bits by area, and what may
  go wrong on the way.  The reader stays open, and its lock serialises the
  requests, so they are numbered.
-/

import PlcnextIot.Drivers.ReadPlan
import PlcnextIot.Drivers.Values
import PlcnextIot.Python.Dict

namespace PlcnextIot.Drivers

open PlcnextIot.Python PlcnextIot.Config PlcnextIot.Points PlcnextIot.Effect

/-! ## The device -/

/-- `ReadError` -/
structure ReadError where
  quality : Quality
  exceptionCode : Option ℤ := none
  deriving DecidableEq, Repr

/-- What may happen to a request instead of the access that it asks for. -/
inductive Fault where
  | timeout
  | connection
  | protocol (exceptionCode : Option ℤ)
  deriving DecidableEq, Repr

def Fault.readError : Fault → ReadError
  | .timeout => ⟨.badTimeout, none⟩
  | .connection => ⟨.badConnection, none⟩
  | .protocol code => ⟨.badProtocol, code⟩

/-- What the `n`-th request finds.  A response of bits is padded to whole bytes. -/
structure ModbusDevice where
  memory : ℕ → PyStr → ℤ → Option Register
  fault : ℕ → Option Fault
  padding : ℕ → List Register

/-- `exc.quality in ('BAD_TIMEOUT', 'BAD_CONNECTION')` -/
def transport (q : Quality) : Bool := q = .badTimeout || q = .badConnection

/-- The values at the addresses of a block, if the device has them all. -/
def ModbusDevice.valuesAt (dev : ModbusDevice) (n : ℕ) (area : PyStr) :
    ℤ → ℕ → Option (List Register)
  | _, 0 => some []
  | address, count + 1 => do
    let v ← dev.memory n area address
    return v :: (← dev.valuesAt n area (address + 1) count)

/-- `_read_once`: illegal data address is exception code 2. -/
def ModbusDevice.readOnce (dev : ModbusDevice) (n : ℕ) (block : ReadBlock) :
    Except ReadError (List Register) :=
  match dev.fault n with
  | some fault => .error fault.readError
  | none =>
    match dev.valuesAt n block.area block.address block.count.toNat with
    | none => .error ⟨.badProtocol, some 2⟩
    | some values =>
      .ok (if block.area = py "coil" ∨ block.area = py "discrete_input" then
        values ++ dev.padding n else values)

/-- `_read_raw`, and the number of the next request. -/
def ModbusDevice.readRaw (dev : ModbusDevice) (block : ReadBlock) :
    ℕ → ℕ → Except ReadError (List Register) × ℕ
  | 0, n => (dev.readOnce n block, n + 1)
  | retries + 1, n =>
    match dev.readOnce n block with
    | .ok values => (.ok values, n + 1)
    | .error e => if transport e.quality then dev.readRaw block retries (n + 1) else (.error e, n + 1)

/-! ## `read_block` -/

/-- `dict[point_id, (value, quality)]` -/
abbrev BlockResults := Dict PyStr (Option Value × Quality)

/-- What ends `read_block`: a failed request, or an exception of `decode` that is not
    caught. -/
inductive BlockExc where
  | read (e : ReadError)
  | decode (e : DecodeExc)
  deriving DecidableEq, Repr

section Reads

variable [FloatArith]

/-- The results of the points, cut out of the response of the block. -/
def sliceResults (block : ReadBlock) (values : List Register) :
    List PointConfig → BlockResults → Except DecodeExc BlockResults
  | [], results => .ok results
  | p :: rest, results => do
    let r ← pointResult p (block.slice values p)
    sliceResults block values rest (results.set p.pointId r)

/-- `for remaining in ...: results[remaining.point_id] = (None, failure.quality)` -/
def failRemaining (quality : Quality) (points : List PointConfig) (results : BlockResults) :
    BlockResults :=
  points.foldl (fun results p => results.set p.pointId (none, quality)) results

/-- The loop over the points after an illegal address: the results, `used`, and the
    number of the next request. -/
def fallback (dev : ModbusDevice) (block : ReadBlock) (budget : ℕ) :
    List PointConfig → BlockResults → ℕ → ℕ → Except DecodeExc (BlockResults × ℕ × ℕ)
  | [], results, used, n => .ok (results, used, n)
  | p :: rest, results, used, n =>
    -- No request is left for this point.
    if budget ≤ used then
      fallback dev block budget rest (results.set p.pointId (none, .badProtocol)) used n
    else do
      let m ← readAddress p
      match dev.readRaw (.single (m, p)) 0 n with
      | (.ok raw, n) =>
        let r ← registerOutcome p (raw.take (width p))
        fallback dev block budget rest (results.set p.pointId r) (used + 1) n
      | (.error failure, n) =>
        let results := results.set p.pointId (none, failure.quality)
        -- The connection is gone, and with it the points that are left.
        if transport failure.quality then
          .ok (failRemaining failure.quality (block.points.drop (used + 1)) results, used + 1, n)
        else fallback dev block budget rest results (used + 1) n

/-- `read_block`: the results and the extra requests, and the number of the next
    request. -/
def readBlock (dev : ModbusDevice) (block : ReadBlock) (retries budget n : ℕ) :
    Except BlockExc (BlockResults × ℕ) × ℕ :=
  match dev.readRaw block retries n with
  | (.ok values, n) =>
    (match sliceResults block values block.points .empty with
      | .ok results => .ok (results, 0)
      | .error e => .error (.decode e), n)
  | (.error e, n) =>
    -- Only an unknown address of a block of several points is asked for point by point.
    if e.exceptionCode ≠ some 2 ∨ block.points.length = 1 then (.error (.read e), n)
    else
      match fallback dev block budget block.points .empty 0 n with
      | .ok (results, used, n) => (.ok (results, used), n)
      | .error e => (.error (.decode e), n)

/-! ## A point by itself -/

/-- What `read` of a point gives as the `n`-th request: its value, or the quality of the
    failure. -/
def ownRead (dev : ModbusDevice) (n : ℕ) (p : PointConfig) :
    Except DecodeExc (Option Value × Quality) := do
  let m ← readAddress p
  match dev.readOnce n (.single (m, p)) with
  | .ok raw => registerOutcome p (raw.take (width p))
  | .error e => .ok (none, e.quality)

/-- What the drivers are promised of a Modbus point. -/
def Promised (p : PointConfig) : Prop := (∃ m, ModbusPoint p m) ∧ Readable (py "modbus_tcp") p

/-- `decode` of a promised point gives a value or BAD_DECODE. -/
theorem registerOutcome_returns {p : PointConfig} (h : Readable (py "modbus_tcp") p)
    (values : List Register) :
    ∃ o, registerOutcome p values = .ok o ∧ transport o.2 = false := by
  have hdecode : (∃ v, decodeRegisters p values = .ok v) ∨
      ∃ e, decodeRegisters p values = .error e ∧ modbusCatches e = true := by
    unfold decodeRegisters
    by_cases hbool : p.dataType = py "bool"
    · rw [if_pos hbool]
      split
      · exact .inl ⟨_, rfl⟩
      · exact .inr ⟨_, rfl, rfl⟩
    · rw [if_neg hbool]
      have hscaled : ∀ raw, (∃ v, scaled p raw = .ok v) ∨
          ∃ e, scaled p raw = .error e ∧ modbusCatches e = true := by
        intro raw
        rcases scaled_cases p raw with ⟨n, s, o, -, -, -, h⟩ | ⟨-, ⟨x, -, h⟩ | ⟨e, he, h⟩⟩
        · exact .inl ⟨_, h⟩
        · exact .inl ⟨_, h⟩
        · exact .inr ⟨e, h, modbusCatches_arithmetic e he⟩
      have hreads := registerNumber_spec h hbool values
      unfold ReadsRegisters at hreads
      split at hreads
      · rw [hreads]
        exact hscaled _
      · rcases hreads with ⟨x, hx⟩ | ⟨e, he, hcatch⟩
        · rw [hx]
          exact hscaled _
        · rw [he]
          exact .inr ⟨e, rfl, hcatch⟩
  rcases hdecode with ⟨v, hv⟩ | ⟨e, he, hcatch⟩
  · exact ⟨_, by rw [registerOutcome, hv]; rfl, rfl⟩
  · exact ⟨(none, .badDecode), by rw [registerOutcome, he, outcome, if_pos hcatch], rfl⟩

theorem ownRead_returns (dev : ModbusDevice) (n : ℕ) {p : PointConfig} (h : Promised p) :
    ∃ o, ownRead dev n p = .ok o := by
  obtain ⟨⟨m, hm⟩, hreadable⟩ := h
  unfold ownRead readAddress
  rw [hm.modbus]
  show ∃ o, (match dev.readOnce n (.single (m, p)) with
    | .ok raw => registerOutcome p (raw.take (width p))
    | .error e => .ok (none, e.quality)) = .ok o
  split
  · obtain ⟨o, ho, -⟩ := registerOutcome_returns hreadable _
    exact ⟨o, ho⟩
  · exact ⟨_, rfl⟩

/-! ## Slices -/

section Slices

variable {dev : ModbusDevice} {n : ℕ} {area : PyStr}

omit [FloatArith]

theorem valuesAt_succ {address : ℤ} {count : ℕ} {vs : List Register}
    (h : dev.valuesAt n area address (count + 1) = some vs) :
    ∃ v rest, vs = v :: rest ∧ dev.memory n area address = some v ∧
      dev.valuesAt n area (address + 1) count = some rest := by
  simp only [ModbusDevice.valuesAt, Option.bind_eq_bind, Option.bind_eq_some_iff, Option.pure_def,
    Option.some.injEq] at h
  obtain ⟨v, hv, rest, hrest, rfl⟩ := h
  exact ⟨v, rest, rfl, hv, hrest⟩

theorem valuesAt_length {address : ℤ} {count : ℕ} {vs : List Register}
    (h : dev.valuesAt n area address count = some vs) : vs.length = count := by
  induction count generalizing address vs with
  | zero =>
      cases h
      rfl
  | succ count ih =>
      obtain ⟨v, rest, rfl, -, hrest⟩ := valuesAt_succ h
      rw [List.length_cons, ih hrest]

theorem valuesAt_take {address : ℤ} {count w : ℕ} {vs : List Register} (hw : w ≤ count)
    (h : dev.valuesAt n area address count = some vs) :
    dev.valuesAt n area address w = some (vs.take w) := by
  induction w generalizing address count vs with
  | zero => rfl
  | succ w ih =>
      obtain ⟨count, rfl⟩ : ∃ c, count = c + 1 := ⟨count - 1, by omega⟩
      obtain ⟨v, rest, rfl, hv, hrest⟩ := valuesAt_succ h
      simp only [ModbusDevice.valuesAt, hv, ih (Nat.le_of_succ_le_succ hw) hrest, List.take_succ_cons]
      rfl

/-- A part of an access is an access of its own. -/
theorem valuesAt_slice {address : ℤ} {count off w : ℕ} {vs : List Register} (hw : off + w ≤ count)
    (h : dev.valuesAt n area address count = some vs) :
    dev.valuesAt n area (address + off) w = some ((vs.drop off).take w) := by
  induction off generalizing address count vs with
  | zero =>
      rw [Nat.cast_zero, add_zero, List.drop_zero]
      exact valuesAt_take (by omega) h
  | succ off ih =>
      obtain ⟨count, rfl⟩ : ∃ c, count = c + 1 := ⟨count - 1, by omega⟩
      obtain ⟨v, rest, rfl, -, hrest⟩ := valuesAt_succ h
      have haddress : address + ((off + 1 : ℕ) : ℤ) = address + 1 + off := by
        push_cast
        ring
      rw [haddress, List.drop_succ_cons]
      exact ih (by omega) hrest

/-- A request that succeeded, after those that did not. -/
theorem readRaw_ok {block : ReadBlock} {retries n' : ℕ} {values : List Register}
    (h : dev.readRaw block retries n = (.ok values, n')) :
    ∃ k, n ≤ k ∧ n' = k + 1 ∧ dev.readOnce k block = .ok values := by
  induction retries generalizing n with
  | zero =>
      simp only [ModbusDevice.readRaw, Prod.mk.injEq] at h
      exact ⟨n, le_rfl, h.2.symm, h.1⟩
  | succ retries ih =>
      rw [ModbusDevice.readRaw] at h
      cases hread : dev.readOnce n block with
      | ok vs =>
          rw [hread] at h
          cases h
          exact ⟨n, le_rfl, rfl, hread⟩
      | error e =>
          rw [hread] at h
          dsimp only at h
          split at h
          · obtain ⟨k, hk, hn', hok⟩ := ih h
            exact ⟨k, by omega, hn', hok⟩
          · cases h

theorem readOnce_ok {block : ReadBlock} {values : List Register}
    (h : dev.readOnce n block = .ok values) :
    dev.fault n = none ∧ ∃ vs pad, values = vs ++ pad ∧
      dev.valuesAt n block.area block.address block.count.toNat = some vs := by
  unfold ModbusDevice.readOnce at h
  split at h
  · cases h
  · rename_i hfault
    refine ⟨hfault, ?_⟩
    split at h
    · cases h
    · rename_i vs hvs
      cases h
      split
      · exact ⟨vs, _, rfl, hvs⟩
      · exact ⟨vs, [], (List.append_nil vs).symm, hvs⟩

end Slices

/-- The slice of a point in the response of its block is what its own request reads on
    the same memory. -/
theorem ownRead_slice {dev : ModbusDevice} {k : ℕ} {block : ReadBlock} {values : List Register}
    (h : dev.readOnce k block = .ok values) {p : PointConfig} {m : ModbusAddress}
    (hreads : block.Reads p m) : ownRead dev k p = pointResult p (block.slice values p) := by
  obtain ⟨hfault, vs, pad, rfl, hvs⟩ := readOnce_ok h
  have hmodbus := hreads.point.modbus
  have hcovers := hreads.covers
  obtain ⟨off, hoff⟩ : ∃ off : ℕ, m.address = block.address + off :=
    ⟨(m.address - block.address).toNat, by omega⟩
  have hfits : off + width p ≤ block.count.toNat := by omega
  have hown := valuesAt_slice hfits hvs
  rw [← hoff, ← hreads.area] at hown
  have hcut : ((vs ++ pad).drop (m.address - block.address).toNat).take (width p)
      = (vs.drop off).take (width p) := by
    have htoNat : (m.address - block.address).toNat = off := by omega
    have hlen := valuesAt_length hvs
    rw [htoNat, List.drop_append_of_le_length (by omega), List.take_append_of_le_length]
    rw [List.length_drop]
    omega
  have hslice : block.slice (vs ++ pad) p = .values ((vs.drop off).take (width p)) := by
    simp only [ReadBlock.slice, hmodbus, hcut]
  have hlength : ((vs.drop off).take (width p)).length = width p := valuesAt_length hown
  have hread : ∃ raw, dev.readOnce k (.single (m, p)) = .ok raw ∧
      raw.take (width p) = (vs.drop off).take (width p) := by
    unfold ModbusDevice.readOnce
    rw [hfault]
    simp only [ReadBlock.single, Int.toNat_natCast, hown]
    refine ⟨_, rfl, ?_⟩
    show (if m.area = py "coil" ∨ m.area = py "discrete_input" then
      (vs.drop off).take (width p) ++ dev.padding k else (vs.drop off).take (width p)).take (width p) = _
    by_cases hbits : m.area = py "coil" ∨ m.area = py "discrete_input"
    · rw [if_pos hbits, List.take_append_of_le_length hlength.ge]
      exact List.take_of_length_le hlength.le
    · rw [if_neg hbits]
      exact List.take_of_length_le hlength.le
  obtain ⟨raw, hraw, htake⟩ := hread
  rw [hslice, pointResult, ← htake]
  unfold ownRead readAddress
  rw [hmodbus]
  show (match dev.readOnce k (.single (m, p)) with
    | .ok raw => registerOutcome p (raw.take (width p))
    | .error e => .ok (none, e.quality)) = _
  rw [hraw]

/-! ## The results -/

omit [FloatArith] in
theorem failRemaining_items {quality : Quality} {points : List PointConfig}
    {results : BlockResults} (hfresh : ∀ p ∈ points, p.pointId ∉ results.keys) (hids : (points.map (·.pointId)).Nodup) :
    (failRemaining quality points results).items
      = results.items ++ points.map fun p => (p.pointId, none, quality) := by
  induction points generalizing results with
  | nil => exact (List.append_nil _).symm
  | cons p rest ih =>
      obtain ⟨hnext, hrest⟩ := results.fresh_after hfresh hids (none, quality)
      rw [failRemaining, List.foldl_cons]
      refine (ih hnext hrest).trans ?_
      rw [Dict.items_set (hfresh p (.head _)), List.append_assoc]
      rfl

/-- Every slice decodes, so every point has an entry, in the order of the block. -/
theorem sliceResults_items {block : ReadBlock} {values : List Register}
    {own : PointConfig → Option Value × Quality} {points : List PointConfig} {results : BlockResults}
    (hown : ∀ p ∈ points, pointResult p (block.slice values p) = .ok (own p))
    (hfresh : ∀ p ∈ points, p.pointId ∉ results.keys) (hids : (points.map (·.pointId)).Nodup) :
    ∃ results', sliceResults block values points results = .ok results' ∧
      results'.items = results.items ++ points.map fun p => (p.pointId, own p) := by
  induction points generalizing results with
  | nil => exact ⟨results, rfl, (List.append_nil _).symm⟩
  | cons p rest ih =>
      obtain ⟨hnext, hrest⟩ := results.fresh_after hfresh hids (own p)
      obtain ⟨results', hslice, hitems⟩ := ih (fun q hq => hown q (.tail _ hq)) hnext hrest
      refine ⟨results', ?_, ?_⟩
      · rw [sliceResults, hown p (.head _)]
        exact hslice
      · rw [hitems, Dict.items_set (hfresh p (.head _)), List.append_assoc]
        rfl

/-- The outcomes of the points of a block whose addresses are not all known, where
    `left` more requests may be made, numbered from `n`, and `issued` are. -/
structure Outcomes (dev : ModbusDevice) (n left : ℕ) (points : List PointConfig)
    (outs : List (Option Value × Quality)) (issued : ℕ) : Prop where
  length : outs.length = points.length
  budget : issued ≤ left
  /-- The points whose own request was issued come first. -/
  own : ∀ i < issued, ∃ p o, points[i]? = some p ∧ outs[i]? = some o ∧ ownRead dev (n + i) p = .ok o
  /-- A transport failure ends the requests. -/
  stopped : ∀ i < issued, ∀ o, outs[i]? = some o → transport o.2 = true →
    ∀ j, i ≤ j → j < points.length → outs[j]? = some (none, o.2)
  beyond : (∀ i < issued, ∀ o, outs[i]? = some o → transport o.2 = false) →
    ∀ j, issued ≤ j → j < points.length → left ≤ j ∧ outs[j]? = some (none, .badProtocol)

section Fallback

variable {dev : ModbusDevice} {n left issued : ℕ} {p : PointConfig} {points : List PointConfig}
  {o : Option Value × Quality} {outs : List (Option Value × Quality)}

theorem Outcomes.nil : Outcomes dev n left [] [] 0 where
  length := rfl
  budget := Nat.zero_le _
  own i hi := absurd hi (Nat.not_lt_zero i)
  stopped i hi := absurd hi (Nat.not_lt_zero i)
  beyond _ j _ hj := absurd hj (Nat.not_lt_zero j)

/-- Beyond the budget. -/
theorem Outcomes.spent : Outcomes dev n 0 points (points.map fun _ => (none, .badProtocol)) 0 where
  length := List.length_map _
  budget := le_rfl
  own i hi := absurd hi (Nat.not_lt_zero i)
  stopped i hi := absurd hi (Nat.not_lt_zero i)
  beyond _ j _ hj := ⟨Nat.zero_le j, by rw [List.getElem?_map, List.getElem?_eq_getElem hj]; rfl⟩

/-- A request that ends with the transport. -/
theorem Outcomes.stop {quality : Quality} (hown : ownRead dev n p = .ok (none, quality))
    (hquality : transport quality = true) :
    Outcomes dev n (left + 1) (p :: points)
      ((none, quality) :: points.map fun _ => (none, quality)) 1 where
  length := congrArg (· + 1) (List.length_map _)
  budget := by omega
  own i hi := by
    obtain rfl : i = 0 := by omega
    exact ⟨p, _, rfl, rfl, hown⟩
  stopped i hi o ho _ j _ hj := by
    obtain rfl : i = 0 := by omega
    cases ho
    cases j with
    | zero => rfl
    | succ j =>
        have hj : j < points.length := Nat.lt_of_succ_lt_succ hj
        rw [List.getElem?_cons_succ, List.getElem?_map, List.getElem?_eq_getElem hj]
        rfl
  beyond h := by
    have hfalse := h 0 Nat.zero_lt_one _ rfl
    rw [hquality] at hfalse
    cases hfalse

/-- A request that does not. -/
theorem Outcomes.cons (hown : ownRead dev n p = .ok o) (hquality : transport o.2 = false)
    (h : Outcomes dev (n + 1) left points outs issued) :
    Outcomes dev n (left + 1) (p :: points) (o :: outs) (issued + 1) where
  length := congrArg (· + 1) h.length
  budget := Nat.succ_le_succ h.budget
  own i hi := by
    cases i with
    | zero => exact ⟨p, o, rfl, rfl, hown⟩
    | succ i =>
        obtain ⟨q, r, hq, hr, hread⟩ := h.own i (Nat.lt_of_succ_lt_succ hi)
        exact ⟨q, r, hq, hr, by rw [← hread, Nat.add_right_comm n 1 i]; rfl⟩
  stopped i hi r hr htransport j hij hj := by
    cases i with
    | zero =>
        cases hr
        rw [hquality] at htransport
        cases htransport
    | succ i =>
        obtain ⟨j, rfl⟩ : ∃ k, j = k + 1 := ⟨j - 1, by omega⟩
        exact h.stopped i (Nat.lt_of_succ_lt_succ hi) r hr htransport j (Nat.le_of_succ_le_succ hij)
          (Nat.lt_of_succ_lt_succ hj)
  beyond hall j hij hj := by
    obtain ⟨j, rfl⟩ : ∃ k, j = k + 1 := ⟨j - 1, by omega⟩
    obtain ⟨hleft, hout⟩ := h.beyond (fun i hi r hr => hall (i + 1) (Nat.succ_lt_succ hi) r hr) j
      (Nat.le_of_succ_le_succ hij) (Nat.lt_of_succ_lt_succ hj)
    exact ⟨Nat.succ_le_succ hleft, hout⟩

/-- Without any budget left, the rest of the loop issues nothing. -/
theorem fallback_spent (dev : ModbusDevice) (n : ℕ) (block : ReadBlock) {budget used : ℕ}
    {results : BlockResults} (hspent : budget ≤ used)
    (hfresh : ∀ p ∈ points, p.pointId ∉ results.keys) (hids : (points.map (·.pointId)).Nodup) :
    ∃ results', fallback dev block budget points results used n = .ok (results', used, n) ∧
      results'.items = results.items ++ points.map fun p => (p.pointId, none, .badProtocol) := by
  induction points generalizing results with
  | nil => exact ⟨results, rfl, (List.append_nil _).symm⟩
  | cons p rest ih =>
      obtain ⟨hnext, hrest⟩ := results.fresh_after hfresh hids (none, Quality.badProtocol)
      obtain ⟨results', hloop, hitems⟩ := ih hnext hrest
      refine ⟨results', ?_, ?_⟩
      · rw [fallback, if_pos hspent]
        exact hloop
      · rw [hitems, Dict.items_set (hfresh p (.head _)), List.append_assoc]
        rfl

/-- What the loop does with a point is its own read. -/
theorem fallback_cons (dev : ModbusDevice) (n : ℕ) (block : ReadBlock) (points : List PointConfig)
    {budget used : ℕ} (results : BlockResults) (hpromised : Promised p) (hspare : used < budget) :
    ∃ o, ownRead dev n p = .ok o ∧
      (transport o.2 = true → o.1 = none) ∧
      fallback dev block budget (p :: points) results used n =
        if transport o.2 then
          .ok (failRemaining o.2 (block.points.drop (used + 1)) (results.set p.pointId o), used + 1,
            n + 1)
        else fallback dev block budget points (results.set p.pointId o) (used + 1) (n + 1) := by
  obtain ⟨⟨m, hm⟩, hreadable⟩ := hpromised
  have haddress : readAddress p = .ok m := by
    rw [readAddress, hm.modbus]
  rw [fallback, if_neg (by omega), ownRead, haddress]
  cases hread : dev.readOnce n (.single (m, p)) with
  | ok raw =>
      obtain ⟨o, ho, htransport⟩ := registerOutcome_returns hreadable (raw.take (width p))
      refine ⟨o, ?_, fun h => ?_, ?_⟩
      · show (match dev.readOnce n (.single (m, p)) with
          | .ok raw => registerOutcome p (raw.take (width p))
          | .error e => .ok (none, e.quality)) = _
        rw [hread]
        exact ho
      · rw [htransport] at h
        cases h
      · rw [htransport]
        simp only [bind, Except.bind, ModbusDevice.readRaw, hread, ho]
        rfl
  | error e =>
      refine ⟨(none, e.quality), ?_, fun _ => rfl, ?_⟩
      · show (match dev.readOnce n (.single (m, p)) with
          | .ok raw => registerOutcome p (raw.take (width p))
          | .error e => .ok (none, e.quality)) = _
        rw [hread]
      · simp only [bind, Except.bind, ModbusDevice.readRaw, hread]

/-- The loop, from the `used`-th point of the block. -/
theorem fallback_outcomes (dev : ModbusDevice) (n : ℕ) {block : ReadBlock} {budget used : ℕ}
    {results : BlockResults}
    (hpromised : ∀ p ∈ points, Promised p) (hdrop : block.points.drop used = points)
    (hbudget : budget = used + left) (hfresh : ∀ p ∈ points, p.pointId ∉ results.keys)
    (hids : (points.map (·.pointId)).Nodup) :
    ∃ results' outs issued,
      fallback dev block budget points results used n = .ok (results', used + issued, n + issued) ∧
      results'.items = results.items ++ (points.map (·.pointId)).zip outs ∧
      Outcomes dev n left points outs issued := by
  induction points generalizing results used left n with
  | nil => exact ⟨results, [], 0, rfl, (List.append_nil _).symm, .nil⟩
  | cons p rest ih =>
      cases left with
      | zero =>
          obtain ⟨results', hloop, hitems⟩ :=
            fallback_spent dev n block (by omega : budget ≤ used) hfresh hids
          refine ⟨results', _, 0, hloop, ?_, .spent⟩
          rw [hitems, List.zip_map']
      | succ left =>
          obtain ⟨o, hown, hnone, hstep⟩ := fallback_cons dev n block rest results
            (hpromised p (.head _)) (by omega : used < budget)
          obtain ⟨hnext, hrest⟩ := results.fresh_after hfresh hids o
          have hdrop' : block.points.drop (used + 1) = rest := by
            rw [← List.tail_drop, hdrop, List.tail_cons]
          have hset := Dict.items_set (v := o) (hfresh p (.head _))
          cases htransport : transport o.2 with
          | true =>
              obtain ⟨value, quality⟩ := o
              cases hnone htransport
              refine ⟨failRemaining quality rest (results.set p.pointId (none, quality)), _, 1, ?_, ?_,
                .stop hown htransport⟩
              · rw [hstep, if_pos htransport, hdrop']
              · rw [failRemaining_items hnext hrest, hset, List.append_assoc, List.map_cons,
                  List.zip_cons_cons, List.zip_map']
                rfl
          | false =>
              obtain ⟨results', outs, issued, hloop, hitems, houts⟩ :=
                @ih left (n + 1) (used + 1) _ (fun q hq => hpromised q (.tail _ hq)) hdrop' (by omega)
                  hnext hrest
              refine ⟨results', o :: outs, issued + 1, ?_, ?_, .cons hown htransport houts⟩
              · rw [hstep, htransport, if_neg Bool.false_ne_true, hloop, Nat.add_assoc used,
                  Nat.add_assoc n, Nat.add_comm 1 issued]
              · rw [hitems, hset, List.append_assoc, List.map_cons, List.zip_cons_cons,
                  List.singleton_append]

end Fallback

/-! ## Every block of a plan -/

/-- `read_block` gives the points of a planned block what their own reads give.  The
    fallback is for blocks of several points: with one, the failure is raised. -/
theorem block_reads {points : List PointConfig} {blocks : List ReadBlock} {block : ReadBlock}
    (hpromised : ∀ p ∈ points, Promised p) (hids : (points.map (·.pointId)).Nodup)
    (hplan : planReads points = .ok blocks) (hblock : block ∈ blocks) (dev : ModbusDevice)
    (retries budget n : ℕ) :
    (∀ values n', dev.readRaw block retries n = (.ok values, n') →
      ∃ (k : ℕ) (own : PointConfig → Option Value × Quality) (results : BlockResults),
        n' = k + 1 ∧ readBlock dev block retries budget n = (.ok (results, 0), n') ∧
        results.items = block.points.map (fun p => (p.pointId, own p)) ∧
        ∀ p ∈ block.points, ownRead dev k p = .ok (own p)) ∧
    ∀ e n', dev.readRaw block retries n = (.error e, n') → e.exceptionCode = some 2 →
      1 < block.points.length →
      ∃ results outs used, readBlock dev block retries budget n = (.ok (results, used), n' + used) ∧
        results.items = (block.points.map (·.pointId)).zip outs ∧
        Outcomes dev n' budget block.points outs used := by
  have hvalid : ∀ p ∈ points, ∃ m, ModbusPoint p m := fun p hp => (hpromised p hp).1
  have hunique : ∀ p ∈ points, ∀ q ∈ points, p.pointId = q.pointId → p = q :=
    fun p hp q hq => List.inj_on_of_nodup_map hids hp hq
  obtain ⟨⟨_, hplan', hplans⟩, -⟩ := plan_reads_sound hvalid hunique
  rw [hplan] at hplan'
  cases hplan'
  -- The points of a block are some of those of the plan, each once.
  have hpart : block.points.Sublist (blocks.flatMap (·.points)) := by
    rw [List.flatMap_def]
    exact List.sublist_flatten_of_mem (List.mem_map_of_mem hblock)
  have hmem : ∀ p ∈ block.points, Promised p := fun p hp =>
    hpromised p (List.mem_filter.mp (hplans.partition.mem_iff.mp (hpart.subset hp))).1
  have hnodup : (block.points.map (·.pointId)).Nodup := by
    refine (hpart.map _).nodup ((hplans.partition.map _).nodup_iff.mpr ?_)
    exact hids.sublist (List.filter_sublist.map _)
  have hfresh : ∀ p ∈ block.points, p.pointId ∉ (Dict.empty : BlockResults).keys :=
    fun p _ hp => by cases hp
  constructor
  · intro values n' hraw
    obtain ⟨k, -, rfl, hread⟩ := readRaw_ok hraw
    have hreturns : ∀ p ∈ block.points, ∃ o, ownRead dev k p = .ok o :=
      fun p hp => ownRead_returns dev k (hmem p hp)
    have : Nonempty (Option Value × Quality) := ⟨(none, .good)⟩
    choose! own hown using hreturns
    have hslices : ∀ p ∈ block.points, pointResult p (block.slice values p) = .ok (own p) := by
      intro p hp
      obtain ⟨m, hreads⟩ := (hplans.sound block hblock).reads p hp
      rw [← ownRead_slice hread hreads]
      exact hown p hp
    obtain ⟨results, hslice, hitems⟩ := sliceResults_items hslices hfresh hnodup
    refine ⟨k, own, results, rfl, ?_, hitems, hown⟩
    rw [readBlock, hraw]
    simp only [hslice]
  · intro e n' hraw hcode hmany
    obtain ⟨results, outs, used, hloop, hitems, houts⟩ := fallback_outcomes dev n' hmem
      List.drop_zero (Nat.zero_add budget).symm hfresh hnodup
    rw [Nat.zero_add] at hloop
    refine ⟨results, outs, used, ?_, hitems, houts⟩
    have hfalls : ¬(e.exceptionCode ≠ some 2 ∨ block.points.length = 1) := by
      rintro (h | h)
      · exact h hcode
      · omega
    rw [readBlock, hraw]
    simp only [if_neg hfalls, hloop]

end Reads

/-! ## A device that knows one register -/

section Concrete

attribute [local instance] FloatArith.rounded

/-- A device with one holding register, whose fifth request times out. -/
def oneRegister : ModbusDevice where
  memory _ area address := if area = py "holding_register" ∧ address = 1 then some (.word 7) else none
  fault n := if n = 4 then some .timeout else none
  padding _ := []

theorem pairPoint_promised : Promised pairPoint where
  left := ⟨_, pairPoint_modbus⟩
  right :=
    { dataType := ⟨"uint32", by decide, rfl⟩
      words := fun _ htype => absurd htype (by decide)
      pairs := fun _ _ => ⟨_, rfl, "CDAB", by decide, rfl⟩ }

theorem innerPoint_promised : Promised innerPoint where
  left := ⟨_, innerPoint_modbus⟩
  right :=
    { dataType := ⟨"uint16", by decide, rfl⟩
      words := fun _ _ => ⟨_, rfl, "AB", by decide, rfl⟩
      pairs := fun _ htype => absurd htype (by decide) }

/-- The block of the two points. -/
def overlapBlock : ReadBlock := ⟨py "holding_register", 1, 2, 1000, [pairPoint, innerPoint]⟩

theorem planReads_overlap : planReads [innerPoint, pairPoint] = .ok [overlapBlock] := by decide +kernel

theorem block_reads_overlap : ∃ results outs used,
    readBlock oneRegister overlapBlock 1 4 0 = (.ok (results, used), 1 + used) ∧
      results.items = (overlapBlock.points.map (·.pointId)).zip outs ∧
      Outcomes oneRegister 1 4 overlapBlock.points outs used := by
  have hpromised : ∀ p ∈ [innerPoint, pairPoint], Promised p := by
    intro p hp
    rcases List.mem_cons.mp hp with rfl | hp
    · exact innerPoint_promised
    · rw [List.mem_singleton.mp hp]
      exact pairPoint_promised
  exact (block_reads hpromised (by decide) planReads_overlap (.head _) oneRegister 1 4 0).2
    ⟨.badProtocol, some 2⟩ 1 (by decide +kernel) rfl (by decide)

example : (readBlock oneRegister overlapBlock 1 4 0).1.map (fun r => (r.1.items, r.2))
    = .ok ([(py "a", none, .badProtocol), (py "b", some (.int 7), .good)], 2) := by
  decide +kernel

/-- The block of one point. -/
def loneBlock : ReadBlock := ⟨py "holding_register", 1, 2, 1000, [pairPoint]⟩

/-- For a block of one point an illegal address is raised. -/
theorem lone_block_raises : planReads [pairPoint] = .ok [loneBlock] ∧
    oneRegister.readRaw loneBlock 0 0 = (.error ⟨.badProtocol, some 2⟩, 1) ∧
    ∀ results n', readBlock oneRegister loneBlock 0 4 0 ≠ (.ok results, n') := by
  refine ⟨by decide +kernel, by decide +kernel, fun results n' h => ?_⟩
  have hraises : (readBlock oneRegister loneBlock 0 4 0).1.map (fun _ => ())
      = .error (.read ⟨.badProtocol, some 2⟩) := by decide +kernel
  rw [h] at hraises
  cases hraises

end Concrete

end PlcnextIot.Drivers
