/-
  PlcnextIot.Drivers.ReadPlan

  `points/read_plan.py`: which registers a poll reads in one request.

  The points are taken in the order of their area, interval and address; a
  point joins the block before it when it leaves no hole behind that block and
  the block stays within the limit of its area.
-/

import PlcnextIot.Drivers.Decode
import PlcnextIot.Effect.Returns
import Mathlib.Data.List.Sort
import Mathlib.Data.Prod.Lex
import Mathlib.Data.List.Lex

namespace PlcnextIot.Drivers

open PlcnextIot.Python PlcnextIot.Config PlcnextIot.Effect

/-! ## `plan_reads` -/

/-- `point.modbus`, where a member of it is used. -/
def readAddress (p : PointConfig) : Except DecodeExc ModbusAddress :=
  match p.modbus with
  | some m => .ok m
  | none => .error .attributeError

/-- `(p.modbus.area, p.poll_interval_ms, p.modbus.address, p.point_id)` -/
def readKey (a : ModbusAddress × PointConfig) : PyStr ×ₗ ℤ ×ₗ ℤ ×ₗ PyStr :=
  toLex (a.1.area, toLex (a.2.pollIntervalMs, toLex (a.1.address, a.2.pointId)))

/-- `limit` -/
def readLimit (area : PyStr) : ℤ :=
  if area = py "coil" ∨ area = py "discrete_input" then 2000 else 125

/-- The block of one point. -/
def ReadBlock.single (a : ModbusAddress × PointConfig) : ReadBlock :=
  ⟨a.1.area, a.1.address, width a.2, a.2.pollIntervalMs, [a.2]⟩

/-- The point may be read with the block. -/
def ReadBlock.joins (old : ReadBlock) (a : ModbusAddress × PointConfig) : Bool :=
  old.area = a.1.area && old.pollIntervalMs = a.2.pollIntervalMs
    && a.1.address ≤ old.address + old.count
    && a.1.address + width a.2 - old.address ≤ readLimit a.1.area

/-- The block with the point. -/
def ReadBlock.extend (old : ReadBlock) (a : ModbusAddress × PointConfig) : ReadBlock :=
  ⟨a.1.area, old.address, max old.count (a.1.address + width a.2 - old.address), old.pollIntervalMs,
    old.points ++ [a.2]⟩

/-- The body of the loop; the last block comes first. -/
def addPoint : List ReadBlock → ModbusAddress × PointConfig → List ReadBlock
  | [], a => [.single a]
  | old :: rest, a => if old.joins a then old.extend a :: rest else .single a :: old :: rest

/-- `sorted((p for p in points if p.enabled), key=...)` -/
def sortedReads (points : List PointConfig) : Except DecodeExc (List (ModbusAddress × PointConfig)) := do
  let keyed ← (points.filter (·.enabled)).mapM fun p => do return (← readAddress p, p)
  return keyed.insertionSort fun a b => readKey a ≤ readKey b

def planReads (points : List PointConfig) : Except DecodeExc (List ReadBlock) := do
  return ((← sortedReads points).foldl addPoint []).reverse

/-! ## What a plan is -/

/-- A Modbus point as the contract has it: its area fits its data type, and its value
    lies within the address range. -/
structure ModbusPoint (p : PointConfig) (m : ModbusAddress) : Prop where
  modbus : p.modbus = some m
  area : if p.dataType = py "bool" then m.area = py "coil" ∨ m.area = py "discrete_input"
    else m.area = py "holding_register" ∨ m.area = py "input_register"
  address : 0 ≤ m.address ∧ m.address + width p ≤ 65536

/-- The point is read by the block, at its full width. -/
structure ReadBlock.Reads (b : ReadBlock) (p : PointConfig) (m : ModbusAddress) : Prop where
  point : ModbusPoint p m
  area : m.area = b.area
  interval : p.pollIntervalMs = b.pollIntervalMs
  covers : b.address ≤ m.address ∧ m.address + width p ≤ b.address + b.count

/-- A block is one request for what its points need, and for nothing else. -/
structure ReadBlock.Sound (b : ReadBlock) : Prop where
  nonempty : b.points ≠ []
  reads : ∀ p ∈ b.points, ∃ m, b.Reads p m
  dense : ∀ a, b.address ≤ a → a < b.address + b.count →
    ∃ p ∈ b.points, ∃ m, p.modbus = some m ∧ m.address ≤ a ∧ a < m.address + width p
  count : 1 ≤ b.count ∧ b.count ≤ readLimit b.area
  range : 0 ≤ b.address ∧ b.address + b.count ≤ 65536

/-- The blocks of a plan have the enabled points in them, each once. -/
structure Plans (points : List PointConfig) (blocks : List ReadBlock) : Prop where
  sound : ∀ b ∈ blocks, b.Sound
  partition : (blocks.flatMap (·.points)).Perm (points.filter (·.enabled))

/-! ## One point more -/

theorem width_pos (p : PointConfig) : 1 ≤ width p ∧ width p ≤ 2 := by
  rw [width]
  split <;> decide

theorem width_le_limit (p : PointConfig) (area : PyStr) : (width p : ℤ) ≤ readLimit area := by
  have := (width_pos p).2
  rw [readLimit]
  split <;> omega

section Blocks

variable {b : ReadBlock} {p : PointConfig} {m : ModbusAddress}

theorem single_sound (h : ModbusPoint p m) : (ReadBlock.single (m, p)).Sound := by
  refine ⟨List.cons_ne_nil _ _, fun q hq => ?_, fun a ha ha' => ?_, ⟨?_, width_le_limit p _⟩, h.address⟩
  · rw [ReadBlock.single, List.mem_singleton] at hq
    subst hq
    exact ⟨m, h, rfl, rfl, le_rfl, le_rfl⟩
  · exact ⟨p, .head _, m, h.modbus, ha, ha'⟩
  · show (1 : ℤ) ≤ width p
    exact_mod_cast (width_pos p).1

/-- A point that joins leaves no hole. -/
theorem extend_sound (hb : b.Sound) (h : ModbusPoint p m) (hjoins : b.joins (m, p) = true)
    (hle : b.address ≤ m.address) : (b.extend (m, p)).Sound := by
  simp only [ReadBlock.joins, Bool.and_eq_true, decide_eq_true_eq] at hjoins
  obtain ⟨⟨⟨harea, hinterval⟩, hnext⟩, hlimit⟩ := hjoins
  refine ⟨by simp [ReadBlock.extend], fun q hq => ?_, fun a ha ha' => ?_, ?_, ?_⟩
  · rcases List.mem_append.mp hq with hq | hq
    · obtain ⟨n, hn⟩ := hb.reads q hq
      refine ⟨n, hn.point, hn.area.trans harea, hn.interval, hn.covers.1, ?_⟩
      exact hn.covers.2.trans (add_le_add_right (le_max_left _ _) _)
    · rw [List.mem_singleton] at hq
      subst hq
      refine ⟨m, h, rfl, hinterval.symm, hle, ?_⟩
      have := le_max_right b.count (m.address + width q - b.address)
      show m.address + width q ≤ b.address + max b.count (m.address + width q - b.address)
      omega
  · have ha' : a < b.address + max b.count (m.address + width p - b.address) := ha'
    by_cases hold : a < b.address + b.count
    · obtain ⟨q, hq, n, hn⟩ := hb.dense a ha hold
      exact ⟨q, List.mem_append_left _ hq, n, hn⟩
    · -- What the block did not cover before, the new point does.
      refine ⟨p, List.mem_append_right _ (.head _), m, h.modbus, by omega, ?_⟩
      omega
  · have hcount := hb.count
    rw [harea] at hcount
    exact ⟨hcount.1.trans (le_max_left _ _), max_le hcount.2 hlimit⟩
  · have := hb.range
    have := h.address
    show 0 ≤ b.address ∧ b.address + max b.count (m.address + width p - b.address) ≤ 65536
    omega

end Blocks

/-! ## All the points -/

/-- Among points of one area and interval, the order is that of the addresses. -/
theorem address_le_of_key {a b : ModbusAddress × PointConfig} (h : readKey a ≤ readKey b)
    (harea : b.1.area = a.1.area) (hinterval : b.2.pollIntervalMs = a.2.pollIntervalMs) :
    a.1.address ≤ b.1.address := by
  simp only [readKey, Prod.Lex.toLex_le_toLex, harea, hinterval, lt_irrefl, false_or, true_and] at h
  rcases h with h | h
  · exact h.le
  · exact h.1.le

/-- The points that are left do not lie before the last block. -/
def Ahead (blocks : List ReadBlock) (rest : List (ModbusAddress × PointConfig)) : Prop :=
  ∀ b ∈ blocks.head?, ∀ a ∈ rest, a.1.area = b.area → a.2.pollIntervalMs = b.pollIntervalMs →
    b.address ≤ a.1.address

theorem addPoint_sound {blocks : List ReadBlock} {a : ModbusAddress × PointConfig}
    {rest : List (ModbusAddress × PointConfig)} (hblocks : ∀ b ∈ blocks, b.Sound)
    (ha : ModbusPoint a.2 a.1) (hsorted : ∀ c ∈ rest, readKey a ≤ readKey c)
    (hahead : Ahead blocks (a :: rest)) :
    (∀ b ∈ addPoint blocks a, b.Sound) ∧ Ahead (addPoint blocks a) rest ∧
      (addPoint blocks a).reverse.flatMap (·.points) = blocks.reverse.flatMap (·.points) ++ [a.2] := by
  -- A block of the point itself lies before the points that follow in the order.
  have hsingle : ∀ more, Ahead (.single a :: more) rest := by
    intro more b hb c hc harea hinterval
    cases hb
    exact address_le_of_key (hsorted c hc) harea hinterval
  cases blocks with
  | nil =>
      refine ⟨fun b hb => ?_, hsingle [], rfl⟩
      rw [addPoint, List.mem_singleton] at hb
      exact hb ▸ single_sound ha
  | cons old more =>
      rw [addPoint]
      split
      · rename_i hjoins
        have hjoins' := hjoins
        simp only [ReadBlock.joins, Bool.and_eq_true, decide_eq_true_eq] at hjoins'
        obtain ⟨⟨⟨harea, hinterval⟩, -⟩, -⟩ := hjoins'
        refine ⟨fun b hb => ?_, fun b hb c hc hca hci => ?_, ?_⟩
        · rcases List.mem_cons.mp hb with rfl | hb
          · exact extend_sound (hblocks old (.head _)) ha hjoins
              (hahead old rfl a (.head _) harea.symm hinterval.symm)
          · exact hblocks b (.tail _ hb)
        · cases hb
          exact hahead old rfl c (.tail _ hc) (hca.trans harea.symm) hci
        · simp [ReadBlock.extend]
      · refine ⟨fun b hb => ?_, hsingle _, ?_⟩
        · rcases List.mem_cons.mp hb with rfl | hb
          · exact single_sound ha
          · exact hblocks b hb
        · simp [ReadBlock.single]

/-- The loop, over points in order. -/
theorem foldl_addPoint {rest : List (ModbusAddress × PointConfig)} {blocks : List ReadBlock}
    (hblocks : ∀ b ∈ blocks, b.Sound) (hvalid : ∀ a ∈ rest, ModbusPoint a.2 a.1)
    (hsorted : rest.Pairwise fun a b => readKey a ≤ readKey b) (hahead : Ahead blocks rest) :
    (∀ b ∈ rest.foldl addPoint blocks, b.Sound) ∧
      (rest.foldl addPoint blocks).reverse.flatMap (·.points)
        = blocks.reverse.flatMap (·.points) ++ rest.map (·.2) := by
  induction rest generalizing blocks with
  | nil => exact ⟨hblocks, (List.append_nil _).symm⟩
  | cons a rest ih =>
      obtain ⟨hfirst, hrest⟩ := List.pairwise_cons.mp hsorted
      obtain ⟨hsound, hnext, hpoints⟩ :=
        addPoint_sound hblocks (hvalid a (.head _)) hfirst hahead
      obtain ⟨hall, heq⟩ := ih hsound (fun c hc => hvalid c (.tail _ hc)) hrest hnext
      refine ⟨hall, ?_⟩
      rw [List.foldl_cons, heq, hpoints, List.append_assoc, List.map_cons, List.singleton_append]

/-- The address of a point and the point. -/
def addressed (p : PointConfig) : ModbusAddress × PointConfig :=
  (p.modbus.getD ⟨[], 0, none⟩, p)

section Lists

variable {points points' : List PointConfig}

theorem sortedReads_eq (hvalid : ∀ p ∈ points, ∃ m, ModbusPoint p m) :
    sortedReads points = .ok (((points.filter (·.enabled)).map addressed).insertionSort
      fun a b => readKey a ≤ readKey b) := by
  have hkeyed : (points.filter (·.enabled)).mapM (fun p => do return (← readAddress p, p) :
      PointConfig → Except DecodeExc (ModbusAddress × PointConfig))
      = .ok ((points.filter (·.enabled)).map addressed) := by
    refine mapM_eq_map fun p hp => ?_
    obtain ⟨m, hm⟩ := hvalid p (List.mem_filter.mp hp).1
    rw [readAddress, addressed, hm.modbus]
    rfl
  rw [sortedReads, hkeyed]
  rfl

/-- The order of the points does not matter where the ids tell them apart. -/
theorem sortedReads_perm (hvalid : ∀ p ∈ points, ∃ m, ModbusPoint p m)
    (hids : ∀ p ∈ points, ∀ q ∈ points, p.pointId = q.pointId → p = q) (hperm : points'.Perm points) :
    sortedReads points' = sortedReads points := by
  have hvalid' : ∀ p ∈ points', ∃ m, ModbusPoint p m := fun p hp => hvalid p (hperm.mem_iff.mp hp)
  rw [sortedReads_eq hvalid, sortedReads_eq hvalid']
  congr 1
  refine List.Perm.eq_of_pairwise ?_
    (List.pairwise_insertionSort (fun a b => readKey a ≤ readKey b) _)
    (List.pairwise_insertionSort (fun a b => readKey a ≤ readKey b) _) ?_
  · intro a b ha hb hab hba
    -- Equal keys have equal ids.
    have hkey := le_antisymm hab hba
    obtain ⟨p, hp, rfl⟩ := List.mem_map.mp ((List.mem_insertionSort _).mp ha)
    obtain ⟨q, hq, rfl⟩ := List.mem_map.mp ((List.mem_insertionSort _).mp hb)
    have hp := hperm.mem_iff.mp (List.mem_filter.mp hp).1
    have hid : p.pointId = q.pointId := by
      simp only [readKey, addressed, EmbeddingLike.apply_eq_iff_eq, Prod.mk.injEq] at hkey
      exact hkey.2.2.2
    rw [hids p hp q (List.mem_filter.mp hq).1 hid]
  · refine (List.perm_insertionSort _ _).trans (.trans ?_ (List.perm_insertionSort _ _).symm)
    exact (hperm.filter _).map _

/-- `plan_reads` partitions the enabled points into sound blocks, and its result does
    not depend on the order in which they are listed. -/
theorem plan_reads_sound (hvalid : ∀ p ∈ points, ∃ m, ModbusPoint p m)
    (hids : ∀ p ∈ points, ∀ q ∈ points, p.pointId = q.pointId → p = q) :
    (∃ blocks, planReads points = .ok blocks ∧ Plans points blocks) ∧
      ∀ points', points'.Perm points → planReads points' = planReads points := by
  constructor
  · obtain ⟨sorted, hsorted⟩ : ∃ sorted, ((points.filter (·.enabled)).map addressed).insertionSort
        (fun a b => readKey a ≤ readKey b) = sorted := ⟨_, rfl⟩
    have hreads : sortedReads points = .ok sorted := by rw [sortedReads_eq hvalid, hsorted]
    have hperm : sorted.Perm ((points.filter (·.enabled)).map addressed) :=
      hsorted ▸ List.perm_insertionSort _ _
    have hpoint : ∀ a ∈ sorted, ModbusPoint a.2 a.1 := by
      intro a ha
      obtain ⟨p, hp, rfl⟩ := List.mem_map.mp (hperm.mem_iff.mp ha)
      obtain ⟨m, hm⟩ := hvalid p (List.mem_filter.mp hp).1
      rw [addressed, hm.modbus]
      exact hm
    obtain ⟨hsound, hpoints⟩ := foldl_addPoint (fun b hb => absurd hb List.not_mem_nil) hpoint
      (hsorted ▸ List.pairwise_insertionSort _ _) fun b hb => by cases hb
    refine ⟨(sorted.foldl addPoint []).reverse, by rw [planReads, hreads]; rfl,
      fun b hb => hsound b (List.mem_reverse.mp hb), ?_⟩
    rw [hpoints]
    refine (hperm.map (·.2)).trans ?_
    rw [List.map_map]
    exact .of_eq (List.map_id _)
  · intro points' hperm
    rw [planReads, planReads, sortedReads_perm hvalid hids hperm]

end Lists

/-- A pair of registers. -/
def pairPoint : PointConfig :=
  { pointId := py "a", name := py "a", enabled := true, dataType := py "uint32",
    pollIntervalMs := 1000, scale := .int 1, offset := .int 0, unit := none,
    reportMode := py "change", reportIntervalMs := 1000, deadband := .int 0, staleAfterMs := 3000,
    modbus := some ⟨py "holding_register", 1, some (py "CDAB")⟩ }

/-- A register within that pair. -/
def innerPoint : PointConfig :=
  { pairPoint with
    pointId := py "b", dataType := py "uint16"
    modbus := some ⟨py "holding_register", 1, some (py "AB")⟩ }

theorem pairPoint_modbus : ModbusPoint pairPoint ⟨py "holding_register", 1, some (py "CDAB")⟩ :=
  ⟨rfl, by decide, by decide⟩

theorem innerPoint_modbus : ModbusPoint innerPoint ⟨py "holding_register", 1, some (py "AB")⟩ :=
  ⟨rfl, by decide, by decide⟩

theorem plan_reads_overlap :
    (∃ blocks, planReads [innerPoint, pairPoint] = .ok blocks ∧ Plans [innerPoint, pairPoint] blocks) ∧
      ∀ points', points'.Perm [innerPoint, pairPoint] →
        planReads points' = planReads [innerPoint, pairPoint] := by
  refine plan_reads_sound (fun p hp => ?_) fun p hp q hq hid => ?_
  · rcases List.mem_cons.mp hp with rfl | hp
    · exact ⟨_, innerPoint_modbus⟩
    · rw [List.mem_singleton.mp hp]
      exact ⟨_, pairPoint_modbus⟩
  · have hids : ([innerPoint, pairPoint].map (·.pointId)).Nodup := by decide
    exact List.inj_on_of_nodup_map hids hp hq hid

end PlcnextIot.Drivers
