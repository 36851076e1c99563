/-
  PlcnextIot.Drivers.Values

  What a value read from a device does to the task that reads it.

  `wireInteger` and `nodeInteger` say which integer a device sent, without the
  detour over bytes.  For a point of a parsed configuration, `decode` either
  fails in a way its caller reports as BAD_DECODE, or returns a value `Sample`
  accepts, unless that integer, scaled by integers, is too large for binary64.
-/

import PlcnextIot.Config.Content
import PlcnextIot.Drivers.Decode

namespace PlcnextIot.Drivers

open PlcnextIot.Python PlcnextIot.Config PlcnextIot.Points PlcnextIot.Effect

/-! ## The integer a device sent -/

/-- A word with its bytes exchanged. -/
def swapBytes (w : ℤ) : ℤ := w % 256 * 256 + w / 256

/-- Words in a byte order, the most significant first. -/
def inOrder (order : PyStr) (words : List ℤ) : List ℤ :=
  if order = py "BA" ∨ order = py "BADC" then words.map swapBytes
  else if order = py "CDAB" then words.reverse
  else if order = py "DCBA" then (words.map swapBytes).reverse
  else words

/-- The unsigned number of words. -/
def joined (words : List ℤ) : ℤ := words.foldl (fun n w => 65536 * n + w) 0

/-- The integer the registers of a point hold, if its data type is an integer type. -/
def wireInteger (p : PointConfig) (values : List Register) : Option ℤ :=
  let words := values.map Register.number
  let n := joined (inOrder ((p.modbus.bind (·.byteOrder)).getD []) words)
  if ¬ ∀ w ∈ words, 0 ≤ w ∧ w < 65536 then none
  else if p.dataType = py "int16" ∧ words.length = 1 then some (signed 16 n)
  else if p.dataType = py "uint16" ∧ words.length = 1 then some n
  else if p.dataType = py "int32" ∧ words.length = 2 then some (signed 32 n)
  else if p.dataType = py "uint32" ∧ words.length = 2 then some n
  else none

/-- The integer a node holds, if the data type of the point admits it. -/
def nodeInteger (p : PointConfig) (v : NodeValue) : Option ℤ :=
  if p.dataType = py "bool" then none
  else
    match ranges.lookup p.dataType, v with
    | some (lo, hi), .int n => if lo ≤ n ∧ n ≤ hi then some n else none
    | some _, _ => none
    | none, .int n => some n
    | none, .enumeration n => some n
    | none, _ => none

/-- An integer that leaves binary64 once it is scaled by the integers of the point. -/
def TooLarge (p : PointConfig) (n : ℤ) : Prop :=
  ∃ s o, p.scale = .int s ∧ p.offset = .int o ∧ floatLimit ≤ |n * s + o|

/-- The registers of a point hold an integer that is too large once scaled. -/
def RegistersOverflow (p : PointConfig) : PointRead → Prop
  | .values values => ∃ n, wireInteger p values = some n ∧ TooLarge p n
  | .failed _ => False

/-- A node holds an integer that is too large once scaled. -/
def NodeOverflows (p : PointConfig) (v : NodeValue) : Prop :=
  ∃ n, nodeInteger p v = some n ∧ TooLarge p n

/-! ## Registers -/

theorem packWord_eq {v : Register} (h : 0 ≤ v.number ∧ v.number < 65536) :
    packWord v = .ok [(v.number / 256).toNat, (v.number % 256).toNat] := by
  rw [packWord, if_pos h]

theorem packWord_error {v : Register} (h : ¬ (0 ≤ v.number ∧ v.number < 65536)) :
    packWord v = .error .structError := by
  rw [packWord, if_neg h]

/-- The bytes of one register in a byte order of words. -/
theorem canonicalBytes_word {m : ModbusAddress} {o : String} (ho : o ∈ ["AB", "BA"])
    (hm : m.byteOrder = some (py o)) (w : ℤ) (hw : 0 ≤ w ∧ w < 65536) :
    ∃ bytes, canonicalBytes [(w / 256).toNat, (w % 256).toNat] (some m) 2 = .ok bytes ∧
      (bigEndian bytes : ℤ) = joined (inOrder (py o) [w]) := by
  simp only [List.mem_cons, List.not_mem_nil, or_false] at ho
  rcases ho with rfl | rfl
  · refine ⟨[(w / 256).toNat, (w % 256).toNat], ?_, ?_⟩
    · rw [canonicalBytes, Option.bind_some, hm]
      rfl
    · rw [inOrder, if_neg (by decide), if_neg (by decide), if_neg (by decide)]
      simp only [bigEndian, joined, List.foldl_cons, List.foldl_nil]
      omega
  · refine ⟨[(w % 256).toNat, (w / 256).toNat], ?_, ?_⟩
    · rw [canonicalBytes, Option.bind_some, hm]
      rfl
    · rw [inOrder, if_pos (by decide)]
      simp only [bigEndian, joined, swapBytes, List.map_cons, List.map_nil, List.foldl_cons,
        List.foldl_nil]
      omega

/-- The bytes of two registers in a byte order of pairs. -/
theorem canonicalBytes_pair {m : ModbusAddress} {o : String}
    (ho : o ∈ ["ABCD", "BADC", "CDAB", "DCBA"]) (hm : m.byteOrder = some (py o)) (w u : ℤ)
    (hw : 0 ≤ w ∧ w < 65536) (hu : 0 ≤ u ∧ u < 65536) :
    ∃ bytes, canonicalBytes [(w / 256).toNat, (w % 256).toNat, (u / 256).toNat,
        (u % 256).toNat] (some m) 4 = .ok bytes ∧
      (bigEndian bytes : ℤ) = joined (inOrder (py o) [w, u]) := by
  simp only [List.mem_cons, List.not_mem_nil, or_false] at ho
  rcases ho with rfl | rfl | rfl | rfl
  · refine ⟨[(w / 256).toNat, (w % 256).toNat, (u / 256).toNat, (u % 256).toNat], ?_, ?_⟩
    · rw [canonicalBytes, Option.bind_some, hm]
      rfl
    · rw [inOrder, if_neg (by decide), if_neg (by decide), if_neg (by decide)]
      simp only [bigEndian, joined, List.foldl_cons, List.foldl_nil]
      omega
  · refine ⟨[(w % 256).toNat, (w / 256).toNat, (u % 256).toNat, (u / 256).toNat], ?_, ?_⟩
    · rw [canonicalBytes, Option.bind_some, hm]
      rfl
    · rw [inOrder, if_pos (by decide)]
      simp only [bigEndian, joined, swapBytes, List.map_cons, List.map_nil, List.foldl_cons,
        List.foldl_nil]
      omega
  · refine ⟨[(u / 256).toNat, (u % 256).toNat, (w / 256).toNat, (w % 256).toNat], ?_, ?_⟩
    · rw [canonicalBytes, Option.bind_some, hm]
      rfl
    · rw [inOrder, if_neg (by decide), if_pos (by decide)]
      simp only [bigEndian, joined, List.reverse_cons, List.reverse_nil, List.nil_append,
        List.cons_append, List.foldl_cons, List.foldl_nil]
      omega
  · refine ⟨[(u % 256).toNat, (u / 256).toNat, (w % 256).toNat, (w / 256).toNat], ?_, ?_⟩
    · rw [canonicalBytes, Option.bind_some, hm]
      rfl
    · rw [inOrder, if_neg (by decide), if_neg (by decide), if_pos (by decide)]
      simp only [bigEndian, joined, swapBytes, List.map_cons, List.map_nil, List.reverse_cons,
        List.reverse_nil, List.nil_append, List.cons_append, List.foldl_cons, List.foldl_nil]
      omega

/-- Registers `struct` cannot pack are refused. -/
theorem mapM_packWord_error {values : List Register}
    (h : ¬ ∀ w ∈ values.map Register.number, 0 ≤ w ∧ w < 65536) :
    values.mapM packWord = .error .structError := by
  induction values with
  | nil => exact absurd (by simp) h
  | cons v rest ih =>
      rw [List.mapM_cons]
      by_cases hv : 0 ≤ v.number ∧ v.number < 65536
      · rw [packWord_eq hv]
        have hrest : ¬ ∀ w ∈ rest.map Register.number, 0 ≤ w ∧ w < 65536 := by
          intro hall
          refine h fun w hw => ?_
          rcases List.mem_cons.mp hw with rfl | hw
          · exact hv
          · exact hall w hw
        rw [show (Except.ok [(v.number / 256).toNat, (v.number % 256).toNat] >>= _) = _ from rfl,
          ih hrest]
        rfl
      · rw [packWord_error hv]
        rfl

/-- The registers of a point are its wire integer, a float, or an exception that is caught. -/
def ReadsRegisters (p : PointConfig) (values : List Register) : Prop :=
  match wireInteger p values with
  | some n => registerNumber p values = .ok (.int n)
  | none => (∃ x, registerNumber p values = .ok (.float x)) ∨
      ∃ e, registerNumber p values = .error e ∧ modbusCatches e = true

/-- Where the wire integer is missing, the reading of the registers decides. -/
theorem readsRegisters_none {p : PointConfig} {values : List Register}
    (hnone : wireInteger p values = none)
    (h : (∃ x, registerNumber p values = .ok (.float x)) ∨
      ∃ e, registerNumber p values = .error e ∧ modbusCatches e = true) :
    ReadsRegisters p values := by
  rw [ReadsRegisters, hnone]
  exact h

theorem readsRegisters_some {p : PointConfig} {values : List Register} {n : ℤ}
    (hsome : wireInteger p values = some n) (h : registerNumber p values = .ok (.int n)) :
    ReadsRegisters p values := by
  rw [ReadsRegisters, hsome]
  exact h

section Formats

variable {p : PointConfig} {values : List Register} {fmt : Format}

/-- A wrong number of registers. -/
theorem registerNumber_count (hfmt : formats.lookup p.dataType = some fmt)
    (hcount : values.length * 2 ≠ fmt.calcsize) :
    registerNumber p values = .error (.valueError "Unexpected register count") := by
  rw [registerNumber, hfmt]
  exact if_pos hcount

/-- Registers that are no words. -/
theorem registerNumber_words (hfmt : formats.lookup p.dataType = some fmt)
    (hcount : values.length * 2 = fmt.calcsize)
    (hwords : ¬ ∀ w ∈ values.map Register.number, 0 ≤ w ∧ w < 65536) :
    registerNumber p values = .error .structError := by
  rw [registerNumber, hfmt]
  simp only [hcount, ne_eq, not_true_eq_false, if_false, mapM_packWord_error hwords]
  rfl

/-- One word in the order of the point. -/
theorem registerNumber_word {o : String} {m : ModbusAddress} {v : Register}
    (hfmt : formats.lookup p.dataType = some fmt) (hsize : fmt.calcsize = 2)
    (ho : o ∈ ["AB", "BA"]) (hm : p.modbus = some m) (hmo : m.byteOrder = some (py o))
    (hv : 0 ≤ v.number ∧ v.number < 65536) :
    ∃ bytes, registerNumber p [v] = .ok (fmt.unpack bytes) ∧
      (bigEndian bytes : ℤ) = joined (inOrder (py o) [v.number]) := by
  obtain ⟨bytes, hbytes, hvalue⟩ := canonicalBytes_word ho hmo v.number hv
  refine ⟨bytes, ?_, hvalue⟩
  rw [registerNumber, hfmt]
  simp only [List.length_singleton, one_mul, hsize, ne_eq, not_true_eq_false, if_false]
  rw [List.mapM_cons, List.mapM_nil, packWord_eq hv, hm]
  simp only [bind, Except.bind, pure, Except.pure, List.flatten_cons, List.flatten_nil,
    List.append_nil, hbytes]

/-- Two words in the order of the point. -/
theorem registerNumber_pair {o : String} {m : ModbusAddress} {v u : Register}
    (hfmt : formats.lookup p.dataType = some fmt) (hsize : fmt.calcsize = 4)
    (ho : o ∈ ["ABCD", "BADC", "CDAB", "DCBA"]) (hm : p.modbus = some m)
    (hmo : m.byteOrder = some (py o)) (hv : 0 ≤ v.number ∧ v.number < 65536)
    (hu : 0 ≤ u.number ∧ u.number < 65536) :
    ∃ bytes, registerNumber p [v, u] = .ok (fmt.unpack bytes) ∧
      (bigEndian bytes : ℤ) = joined (inOrder (py o) [v.number, u.number]) := by
  obtain ⟨bytes, hbytes, hvalue⟩ := canonicalBytes_pair ho hmo v.number u.number hv hu
  refine ⟨bytes, ?_, hvalue⟩
  rw [registerNumber, hfmt]
  simp only [List.length_cons, List.length_nil, hsize, ne_eq]
  rw [List.mapM_cons, List.mapM_cons, List.mapM_nil, packWord_eq hv, packWord_eq hu, hm]
  simp only [bind, Except.bind, pure, Except.pure, List.flatten_cons, List.flatten_nil,
    List.append_nil, List.cons_append, List.nil_append, hbytes]
  rfl

end Formats

/-- A data type of integers: its number of registers and its sign. -/
structure IntegerType (t : String) (fmt : Format) (count : Nat) (conv : ℤ → ℤ) : Prop where
  format : formats.lookup (py t) = some fmt
  size : fmt.calcsize = 2 * count
  unpack : ∀ bytes, fmt.unpack bytes = .int (conv (bigEndian bytes))
  wire : ∀ (p : PointConfig) (values : List Register), p.dataType = py t →
    wireInteger p values =
      if (∀ w ∈ values.map Register.number, 0 ≤ w ∧ w < 65536) ∧ values.length = count then
        some (conv (joined (inOrder ((p.modbus.bind (·.byteOrder)).getD [])
          (values.map Register.number))))
      else none

theorem integerType_int16 : IntegerType "int16" .int16 1 (signed 16) where
  format := by decide
  size := rfl
  unpack _ := rfl
  wire p values h := by
    simp only [wireInteger, h, List.length_map, show py "int16" ≠ py "int32" by decide,
      show py "int16" ≠ py "uint16" by decide, show py "int16" ≠ py "uint32" by decide, false_and,
      if_false]
    split_ifs <;> simp_all

theorem integerType_uint16 : IntegerType "uint16" .uint16 1 id where
  format := by decide
  size := rfl
  unpack _ := rfl
  wire p values h := by
    simp only [wireInteger, h, List.length_map, show py "uint16" ≠ py "int16" by decide,
      show py "uint16" ≠ py "int32" by decide, show py "uint16" ≠ py "uint32" by decide, false_and,
      if_false]
    split_ifs <;> simp_all

theorem integerType_int32 : IntegerType "int32" .int32 2 (signed 32) where
  format := by decide
  size := rfl
  unpack _ := rfl
  wire p values h := by
    simp only [wireInteger, h, List.length_map, show py "int32" ≠ py "int16" by decide,
      show py "int32" ≠ py "uint16" by decide, show py "int32" ≠ py "uint32" by decide, false_and,
      if_false]
    split_ifs <;> simp_all

theorem integerType_uint32 : IntegerType "uint32" .uint32 2 id where
  format := by decide
  size := rfl
  unpack _ := rfl
  wire p values h := by
    simp only [wireInteger, h, List.length_map, show py "uint32" ≠ py "int16" by decide,
      show py "uint32" ≠ py "uint16" by decide, show py "uint32" ≠ py "int32" by decide, false_and,
      if_false]
    split_ifs <;> simp_all

/-- What the registers of an integer point hold. -/
theorem IntegerType.reads {t : String} {fmt : Format} {count : Nat} {conv : ℤ → ℤ}
    (hint : IntegerType t fmt count conv) {p : PointConfig} (htype : p.dataType = py t)
    (hread : ∀ values : List Register, values.length = count →
      (∀ w ∈ values.map Register.number, 0 ≤ w ∧ w < 65536) →
      ∃ bytes, registerNumber p values = .ok (fmt.unpack bytes) ∧
        (bigEndian bytes : ℤ) = joined (inOrder ((p.modbus.bind (·.byteOrder)).getD [])
          (values.map Register.number)))
    (values : List Register) : ReadsRegisters p values := by
  have hfmt : formats.lookup p.dataType = some fmt := by rw [htype, hint.format]
  have hwire := hint.wire p values htype
  by_cases hcount : values.length = count
  · have hcount' : values.length * 2 = fmt.calcsize := by rw [hint.size, hcount, mul_comm]
    by_cases hwords : ∀ w ∈ values.map Register.number, 0 ≤ w ∧ w < 65536
    · obtain ⟨bytes, hbytes, hvalue⟩ := hread values hcount hwords
      rw [if_pos ⟨hwords, hcount⟩] at hwire
      refine readsRegisters_some hwire ?_
      rw [hbytes, hint.unpack, hvalue]
    · rw [if_neg fun h => hwords h.1] at hwire
      exact readsRegisters_none hwire (.inr ⟨_, registerNumber_words hfmt hcount' hwords, rfl⟩)
  · have hcount' : values.length * 2 ≠ fmt.calcsize := by
      rw [hint.size]
      omega
    rw [if_neg fun h => hcount h.2] at hwire
    exact readsRegisters_none hwire (.inr ⟨_, registerNumber_count hfmt hcount', rfl⟩)

/-- Points whose values are one register. -/
theorem readsRegisters_word {t : String} {fmt : Format} {conv : ℤ → ℤ} {p : PointConfig}
    (hint : IntegerType t fmt 1 conv) (htype : p.dataType = py t)
    (horder : ∃ m, p.modbus = some m ∧ ∃ o ∈ ["AB", "BA"], m.byteOrder = some (py o))
    (values : List Register) : ReadsRegisters p values := by
  obtain ⟨m, hm, o, ho, hmo⟩ := horder
  refine hint.reads htype (fun values hcount hwords => ?_) values
  obtain ⟨v, rfl⟩ := List.length_eq_one_iff.mp hcount
  have hv : 0 ≤ v.number ∧ v.number < 65536 := hwords _ (by simp)
  rw [hm, Option.bind_some, hmo, Option.getD_some]
  exact registerNumber_word (by rw [htype, hint.format]) hint.size ho hm hmo hv

/-- The words of a pair of registers. -/
theorem pair_words {v u : Register}
    (h : ∀ w ∈ [v, u].map Register.number, 0 ≤ w ∧ w < 65536) :
    (0 ≤ v.number ∧ v.number < 65536) ∧ 0 ≤ u.number ∧ u.number < 65536 :=
  ⟨h _ (by simp), h _ (by simp)⟩

/-- Points whose values are two registers. -/
theorem readsRegisters_pair {t : String} {fmt : Format} {conv : ℤ → ℤ} {p : PointConfig}
    (hint : IntegerType t fmt 2 conv) (htype : p.dataType = py t)
    (horder : ∃ m, p.modbus = some m ∧
      ∃ o ∈ ["ABCD", "BADC", "CDAB", "DCBA"], m.byteOrder = some (py o))
    (values : List Register) : ReadsRegisters p values := by
  obtain ⟨m, hm, o, ho, hmo⟩ := horder
  refine hint.reads htype (fun values hcount hwords => ?_) values
  obtain ⟨v, u, rfl⟩ := List.length_eq_two.mp hcount
  obtain ⟨hv, hu⟩ := pair_words hwords
  rw [hm, Option.bind_some, hmo, Option.getD_some]
  exact registerNumber_pair (by rw [htype, hint.format]) hint.size ho hm hmo hv hu

/-- Floats are no wire integers. -/
theorem readsRegisters_float32 {p : PointConfig} (htype : p.dataType = py "float32")
    (horder : ∃ m, p.modbus = some m ∧
      ∃ o ∈ ["ABCD", "BADC", "CDAB", "DCBA"], m.byteOrder = some (py o))
    (values : List Register) : ReadsRegisters p values := by
  obtain ⟨m, hm, o, ho, hmo⟩ := horder
  have hfmt : formats.lookup p.dataType = some .float32 := by
    rw [htype]
    decide
  have hwire : wireInteger p values = none := by
    simp only [wireInteger, htype, show py "float32" ≠ py "int16" by decide,
      show py "float32" ≠ py "uint16" by decide, show py "float32" ≠ py "int32" by decide,
      show py "float32" ≠ py "uint32" by decide, false_and, if_false, ite_self]
  refine readsRegisters_none hwire ?_
  by_cases hcount : values.length * 2 = Format.float32.calcsize
  · by_cases hwords : ∀ w ∈ values.map Register.number, 0 ≤ w ∧ w < 65536
    · obtain ⟨v, u, rfl⟩ : ∃ v u, values = [v, u] :=
        List.length_eq_two.mp (by rw [Format.calcsize] at hcount; omega)
      obtain ⟨hv, hu⟩ := pair_words hwords
      obtain ⟨bytes, hbytes, -⟩ := registerNumber_pair hfmt rfl ho hm hmo hv hu
      exact .inl ⟨_, hbytes⟩
    · exact .inr ⟨_, registerNumber_words hfmt hcount hwords, rfl⟩
  · exact .inr ⟨_, registerNumber_count hfmt hcount, rfl⟩

/-- What the registers of a readable point hold. -/
theorem registerNumber_spec {p : PointConfig} (h : Readable (py "modbus_tcp") p)
    (hbool : p.dataType ≠ py "bool") (values : List Register) : ReadsRegisters p values := by
  obtain ⟨t, ht, htype⟩ := h.dataType
  simp only [dataTypes, List.mem_cons, List.not_mem_nil, or_false] at ht
  rcases ht with rfl | rfl | rfl | rfl | rfl | rfl
  · exact absurd htype hbool
  · exact readsRegisters_word integerType_int16 htype (h.words rfl ⟨_, by simp, htype⟩) values
  · exact readsRegisters_word integerType_uint16 htype (h.words rfl ⟨_, by simp, htype⟩) values
  · exact readsRegisters_pair integerType_int32 htype (h.pairs rfl ⟨_, by simp, htype⟩) values
  · exact readsRegisters_pair integerType_uint32 htype (h.pairs rfl ⟨_, by simp, htype⟩) values
  · exact readsRegisters_float32 htype (h.pairs rfl ⟨_, by simp, htype⟩) values

/-! ## Nodes -/

/-- What a node of a point holds: the integer, a float, or an exception that is caught. -/
theorem nodeNumber_spec {p : PointConfig} (hbool : p.dataType ≠ py "bool") (v : NodeValue) :
    match nodeInteger p v with
    | some n => nodeNumber p v = .ok (.int n)
    | none => (∃ x, nodeNumber p v = .ok (.float x)) ∨
        ∃ e, nodeNumber p v = .error e ∧ opcuaCatches e = true := by
  unfold nodeInteger
  rw [if_neg hbool]
  cases hr : ranges.lookup p.dataType with
  | none =>
      cases v with
      | bool b => exact .inr ⟨_, rfl, rfl⟩
      | int n => simp only [nodeNumber, hr]
      | enumeration n => simp only [nodeNumber, hr]
      | float x => exact .inl ⟨x, by simp only [nodeNumber, hr]⟩
      | other => exact .inr ⟨_, rfl, rfl⟩
  | some r =>
      obtain ⟨lo, hi⟩ := r
      cases v with
      | int n =>
          by_cases hn : lo ≤ n ∧ n ≤ hi
          · simp only [nodeNumber, hr, if_pos hn]
          · simp only [nodeNumber, hr, if_neg hn]
            exact .inr ⟨_, rfl, rfl⟩
      | bool b => exact .inr ⟨_, rfl, rfl⟩
      | other => exact .inr ⟨_, rfl, rfl⟩
      | enumeration n => exact .inr ⟨_, by simp only [nodeNumber, hr]; rfl, rfl⟩
      | float x => exact .inr ⟨_, by simp only [nodeNumber, hr]; rfl, rfl⟩

/-! ## Scaling -/

section Scaling

variable [FloatArith]

/-- The result of a float operation, or the failed conversion of an operand. -/
theorem mul_cases (a b : Number) :
    (∃ m n, a = .int m ∧ b = .int n ∧ a.mul b = .ok (.int (m * n))) ∨
      ((∀ m n, ¬ (a = .int m ∧ b = .int n)) ∧
        ((∃ x, a.mul b = .ok (.float x)) ∨ a.mul b = .error .overflowError)) := by
  cases a with
  | int m =>
      cases b with
      | int n => exact .inl ⟨m, n, rfl, rfl, rfl⟩
      | float y =>
          refine .inr ⟨nofun, ?_⟩
          cases hm : toFloat m with
          | some x => exact .inl ⟨_, by simp [Number.mul, Number.toFloat, hm, bind, Except.bind]; rfl⟩
          | none => exact .inr (by simp [Number.mul, Number.toFloat, hm, bind, Except.bind])
  | float x =>
      refine .inr ⟨nofun, ?_⟩
      cases b with
      | int n =>
          cases hn : toFloat n with
          | some y => exact .inl ⟨_, by simp [Number.mul, Number.toFloat, hn, bind, Except.bind]; rfl⟩
          | none => exact .inr (by simp [Number.mul, Number.toFloat, hn, bind, Except.bind])
      | float y => exact .inl ⟨_, rfl⟩

theorem add_cases (a b : Number) :
    (∃ m n, a = .int m ∧ b = .int n ∧ a.add b = .ok (.int (m + n))) ∨
      ((∀ m n, ¬ (a = .int m ∧ b = .int n)) ∧
        ((∃ x, a.add b = .ok (.float x)) ∨ a.add b = .error .overflowError)) := by
  cases a with
  | int m =>
      cases b with
      | int n => exact .inl ⟨m, n, rfl, rfl, rfl⟩
      | float y =>
          refine .inr ⟨nofun, ?_⟩
          cases hm : toFloat m with
          | some x => exact .inl ⟨_, by simp [Number.add, Number.toFloat, hm, bind, Except.bind]; rfl⟩
          | none => exact .inr (by simp [Number.add, Number.toFloat, hm, bind, Except.bind])
  | float x =>
      refine .inr ⟨nofun, ?_⟩
      cases b with
      | int n =>
          cases hn : toFloat n with
          | some y => exact .inl ⟨_, by simp [Number.add, Number.toFloat, hn, bind, Except.bind]; rfl⟩
          | none => exact .inr (by simp [Number.add, Number.toFloat, hn, bind, Except.bind])
      | float y => exact .inl ⟨_, rfl⟩

omit [FloatArith] in
theorem ofConfig_int {q : PyNum} {n : ℤ} (h : Number.ofConfig q = .int n) : q = .int n := by
  cases q with
  | int m =>
      cases h
      rfl
  | float x => cases h

omit [FloatArith] in
/-- A float result is finite or refused. -/
theorem finiteResult_float (x : PyFloat) :
    finiteResult (.float x) = .error (.valueError "Nonfinite value") ∨
      x.isFinite = true ∧ finiteResult (.float x) = .ok (.float x) := by
  by_cases hx : x.isFinite = true
  · exact .inr ⟨hx, by rw [finiteResult, if_pos hx]⟩
  · exact .inl (by rw [finiteResult, if_neg hx])

/-- An exception every driver catches. -/
def Arithmetic (e : DecodeExc) : Prop :=
  e = .overflowError ∨ e = .valueError "Nonfinite value"

/-- What scaling makes of a raw number. -/
theorem scaled_cases (p : PointConfig) (raw : Number) :
    (∃ n s o, raw = .int n ∧ p.scale = .int s ∧ p.offset = .int o ∧
        scaled p raw = .ok (.int (n * s + o))) ∨
      ((∀ n s o, ¬ (raw = .int n ∧ p.scale = .int s ∧ p.offset = .int o)) ∧
        ((∃ x, x.isFinite = true ∧ scaled p raw = .ok (.float x)) ∨
          ∃ e, Arithmetic e ∧ scaled p raw = .error e)) := by
  -- A float product or sum ends as a finite float or as an exception.
  have hfloat : ∀ x, scaled p raw = finiteResult (.float x) →
      (∃ x, x.isFinite = true ∧ scaled p raw = .ok (.float x)) ∨
        ∃ e, Arithmetic e ∧ scaled p raw = .error e := by
    intro x hx
    rcases finiteResult_float x with h | ⟨hfin, h⟩
    · exact .inr ⟨_, .inr rfl, by rw [hx, h]⟩
    · exact .inl ⟨x, hfin, by rw [hx, h]⟩
  rcases mul_cases raw (.ofConfig p.scale) with ⟨n, s, rfl, hs, hmul⟩ | ⟨hne, hmul⟩
  · rcases add_cases (.int (n * s)) (.ofConfig p.offset) with ⟨m, o, hm, ho, hadd⟩ | ⟨hne, hadd⟩
    · cases hm
      refine .inl ⟨n, s, o, rfl, ofConfig_int hs, ofConfig_int ho, ?_⟩
      rw [scaled, hmul]
      exact (congrArg (· >>= finiteResult) hadd)
    · refine .inr ⟨fun n' s' o' h => hne (n * s) o' ⟨rfl, by rw [h.2.2]; rfl⟩, ?_⟩
      rcases hadd with ⟨x, hadd⟩ | hadd
      · refine hfloat x ?_
        rw [scaled, hmul]
        exact (congrArg (· >>= finiteResult) hadd)
      · refine .inr ⟨_, .inl rfl, ?_⟩
        rw [scaled, hmul]
        exact (congrArg (· >>= finiteResult) hadd)
  · refine .inr ⟨fun n s o h => hne n s ⟨h.1, by rw [h.2.1]; rfl⟩, ?_⟩
    rcases hmul with ⟨y, hmul⟩ | hmul
    · rcases add_cases (.float y) (.ofConfig p.offset) with ⟨m, o, hm, -⟩ | ⟨-, ⟨x, hadd⟩ | hadd⟩
      · cases hm
      · refine hfloat x ?_
        rw [scaled, hmul]
        exact (congrArg (· >>= finiteResult) hadd)
      · refine .inr ⟨_, .inl rfl, ?_⟩
        rw [scaled, hmul]
        exact (congrArg (· >>= finiteResult) hadd)
    · refine .inr ⟨_, .inl rfl, ?_⟩
      rw [scaled, hmul]
      rfl

end Scaling

/-! ## Samples -/

/-- The sample passes every check that does not concern its value. -/
def Stamped (s : Sample) : Prop :=
  ∃ t, ({ s with value := none, quality := .badDecode } : Sample).postInit = .ok t

/-- `Sample` accepts the value as GOOD. -/
def SampleAccepts (v : Value) : Prop :=
  ∀ s : Sample, Stamped s →
    ∃ t, ({ s with value := some v, quality := .good } : Sample).postInit = .ok t

/-- The checks before the one of the value do not look at it. -/
theorem Stamped.postInit {s : Sample} (h : Stamped s) (v : Option Value) (q : Quality) :
    ({ s with value := v, quality := q } : Sample).postInit
      = ({ s with value := v, quality := q } : Sample).checkValue := by
  obtain ⟨t, ht⟩ := h
  obtain ⟨u, hu, -⟩ := bind_eq_ok ht
  have hmeta : ({ s with value := v, quality := q } : Sample).checkMetadata = .ok u := hu
  rw [Sample.postInit, hmeta]
  rfl

theorem stamped_accepts {s : Sample} (h : Stamped s) {v : Value} :
    (∃ t, ({ s with value := some v, quality := .good } : Sample).postInit = .ok t) ↔
      v.accepted = true := by
  rw [h.postInit]
  exact checkValue_good rfl rfl

/-- A result without a value is captured. -/
theorem stamped_bad {s : Sample} (h : Stamped s) {q : Quality} (hq : q ≠ .good) :
    ∃ t, ({ s with value := none, quality := q } : Sample).postInit = .ok t := by
  rw [h.postInit]
  exact ⟨_, checkValue_bad hq rfl⟩

/-- A sample outside any event stream. -/
def blankSample : Sample :=
  { configVersion := 0, deviceId := [], pointId := [], timestamp := none, value := none,
    quality := .unknown }

theorem stamped_blank : Stamped blankSample := ⟨_, rfl⟩

theorem sampleAccepts_iff {v : Value} : SampleAccepts v ↔ v.accepted = true := by
  constructor
  · intro h
    exact (stamped_accepts stamped_blank).mp (h _ stamped_blank)
  · intro h s hs
    exact (stamped_accepts hs).mpr h

/-! ## Outcomes -/

/-- The driver reports BAD_DECODE, or a value `Sample` accepts as GOOD. -/
def Harmless (o : Except DecodeExc (Option Value × Quality)) : Prop :=
  o = .ok (none, .badDecode) ∨ ∃ v, o = .ok (some v, .good) ∧ SampleAccepts v

theorem harmless_value {catches : DecodeExc → Bool} {v : Value} :
    Harmless (outcome catches (.ok v)) ↔ v.accepted = true := by
  rw [← sampleAccepts_iff]
  constructor
  · rintro (h | ⟨w, h, hw⟩)
    · cases h
    · cases h
      exact hw
  · intro h
    exact .inr ⟨v, rfl, h⟩

theorem harmless_error {catches : DecodeExc → Bool} {e : DecodeExc} (h : catches e = true) :
    Harmless (outcome catches (.error e)) := by
  rw [outcome, if_pos h]
  exact .inl rfl

section Captured

variable [FloatArith]

/-- Scaling an integer is harmless unless the result is too large. -/
theorem scaled_int {catches : DecodeExc → Bool} (hcatches : ∀ e, Arithmetic e → catches e = true)
    (p : PointConfig) (n : ℤ) : Harmless (outcome catches (scaled p (.int n))) ↔ ¬ TooLarge p n := by
  rcases scaled_cases p (.int n) with ⟨m, s, o, hm, hs, ho, h⟩ | ⟨hne, h⟩
  · cases hm
    rw [h, harmless_value, Value.accepted, decide_eq_true_eq]
    constructor
    · rintro hlt ⟨s', o', hs', ho', hlimit⟩
      rw [hs] at hs'
      rw [ho] at ho'
      cases hs'
      cases ho'
      exact absurd hlt (not_lt.mpr hlimit)
    · intro hlarge
      exact not_le.mp fun hlimit => hlarge ⟨s, o, hs, ho, hlimit⟩
  · have hsmall : ¬ TooLarge p n := by
      rintro ⟨s, o, hs, ho, -⟩
      exact hne n s o ⟨rfl, hs, ho⟩
    refine iff_of_true ?_ hsmall
    rcases h with ⟨x, hx, h⟩ | ⟨e, he, h⟩
    · rw [h]
      exact harmless_value.mpr hx
    · rw [h]
      exact harmless_error (hcatches e he)

/-- Scaling a float is harmless. -/
theorem scaled_float {catches : DecodeExc → Bool} (hcatches : ∀ e, Arithmetic e → catches e = true)
    (p : PointConfig) (x : PyFloat) : Harmless (outcome catches (scaled p (.float x))) := by
  rcases scaled_cases p (.float x) with ⟨n, s, o, hn, -⟩ | ⟨-, ⟨y, hy, h⟩ | ⟨e, he, h⟩⟩
  · cases hn
  · rw [h]
    exact harmless_value.mpr hy
  · rw [h]
    exact harmless_error (hcatches e he)

omit [FloatArith] in
theorem modbusCatches_arithmetic (e : DecodeExc) (h : Arithmetic e) : modbusCatches e = true := by
  rcases h with rfl | rfl <;> rfl

omit [FloatArith] in
theorem opcuaCatches_arithmetic (e : DecodeExc) (h : Arithmetic e) : opcuaCatches e = true := by
  rcases h with rfl | rfl <;> rfl

/-- Scaling what was read is harmless unless it is an integer that is too large. -/
theorem number_harmless {catches : DecodeExc → Bool}
    (hcatches : ∀ e, Arithmetic e → catches e = true) {p : PointConfig} {integer : Option ℤ}
    {number : Except DecodeExc Number}
    (hspec : match integer with
      | some n => number = .ok (.int n)
      | none => (∃ x, number = .ok (.float x)) ∨ ∃ e, number = .error e ∧ catches e = true) :
    Harmless (outcome catches (number >>= scaled p)) ↔
      ¬ ∃ n, integer = some n ∧ TooLarge p n := by
  cases integer with
  | some n =>
      rw [show number = .ok (.int n) from hspec]
      refine (scaled_int hcatches p n).trans (not_congr ⟨fun hl => ⟨n, rfl, hl⟩, ?_⟩)
      rintro ⟨m, hm, hl⟩
      cases hm
      exact hl
  | none =>
      refine iff_of_true ?_ nofun
      rcases hspec with ⟨x, hx⟩ | ⟨e, he, hcatch⟩
      · rw [hx]
        exact scaled_float hcatches p x
      · rw [he]
        exact harmless_error hcatch

omit [FloatArith] in
/-- A point without an integer type has no wire integer. -/
theorem wireInteger_bool {p : PointConfig} (h : p.dataType = py "bool") (values : List Register) :
    wireInteger p values = none := by
  simp only [wireInteger, h, show py "bool" ≠ py "int16" by decide,
    show py "bool" ≠ py "uint16" by decide, show py "bool" ≠ py "int32" by decide,
    show py "bool" ≠ py "uint32" by decide, false_and, if_false, ite_self]

/-- The registers of a readable point are harmless unless they overflow. -/
theorem registerOutcome_harmless {p : PointConfig} (h : Readable (py "modbus_tcp") p)
    (values : List Register) :
    Harmless (registerOutcome p values) ↔ ¬ RegistersOverflow p (.values values) := by
  show _ ↔ ¬ ∃ n, wireInteger p values = some n ∧ TooLarge p n
  unfold registerOutcome decodeRegisters
  by_cases hbool : p.dataType = py "bool"
  · rw [if_pos hbool, wireInteger_bool hbool]
    refine iff_of_true ?_ nofun
    split
    · exact harmless_value.mpr rfl
    · exact harmless_error rfl
  · rw [if_neg hbool]
    exact number_harmless modbusCatches_arithmetic (registerNumber_spec h hbool values)

/-- The value of a node is harmless unless it overflows. -/
theorem nodeOutcome_harmless (p : PointConfig) (v : NodeValue) :
    Harmless (nodeOutcome p v) ↔ ¬ NodeOverflows p v := by
  unfold nodeOutcome decodeNode NodeOverflows
  by_cases hbool : p.dataType = py "bool"
  · have hnone : nodeInteger p v = none := by
      unfold nodeInteger
      rw [if_pos hbool]
    rw [if_pos hbool, hnone]
    refine iff_of_true ?_ nofun
    split
    · exact harmless_value.mpr rfl
    · exact harmless_error rfl
  · rw [if_neg hbool]
    exact number_harmless opcuaCatches_arithmetic (nodeNumber_spec hbool v)

/-! ## Polls -/

omit [FloatArith] in
/-- A harmless outcome is captured, and only such a one. -/
theorem captureResult_returns {stamp : Sample} (hstamp : Stamped stamp)
    {o : Except DecodeExc (Option Value × Quality)}
    (ho : ∀ r, o = .ok r → r = (none, .badDecode) ∨ ∃ v, r = (some v, .good)) :
    Harmless o ↔ ∃ r, o = .ok r ∧ ∃ t, captureResult stamp r = .ok t := by
  have hcapture : ∀ r : Option Value × Quality, (∃ t, captureResult stamp r = .ok t) ↔
      ∃ t, ({ stamp with value := r.1, quality := r.2 } : Sample).postInit = .ok t := by
    intro r
    rw [captureResult]
    cases ({ stamp with value := r.1, quality := r.2 } : Sample).postInit <;> simp [Except.mapError]
  constructor
  · rintro (h | ⟨v, h, hv⟩)
    · exact ⟨_, h, (hcapture _).mpr (stamped_bad hstamp (by decide))⟩
    · exact ⟨_, h, (hcapture _).mpr (hv stamp hstamp)⟩
  · rintro ⟨r, h, hr⟩
    rcases ho r h with rfl | ⟨v, rfl⟩
    · exact .inl h
    · refine .inr ⟨v, h, ?_⟩
      rw [sampleAccepts_iff, ← stamped_accepts hstamp]
      exact (hcapture _).mp hr

omit [FloatArith] in
/-- What a driver reports carries a value exactly with quality GOOD. -/
theorem outcome_cases {catches : DecodeExc → Bool} {x : Except DecodeExc Value}
    {r : Option Value × Quality} (h : outcome catches x = .ok r) :
    r = (none, .badDecode) ∨ ∃ v, r = (some v, .good) := by
  cases x with
  | ok v =>
      cases h
      exact .inr ⟨v, rfl⟩
  | error e =>
      rw [outcome] at h
      split at h
      · cases h
        exact .inl rfl
      · cases h

/-- The result of one point is captured unless its registers overflow. -/
theorem pointResult_captured {stamp : Sample} (hstamp : Stamped stamp) {p : PointConfig}
    (h : Readable (py "modbus_tcp") p) (read : PointRead) :
    (∃ r, pointResult p read = .ok r ∧ ∃ t, captureResult stamp r = .ok t) ↔
      ¬ RegistersOverflow p read := by
  cases read with
  | values values =>
      rw [← registerOutcome_harmless h values]
      exact (captureResult_returns hstamp fun r hr => outcome_cases hr).symm
  | failed failure =>
      have hbad : failure.quality ≠ .good := by cases failure <;> decide
      obtain ⟨t, ht⟩ := stamped_bad hstamp hbad
      refine iff_of_true ⟨_, rfl, t, ?_⟩ id
      rw [captureResult, ht]
      rfl

/-- The two loops of a poll return when they do for each point. -/
theorem pollBlock_returns {stamp : PointConfig → Sample} {block : ReadBlock}
    {reads : PointConfig → PointRead} :
    (∃ samples, pollBlock stamp block reads = .ok samples) ↔
      ∀ p ∈ block.points, ∃ r, pointResult p (reads p) = .ok r ∧
        ∃ t, captureResult (stamp p) r = .ok t := by
  have hentry : ∀ p r, (do return (p, ← pointResult p (reads p)) :
      Except DecodeExc (PointConfig × Option Value × Quality)) = .ok r ↔
      ∃ q, pointResult p (reads p) = .ok q ∧ r = (p, q) := by
    intro p r
    cases pointResult p (reads p) <;> simp [bind, Except.bind, pure, Except.pure, eq_comm]
  constructor
  · rintro ⟨samples, h⟩ p hp
    obtain ⟨results, hresults, hcaptures⟩ := bind_eq_ok h
    have hblock : blockResults block reads = .ok results := by
      cases hb : blockResults block reads <;> simp [hb, Except.mapError] at hresults
      rw [hresults]
    obtain ⟨entry, hmem, hr⟩ := mapM_result hblock hp
    obtain ⟨q, hq, rfl⟩ := (hentry p entry).mp hr
    exact ⟨q, hq, mapM_returns_iff.mp ⟨samples, hcaptures⟩ _ hmem⟩
  · intro h
    obtain ⟨results, hresults⟩ : ∃ results, blockResults block reads = .ok results := by
      refine mapM_returns_iff.mpr fun p hp => ?_
      obtain ⟨q, hq, -⟩ := h p hp
      exact ⟨(p, q), (hentry p _).mpr ⟨q, hq, rfl⟩⟩
    have hcaptures : ∀ r ∈ results, ∃ t, captureResult (stamp r.1) r.2 = .ok t := by
      intro r hr
      obtain ⟨p, hp, hpr⟩ := mapM_source hresults hr
      obtain ⟨q, hq, rfl⟩ := (hentry p r).mp hpr
      obtain ⟨q', hq', ht⟩ := h p hp
      rw [hq] at hq'
      cases hq'
      exact ht
    obtain ⟨samples, hsamples⟩ := mapM_returns_iff.mpr hcaptures
    refine ⟨samples, ?_⟩
    rw [pollBlock, hresults]
    exact hsamples

/-- A scheduled read is captured unless its value overflows. -/
theorem pollNode_returns {stamp : PointConfig → Sample} {p : PointConfig}
    (hstamp : Stamped (stamp p)) (v : NodeValue) :
    (∃ s, pollNode stamp p v = .ok s) ↔ ¬ NodeOverflows p v := by
  have hcaptured : Harmless (nodeOutcome p v) ↔
      ∃ r, nodeOutcome p v = .ok r ∧ ∃ t, captureResult (stamp p) r = .ok t :=
    captureResult_returns hstamp fun r hr => outcome_cases hr
  rw [← nodeOutcome_harmless p v, hcaptured, pollNode]
  cases nodeOutcome p v with
  | error e => exact iff_of_false (fun ⟨s, h⟩ => nomatch h) (fun ⟨r, h, _⟩ => nomatch h)
  | ok r =>
      constructor
      · exact fun h => ⟨r, rfl, h⟩
      · rintro ⟨_, h, ht⟩
        cases h
        exact ht

variable [Contracts.JsonSchema]

/-- A value read from a device ends a poll exactly when it is an integer that the
    integers of its point scale out of binary64. -/
theorem device_values_captured {payload : Bytes} {gatewayId : PyStr} {s : ConfigSnapshot}
    (h : ConfigSnapshot.parse payload gatewayId = .ok s) {d : DeviceConfig} (hd : d ∈ s.devices) :
    (d.protocol = py "modbus_tcp" →
      (∀ p ∈ d.points, ∀ values, Harmless (registerOutcome p values) ↔
        ¬ RegistersOverflow p (.values values)) ∧
      ∀ stamp block reads, (∀ p ∈ block.points, p ∈ d.points ∧ Stamped (stamp p)) →
        ((∃ samples, pollBlock stamp block reads = .ok samples) ↔
          ∀ p ∈ block.points, ¬ RegistersOverflow p (reads p))) ∧
    (d.protocol = py "opcua" →
      ∀ p ∈ d.points, ∀ v, (Harmless (nodeOutcome p v) ↔ ¬ NodeOverflows p v) ∧
        ∀ stamp, Stamped (stamp p) →
          ((∃ sample, pollNode stamp p v = .ok sample) ↔ ¬ NodeOverflows p v)) := by
  obtain ⟨message, hparsed, -⟩ := parse_eq_ok h
  have hreadable : ∀ p ∈ d.points, Readable d.protocol p := fun p hp => hparsed.readable hd hp
  constructor
  · intro hprotocol
    rw [hprotocol] at hreadable
    refine ⟨fun p hp values => registerOutcome_harmless (hreadable p hp) values,
      fun stamp block reads hblock => ?_⟩
    rw [pollBlock_returns]
    refine forall₂_congr fun p hp => ?_
    exact pointResult_captured (hblock p hp).2 (hreadable p (hblock p hp).1) (reads p)
  · intro _ p _ v
    exact ⟨nodeOutcome_harmless p v, fun stamp hstamp => pollNode_returns hstamp v⟩

end Captured

/-! ## A point that scales out of binary64 -/

/-- Correctly rounded operations, to the sign of a zero. -/
@[reducible] def FloatArith.rounded : FloatArith where
  mul
    | .finite a, .finite b => ((binary64 (a * b)).map .finite).getD (.inf (a * b < 0))
    | _, _ => .nan
  add
    | .finite a, .finite b => ((binary64 (a + b)).map .finite).getD (.inf (a + b < 0))
    | _, _ => .nan

/-- A configuration with one register point, scaled by `10 ^ 308`. -/
def scaledConfig : Json :=
  .obj [(py "schemaVersion", .int 1), (py "gatewayId", .str (py "g")), (py "timestamp", .int 0),
    (py "messageId", .str (py "m")), (py "configVersion", .int 1),
    (py "config", .obj [(py "enabled", .bool true),
      (py "report", .obj [(py "batchIntervalMs", .int 1), (py "maxBatchPoints", .int 1)]),
      (py "devices", .arr [.obj [(py "deviceId", .str (py "d")), (py "name", .str (py "d")),
        (py "enabled", .bool true), (py "protocol", .str (py "modbus_tcp")),
        (py "connection", .obj [(py "host", .str (py "h")), (py "port", .int 502),
          (py "unitId", .int 1), (py "connectTimeoutMs", .int 1), (py "requestTimeoutMs", .int 1),
          (py "retryCount", .int 0)]),
        (py "points", .arr [.obj [(py "pointId", .str (py "p")), (py "name", .str (py "p")),
          (py "enabled", .bool true), (py "dataType", .str (py "uint16")),
          (py "pollIntervalMs", .int 1000), (py "scale", .int (10 ^ 308)), (py "offset", .int 0),
          (py "reportMode", .str (py "change")), (py "reportIntervalMs", .int 1000),
          (py "deadband", .int 0), (py "staleAfterMs", .int 3000),
          (py "modbus", .obj [(py "area", .str (py "holding_register")), (py "address", .int 0),
            (py "byteOrder", .str (py "AB"))])]])]])])]

def scaledPayload : Bytes := (utf8Encode (dumps scaledConfig)).getD []

/-- The point of that configuration. -/
def scaledPoint : PointConfig :=
  { pointId := py "p", name := py "p", enabled := true, dataType := py "uint16",
    pollIntervalMs := 1000, scale := .int (10 ^ 308), offset := .int 0, unit := none,
    reportMode := py "change", reportIntervalMs := 1000, deadband := .int 0, staleAfterMs := 3000,
    modbus := some ⟨py "holding_register", 0, some (py "AB")⟩ }

/-- The points of the devices of a protocol. -/
def pointsOf (protocol : PyStr) : Except ConfigExc ConfigSnapshot → List PointConfig
  | .ok s => (s.devices.filter (·.protocol = protocol)).flatMap (·.points)
  | .error _ => []

theorem mem_pointsOf {protocol : PyStr} {r : Except ConfigExc ConfigSnapshot} {p : PointConfig}
    (h : p ∈ pointsOf protocol r) :
    ∃ s d, r = .ok s ∧ d ∈ s.devices ∧ d.protocol = protocol ∧ p ∈ d.points := by
  cases r with
  | error e => cases h
  | ok s =>
      obtain ⟨d, hd, hp⟩ := List.mem_flatMap.mp h
      obtain ⟨hd, hprotocol⟩ := List.mem_filter.mp hd
      exact ⟨s, d, rfl, hd, by simpa using hprotocol, hp⟩

/-- The block of that point. -/
def scaledBlock : ReadBlock := ⟨py "holding_register", 0, 1, 1000, [scaledPoint]⟩

section Scaled

attribute [local instance] Contracts.JsonSchema.atRoot FloatArith.rounded

theorem scaledPoint_mem :
    scaledPoint ∈ pointsOf (py "modbus_tcp") (ConfigSnapshot.parse scaledPayload (py "g")) := by
  decide +kernel

theorem scaledPoint_overflows : RegistersOverflow scaledPoint (.values [.word 2]) := by
  refine ⟨2, by decide, 10 ^ 308, 0, rfl, rfl, ?_⟩
  decide +kernel

/-- The register value 1 of that point is captured. -/
theorem device_value_captured : ∃ s d, ConfigSnapshot.parse scaledPayload (py "g") = .ok s ∧
    d ∈ s.devices ∧ (∃ samples, pollBlock (fun _ => blankSample) scaledBlock
      (fun _ => .values [.word 1]) = .ok samples) := by
  obtain ⟨s, d, hs, hd, hprotocol, hp⟩ := mem_pointsOf scaledPoint_mem
  refine ⟨s, d, hs, hd, ?_⟩
  refine (((device_values_captured hs hd).1 hprotocol).2 _ _ _ fun p hmem => ?_).mpr fun p hmem => ?_
  · rw [List.mem_singleton.mp hmem]
    exact ⟨hp, stamped_blank⟩
  · rw [List.mem_singleton.mp hmem]
    rintro ⟨n, hn, s', o', hs', ho', hlimit⟩
    cases hn
    cases hs'
    cases ho'
    revert hlimit
    decide +kernel

/-- The register value 2 of that point ends the poll. -/
theorem device_value_escapes : ∃ s d, ConfigSnapshot.parse scaledPayload (py "g") = .ok s ∧
    d ∈ s.devices ∧ d.protocol = py "modbus_tcp" ∧ scaledPoint ∈ d.points ∧
    ¬ Harmless (registerOutcome scaledPoint [.word 2]) ∧
    ¬ ∃ samples, pollBlock (fun _ => blankSample) scaledBlock (fun _ => .values [.word 2])
      = .ok samples := by
  obtain ⟨s, d, hs, hd, hprotocol, hp⟩ := mem_pointsOf scaledPoint_mem
  obtain ⟨message, hparsed, -⟩ := parse_eq_ok hs
  have hreadable : Readable (py "modbus_tcp") scaledPoint := hprotocol ▸ hparsed.readable hd hp
  refine ⟨s, d, hs, hd, hprotocol, hp, ?_, ?_⟩
  · rw [registerOutcome_harmless hreadable]
    exact not_not_intro scaledPoint_overflows
  · rw [pollBlock_returns]
    intro hall
    exact (pointResult_captured stamped_blank hreadable _).mp
      (hall scaledPoint List.mem_cons_self) scaledPoint_overflows

end Scaled

end PlcnextIot.Drivers
