/-
  PlcnextIot.Drivers.Registers

  The register layout that `decode` of `drivers/modbus.py` inverts.

  `layOut` goes the other way than the program: from an integer to its
  big-endian bytes, to the order that `byteOrder` names, to 16-bit registers.
-/

import PlcnextIot.Drivers.Values

namespace PlcnextIot.Drivers

open PlcnextIot.Python PlcnextIot.Config PlcnextIot.Points

/-! ## Layout -/

/-- The bytes A, B, (C, D) of an integer, in two's complement. -/
def bytesOf (width : ℕ) (v : ℤ) : List ℕ :=
  (List.range width).map fun i => (v / 256 ^ (width - 1 - i) % 256).toNat

/-- The byte that a letter names. -/
def letterByte (bytes : List ℕ) (letter : ℕ) : ℕ := bytes.getD (letter - 'A'.toNat) 0

/-- Cut bytes into 16-bit registers. -/
def registersOf : List ℕ → List ℤ
  | a :: b :: rest => (256 * a + b : ℕ) :: registersOf rest
  | _ => []

/-- The registers of an integer of `width` bytes, in a byte order. -/
def layOut (order : PyStr) (width : ℕ) (v : ℤ) : List ℤ :=
  registersOf (order.map (letterByte (bytesOf width v)))

/-- The integer types: their bytes, their ranges and the byte orders of the contract. -/
def integerTypes : List (String × ℕ × (ℤ × ℤ) × List String) :=
  [("int16", 2, (-32768, 32767), ["AB", "BA"]),
   ("uint16", 2, (0, 65535), ["AB", "BA"]),
   ("int32", 4, (-2147483648, 2147483647), ["ABCD", "BADC", "CDAB", "DCBA"]),
   ("uint32", 4, (0, 4294967295), ["ABCD", "BADC", "CDAB", "DCBA"])]

theorem bytesOf_two (v : ℤ) : bytesOf 2 v = [(v / 256 % 256).toNat, (v % 256).toNat] := by
  simp [bytesOf, List.range_succ]

theorem bytesOf_four (v : ℤ) :
    bytesOf 4 v = [(v / 16777216 % 256).toNat, (v / 65536 % 256).toNat, (v / 256 % 256).toNat,
      (v % 256).toNat] := by
  simp [bytesOf, List.range_succ]

/-- Exchanging the bytes of a register. -/
theorem swapBytes_bytes {a b : ℕ} (hb : b < 256) :
    swapBytes ((256 * a + b : ℕ) : ℤ) = 256 * b + a := by
  rw [swapBytes]
  push_cast
  omega

/-- One register, in order, is the integer. -/
theorem joined_layOut_word {o : String} (ho : o ∈ ["AB", "BA"]) (v : ℤ) :
    ∃ w, layOut (py o) 2 v = [w] ∧ (0 ≤ w ∧ w < 65536) ∧
      joined (inOrder (py o) [w]) = v % 65536 := by
  simp only [List.mem_cons, List.not_mem_nil, or_false] at ho
  rcases ho with rfl | rfl
  · have hlay : layOut (py "AB") 2 v = [((256 * (v / 256 % 256).toNat + (v % 256).toNat : ℕ) : ℤ)] := by
      rw [layOut, bytesOf_two, show py "AB" = [65, 66] by decide]
      rfl
    refine ⟨_, hlay, by omega, ?_⟩
    rw [inOrder, if_neg (by decide), if_neg (by decide), if_neg (by decide)]
    simp only [joined, List.foldl_cons, List.foldl_nil]
    omega
  · have hlay : layOut (py "BA") 2 v = [((256 * (v % 256).toNat + (v / 256 % 256).toNat : ℕ) : ℤ)] := by
      rw [layOut, bytesOf_two, show py "BA" = [66, 65] by decide]
      rfl
    refine ⟨_, hlay, by omega, ?_⟩
    rw [inOrder, if_pos (by decide), List.map_cons, List.map_nil,
      swapBytes_bytes (by omega)]
    simp only [joined, List.foldl_cons, List.foldl_nil]
    omega

/-- Two registers, in order, are the integer. -/
theorem joined_layOut_pair {o : String} (ho : o ∈ ["ABCD", "BADC", "CDAB", "DCBA"]) (v : ℤ) :
    ∃ w u, layOut (py o) 4 v = [w, u] ∧ (0 ≤ w ∧ w < 65536) ∧ (0 ≤ u ∧ u < 65536) ∧
      joined (inOrder (py o) [w, u]) = v % 4294967296 := by
  obtain ⟨a, ha⟩ : ∃ a, (v / 16777216 % 256).toNat = a := ⟨_, rfl⟩
  obtain ⟨b, hb⟩ : ∃ b, (v / 65536 % 256).toNat = b := ⟨_, rfl⟩
  obtain ⟨c, hc⟩ : ∃ c, (v / 256 % 256).toNat = c := ⟨_, rfl⟩
  obtain ⟨d, hd⟩ : ∃ d, (v % 256).toNat = d := ⟨_, rfl⟩
  have hbytes : bytesOf 4 v = [a, b, c, d] := by rw [bytesOf_four, ha, hb, hc, hd]
  simp only [List.mem_cons, List.not_mem_nil, or_false] at ho
  rcases ho with rfl | rfl | rfl | rfl
  · have hlay : layOut (py "ABCD") 4 v = [((256 * a + b : ℕ) : ℤ), ((256 * c + d : ℕ) : ℤ)] := by
      rw [layOut, hbytes, show py "ABCD" = [65, 66, 67, 68] by decide]
      rfl
    refine ⟨_, _, hlay, by omega, by omega, ?_⟩
    rw [inOrder, if_neg (by decide), if_neg (by decide), if_neg (by decide)]
    simp only [joined, List.foldl_cons, List.foldl_nil]
    omega
  · have hlay : layOut (py "BADC") 4 v = [((256 * b + a : ℕ) : ℤ), ((256 * d + c : ℕ) : ℤ)] := by
      rw [layOut, hbytes, show py "BADC" = [66, 65, 68, 67] by decide]
      rfl
    refine ⟨_, _, hlay, by omega, by omega, ?_⟩
    rw [inOrder, if_pos (by decide), List.map_cons, List.map_cons, List.map_nil,
      swapBytes_bytes (by omega), swapBytes_bytes (by omega)]
    simp only [joined, List.foldl_cons, List.foldl_nil]
    omega
  · have hlay : layOut (py "CDAB") 4 v = [((256 * c + d : ℕ) : ℤ), ((256 * a + b : ℕ) : ℤ)] := by
      rw [layOut, hbytes, show py "CDAB" = [67, 68, 65, 66] by decide]
      rfl
    refine ⟨_, _, hlay, by omega, by omega, ?_⟩
    rw [inOrder, if_neg (by decide), if_pos (by decide)]
    simp only [joined, List.reverse_cons, List.reverse_nil, List.nil_append, List.cons_append,
      List.foldl_cons, List.foldl_nil]
    omega
  · have hlay : layOut (py "DCBA") 4 v = [((256 * d + c : ℕ) : ℤ), ((256 * b + a : ℕ) : ℤ)] := by
      rw [layOut, hbytes, show py "DCBA" = [68, 67, 66, 65] by decide]
      rfl
    refine ⟨_, _, hlay, by omega, by omega, ?_⟩
    rw [inOrder, if_neg (by decide), if_neg (by decide), if_pos (by decide), List.map_cons,
      List.map_cons, List.map_nil, swapBytes_bytes (by omega),
      swapBytes_bytes (by omega)]
    simp only [joined, List.reverse_cons, List.reverse_nil, List.nil_append, List.cons_append,
      List.foldl_cons, List.foldl_nil]
    omega

/-! ## Words -/

theorem swapBytes_word {w : ℤ} (hw : 0 ≤ w ∧ w < 65536) : 0 ≤ swapBytes w ∧ swapBytes w < 65536 := by
  rw [swapBytes]
  omega

theorem swapBytes_inj {w w' : ℤ} (hw : 0 ≤ w ∧ w < 65536) (hw' : 0 ≤ w' ∧ w' < 65536)
    (h : swapBytes w = swapBytes w') : w = w' := by
  rw [swapBytes, swapBytes] at h
  omega

theorem joined_pair (w u : ℤ) : joined [w, u] = 65536 * w + u := by
  simp [joined]

theorem joined_pair_eq {w u w' u' : ℤ} (hu : 0 ≤ u ∧ u < 65536) (hu' : 0 ≤ u' ∧ u' < 65536)
    (h : joined [w, u] = joined [w', u']) : w = w' ∧ u = u' := by
  rw [joined_pair, joined_pair] at h
  omega

/-- Different registers are different numbers. -/
theorem joined_word_inj {o : String} (ho : o ∈ ["AB", "BA"]) {w w' : ℤ} (hw : 0 ≤ w ∧ w < 65536)
    (hw' : 0 ≤ w' ∧ w' < 65536) (h : joined (inOrder (py o) [w]) = joined (inOrder (py o) [w'])) :
    w = w' := by
  have hone : ∀ x, joined [x] = x := fun x => by simp [joined]
  simp only [List.mem_cons, List.not_mem_nil, or_false] at ho
  rcases ho with rfl | rfl
  · rw [inOrder, inOrder, if_neg (by decide), if_neg (by decide), if_neg (by decide),
      if_neg (by decide), if_neg (by decide), if_neg (by decide), hone, hone] at h
    exact h
  · rw [inOrder, inOrder, if_pos (by decide), if_pos (by decide), List.map_cons, List.map_cons,
      List.map_nil, hone, hone] at h
    exact swapBytes_inj hw hw' h

theorem joined_pair_inj {o : String} (ho : o ∈ ["ABCD", "BADC", "CDAB", "DCBA"]) {w u w' u' : ℤ}
    (hw : 0 ≤ w ∧ w < 65536) (hu : 0 ≤ u ∧ u < 65536) (hw' : 0 ≤ w' ∧ w' < 65536)
    (hu' : 0 ≤ u' ∧ u' < 65536)
    (h : joined (inOrder (py o) [w, u]) = joined (inOrder (py o) [w', u'])) : w = w' ∧ u = u' := by
  have hABCD : ∀ x y, inOrder (py "ABCD") [x, y] = [x, y] := fun _ _ => rfl
  have hBADC : ∀ x y, inOrder (py "BADC") [x, y] = [swapBytes x, swapBytes y] := fun _ _ => rfl
  have hCDAB : ∀ x y, inOrder (py "CDAB") [x, y] = [y, x] := fun _ _ => rfl
  have hDCBA : ∀ x y, inOrder (py "DCBA") [x, y] = [swapBytes y, swapBytes x] := fun _ _ => rfl
  simp only [List.mem_cons, List.not_mem_nil, or_false] at ho
  rcases ho with rfl | rfl | rfl | rfl
  · rw [hABCD, hABCD] at h
    exact joined_pair_eq hu hu' h
  · rw [hBADC, hBADC] at h
    obtain ⟨h₁, h₂⟩ := joined_pair_eq (swapBytes_word hu) (swapBytes_word hu') h
    exact ⟨swapBytes_inj hw hw' h₁, swapBytes_inj hu hu' h₂⟩
  · rw [hCDAB, hCDAB] at h
    exact (joined_pair_eq hw hw' h).symm
  · rw [hDCBA, hDCBA] at h
    obtain ⟨h₁, h₂⟩ := joined_pair_eq (swapBytes_word hw) (swapBytes_word hw') h
    exact ⟨swapBytes_inj hw hw' h₂, swapBytes_inj hu hu' h₁⟩

/-- What the layout of a number of registers has to do. -/
structure Layout (order : PyStr) (count : ℕ) : Prop where
  length : ∀ v, (layOut order (2 * count) v).length = count
  words : ∀ v, ∀ w ∈ layOut order (2 * count) v, 0 ≤ w ∧ w < 65536
  joined : ∀ v, joined (inOrder order (layOut order (2 * count) v)) = v % 65536 ^ count
  range : ∀ words : List ℤ, words.length = count → (∀ w ∈ words, 0 ≤ w ∧ w < 65536) →
    0 ≤ Drivers.joined (inOrder order words) ∧ Drivers.joined (inOrder order words) < 65536 ^ count
  injective : ∀ words words' : List ℤ, words.length = count → words'.length = count →
    (∀ w ∈ words, 0 ≤ w ∧ w < 65536) → (∀ w ∈ words', 0 ≤ w ∧ w < 65536) →
    Drivers.joined (inOrder order words) = Drivers.joined (inOrder order words') → words = words'

theorem layout_word {o : String} (ho : o ∈ ["AB", "BA"]) : Layout (py o) 1 := by
  refine ⟨fun v => ?_, fun v => ?_, fun v => ?_, fun words hlen hw => ?_,
    fun words words' hlen hlen' hw hw' h => ?_⟩
  · obtain ⟨w, hlay, -, -⟩ := joined_layOut_word ho v
    rw [mul_one, hlay, List.length_singleton]
  · obtain ⟨w, hlay, hword, -⟩ := joined_layOut_word ho v
    rw [mul_one, hlay]
    exact fun u hu => List.mem_singleton.mp hu ▸ hword
  · obtain ⟨w, hlay, -, hjoined⟩ := joined_layOut_word ho v
    rw [mul_one, hlay, hjoined, pow_one]
  · obtain ⟨w, rfl⟩ := List.length_eq_one_iff.mp hlen
    have hword := hw w (.head _)
    have hone : ∀ x, Drivers.joined [x] = x := fun x => by simp [Drivers.joined]
    simp only [List.mem_cons, List.not_mem_nil, or_false] at ho
    rcases ho with rfl | rfl
    · show 0 ≤ Drivers.joined [w] ∧ Drivers.joined [w] < _
      rw [hone, pow_one]
      exact hword
    · show 0 ≤ Drivers.joined [swapBytes w] ∧ Drivers.joined [swapBytes w] < _
      rw [hone, pow_one]
      exact swapBytes_word hword
  · obtain ⟨w, rfl⟩ := List.length_eq_one_iff.mp hlen
    obtain ⟨w', rfl⟩ := List.length_eq_one_iff.mp hlen'
    rw [joined_word_inj ho (hw w (.head _)) (hw' w' (.head _)) h]

/-- Two words make a number of 32 bits. -/
theorem joined_pair_range {w u : ℤ} (hw : 0 ≤ w ∧ w < 65536) (hu : 0 ≤ u ∧ u < 65536) :
    0 ≤ joined [w, u] ∧ joined [w, u] < 65536 ^ 2 := by
  rw [joined_pair]
  omega

theorem layout_pair {o : String} (ho : o ∈ ["ABCD", "BADC", "CDAB", "DCBA"]) :
    Layout (py o) 2 := by
  refine ⟨fun v => ?_, fun v => ?_, fun v => ?_, fun words hlen hw => ?_,
    fun words words' hlen hlen' hw hw' h => ?_⟩
  · obtain ⟨w, u, hlay, -⟩ := joined_layOut_pair ho v
    rw [show 2 * 2 = 4 from rfl, hlay, List.length_cons, List.length_singleton]
  · obtain ⟨w, u, hlay, hword, huord, -⟩ := joined_layOut_pair ho v
    rw [show 2 * 2 = 4 from rfl, hlay]
    intro x hx
    simp only [List.mem_cons, List.not_mem_nil, or_false] at hx
    rcases hx with rfl | rfl
    · exact hword
    · exact huord
  · obtain ⟨w, u, hlay, -, -, hjoined⟩ := joined_layOut_pair ho v
    rw [show 2 * 2 = 4 from rfl, hlay, hjoined]
    norm_num
  · obtain ⟨w, u, rfl⟩ := List.length_eq_two.mp hlen
    have hword := hw w (.head _)
    have huord := hw u (.tail _ (.head _))
    simp only [List.mem_cons, List.not_mem_nil, or_false] at ho
    rcases ho with rfl | rfl | rfl | rfl
    · exact joined_pair_range hword huord
    · exact joined_pair_range (swapBytes_word hword) (swapBytes_word huord)
    · exact joined_pair_range huord hword
    · exact joined_pair_range (swapBytes_word huord) (swapBytes_word hword)
  · obtain ⟨w, u, rfl⟩ := List.length_eq_two.mp hlen
    obtain ⟨w', u', rfl⟩ := List.length_eq_two.mp hlen'
    obtain ⟨rfl, rfl⟩ := joined_pair_inj ho (hw w (.head _)) (hw u (.tail _ (.head _)))
      (hw' w' (.head _)) (hw' u' (.tail _ (.head _))) h
    rfl

/-! ## Decoding -/

section Decoding

variable [FloatArith] {p : PointConfig} {m : ModbusAddress} {t o : String} {fmt : Format}
  {count : ℕ} {conv : ℤ → ℤ}

/-- A raw integer scaled by integers. -/
theorem decodeRegisters_int {s off n : ℤ} (hbool : p.dataType ≠ py "bool") (hs : p.scale = .int s)
    (ho : p.offset = .int off) {values : List Register} (h : registerNumber p values = .ok (.int n)) :
    decodeRegisters p values = .ok (.int (n * s + off)) := by
  unfold decodeRegisters
  rw [if_neg hbool, h]
  show scaled p (.int n) = _
  rw [scaled, hs, ho]
  rfl

/-- What `decode` does with the registers of an integer point. -/
theorem IntegerType.decodes (hint : IntegerType t fmt count conv) (htype : p.dataType = py t)
    (hbool : p.dataType ≠ py "bool") (hmo : p.modbus.bind (·.byteOrder) = some (py o))
    (hreads : ∀ values, ReadsRegisters p values) {s off : ℤ} (hs : p.scale = .int s)
    (hoff : p.offset = .int off) {words : List ℤ} (hcount : words.length = count)
    (hwords : ∀ w ∈ words, 0 ≤ w ∧ w < 65536) :
    decodeRegisters p (words.map .word)
      = .ok (.int (conv (joined (inOrder (py o) words)) * s + off)) := by
  have hnumbers : (words.map Register.word).map Register.number = words := by
    rw [List.map_map]
    exact List.map_id words
  refine decodeRegisters_int hbool hs hoff ?_
  have hread := hreads (words.map .word)
  rw [ReadsRegisters, hint.wire p _ htype, hnumbers, List.length_map, if_pos ⟨hwords, hcount⟩, hmo]
    at hread
  exact hread

/-- Registers of another number, or that are no words. -/
theorem IntegerType.refuses (hint : IntegerType t fmt count conv) (htype : p.dataType = py t)
    (hbool : p.dataType ≠ py "bool") {words : List ℤ}
    (hbad : words.length ≠ count ∨ ∃ w ∈ words, ¬ (0 ≤ w ∧ w ≤ 65535)) :
    registerOutcome p (words.map .word) = .ok (none, .badDecode) := by
  have hfmt : formats.lookup p.dataType = some fmt := by rw [htype, hint.format]
  have hnumbers : (words.map Register.word).map Register.number = words := by
    rw [List.map_map]
    exact List.map_id words
  have herror : ∃ e, registerNumber p (words.map .word) = .error e ∧ modbusCatches e = true := by
    by_cases hcount : words.length = count
    · refine ⟨_, registerNumber_words hfmt ?_ ?_, rfl⟩
      · rw [List.length_map, hint.size, hcount, mul_comm]
      · obtain ⟨w, hw, hout⟩ := hbad.resolve_left (not_not_intro hcount)
        rw [hnumbers]
        exact fun hall => hout ⟨(hall w hw).1, Int.lt_add_one_iff.mp (hall w hw).2⟩
    · refine ⟨_, registerNumber_count hfmt ?_, rfl⟩
      rw [List.length_map, hint.size]
      omega
  obtain ⟨e, herror, hcatch⟩ := herror
  unfold registerOutcome decodeRegisters
  rw [if_neg hbool, herror]
  show outcome modbusCatches (.error e) = _
  rw [outcome, if_pos hcatch]

end Decoding

/-- `decode` inverts the layout of an integer point. -/
structure Inverts [FloatArith] (p : PointConfig) (order : PyStr) (width : ℕ) (lo hi : ℤ) : Prop where
  value : ∀ s off v, p.scale = .int s → p.offset = .int off → lo ≤ v → v ≤ hi →
    decodeRegisters p ((layOut order width v).map .word) = .ok (.int (v * s + off))
  injective : ∀ s off, p.scale = .int s → p.offset = .int off → s ≠ 0 → ∀ words words' : List ℤ,
    words.length * 2 = width → words'.length * 2 = width →
    (∀ w ∈ words, 0 ≤ w ∧ w ≤ 65535) → (∀ w ∈ words', 0 ≤ w ∧ w ≤ 65535) →
    decodeRegisters p (words.map .word) = decodeRegisters p (words'.map .word) → words = words'
  refuses : ∀ words : List ℤ, words.length * 2 ≠ width ∨ (∃ w ∈ words, ¬ (0 ≤ w ∧ w ≤ 65535)) →
    registerOutcome p (words.map .word) = .ok (none, .badDecode)

/-- An integer type whose conversion is right on its range and tells numbers apart. -/
theorem IntegerType.inverts [FloatArith] {p : PointConfig} {t o : String} {fmt : Format} {count : ℕ}
    {conv : ℤ → ℤ} {lo hi : ℤ} (hint : IntegerType t fmt count conv) (htype : p.dataType = py t)
    (hbool : p.dataType ≠ py "bool") (hmo : p.modbus.bind (·.byteOrder) = some (py o))
    (hreads : ∀ values, ReadsRegisters p values) (hlay : Layout (py o) count)
    (hconv : ∀ v, lo ≤ v → v ≤ hi → conv (v % 65536 ^ count) = v)
    (hinj : ∀ n n', 0 ≤ n ∧ n < 65536 ^ count → 0 ≤ n' ∧ n' < 65536 ^ count → conv n = conv n' → n = n') :
    Inverts p (py o) (2 * count) lo hi := by
  have hle : ∀ words : List ℤ, (∀ w ∈ words, 0 ≤ w ∧ w ≤ 65535) → ∀ w ∈ words, 0 ≤ w ∧ w < 65536 :=
    fun words h w hw => ⟨(h w hw).1, Int.lt_add_one_iff.mpr (h w hw).2⟩
  have hdecode : ∀ {s off : ℤ}, p.scale = .int s → p.offset = .int off → ∀ {words : List ℤ},
      words.length = count → (∀ w ∈ words, 0 ≤ w ∧ w < 65536) → decodeRegisters p (words.map .word)
        = .ok (.int (conv (Drivers.joined (inOrder (py o) words)) * s + off)) :=
    fun hs hoff _ => hint.decodes htype hbool hmo hreads hs hoff
  refine ⟨fun s off v hs hoff hlo hhi => ?_, fun s off hs hoff hs0 words words' hlen hlen' hw hw' h => ?_,
    fun words hbad => hint.refuses htype hbool (hbad.imp_left fun h => by omega)⟩
  · rw [hdecode hs hoff (hlay.length v) (hlay.words v), hlay.joined, hconv v hlo hhi]
  · have hcount : words.length = count := by omega
    have hcount' : words'.length = count := by omega
    rw [hdecode hs hoff hcount (hle words hw), hdecode hs hoff hcount' (hle words' hw')] at h
    simp only [Except.ok.injEq, Value.int.injEq, add_left_inj] at h
    -- The scale cancels, and the conversion and the layout tell the registers apart.
    have hn := mul_right_cancel₀ hs0 h
    exact hlay.injective words words' hcount hcount' (hle words hw) (hle words' hw')
      (hinj _ _ (hlay.range words hcount (hle words hw)) (hlay.range words' hcount' (hle words' hw')) hn)

/-- `decode` inverts the register layout of every integer type in every byte order that
    the contract allows for it. -/
theorem decode_inverts [FloatArith] {p : PointConfig} {m : ModbusAddress} {t o : String} {width : ℕ}
    {lo hi : ℤ} {orders : List String} (ht : (t, width, (lo, hi), orders) ∈ integerTypes)
    (ho : o ∈ orders) (htype : p.dataType = py t) (hm : p.modbus = some m)
    (hmo : m.byteOrder = some (py o)) : Inverts p (py o) width lo hi := by
  have horder : p.modbus.bind (·.byteOrder) = some (py o) := by rw [hm, Option.bind_some, hmo]
  simp only [integerTypes, List.mem_cons, List.not_mem_nil, or_false, Prod.mk.injEq] at ht
  rcases ht with ⟨rfl, rfl, ⟨rfl, rfl⟩, rfl⟩ | ⟨rfl, rfl, ⟨rfl, rfl⟩, rfl⟩ | ⟨rfl, rfl, ⟨rfl, rfl⟩, rfl⟩ |
    ⟨rfl, rfl, ⟨rfl, rfl⟩, rfl⟩
  · refine integerType_int16.inverts htype (by rw [htype]; decide) horder
      (readsRegisters_word integerType_int16 htype ⟨m, hm, o, ho, hmo⟩) (layout_word ho)
      (fun v hlo hhi => ?_) fun n n' hn hn' h => ?_
    · rw [signed]
      split <;> omega
    · simp only [signed] at h
      split_ifs at h <;> omega
  · refine integerType_uint16.inverts htype (by rw [htype]; decide) horder
      (readsRegisters_word integerType_uint16 htype ⟨m, hm, o, ho, hmo⟩) (layout_word ho)
      (fun v hlo hhi => ?_) fun n n' _ _ h => h
    rw [id]
    omega
  · refine integerType_int32.inverts htype (by rw [htype]; decide) horder
      (readsRegisters_pair integerType_int32 htype ⟨m, hm, o, ho, hmo⟩) (layout_pair ho)
      (fun v hlo hhi => ?_) fun n n' hn hn' h => ?_
    · rw [signed]
      split <;> omega
    · simp only [signed] at h
      split_ifs at h <;> omega
  · refine integerType_uint32.inverts htype (by rw [htype]; decide) horder
      (readsRegisters_pair integerType_uint32 htype ⟨m, hm, o, ho, hmo⟩) (layout_pair ho)
      (fun v hlo hhi => ?_) fun n n' _ _ h => h
    rw [id]
    omega

example : layOut (py "BADC") 4 0x12345678 = [0x3412, 0x7856] := by decide

section Concrete

attribute [local instance] FloatArith.rounded

/-- The point of `scaledPoint`, as a pair of registers with the low word first. -/
def swappedPoint : PointConfig :=
  { scaledPoint with
    dataType := py "int32", scale := .int (-3), offset := .int 7
    modbus := some ⟨py "holding_register", 0, some (py "CDAB")⟩ }

theorem decode_inverts_swapped :
    Inverts swappedPoint (py "CDAB") 4 (-2147483648) 2147483647 :=
  decode_inverts (t := "int32") (o := "CDAB") (m := ⟨py "holding_register", 0, some (py "CDAB")⟩)
    (List.mem_cons_of_mem _ (List.mem_cons_of_mem _ (.head _)))
    (List.mem_cons_of_mem _ (List.mem_cons_of_mem _ (.head _))) rfl rfl rfl

end Concrete

end PlcnextIot.Drivers
