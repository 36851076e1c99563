/-
  PlcnextIot.Python.Float

  The `float` of Python as a value, its conversion from an integer and the
  arithmetic of `int` and `float` operands.

  Integers are exact and unbounded.  What `*` and `+` give on two floats is a
  parameter; an integral operand of a mixed operation is converted first, and
  the conversion raises from `2^1024 - 2^970` on.
-/

import PlcnextIot.Python.Number

namespace PlcnextIot.Python

/-- A binary64 number. -/
inductive PyFloat where
  | finite (q : ℚ)
  | negZero
  | inf (negative : Bool)
  | nan
  deriving DecidableEq, Repr

/-- `math.isfinite` -/
def PyFloat.isFinite : PyFloat → Bool
  | .finite _ => true
  | .negZero => true
  | .inf _ => false
  | .nan => false

/-- `x * y` and `x + y` on floats. -/
class FloatArith where
  mul : PyFloat → PyFloat → PyFloat
  add : PyFloat → PyFloat → PyFloat

/-- `float(n)`; `none` is the `OverflowError`. -/
def toFloat (n : ℤ) : Option PyFloat := (binary64 n).map .finite

/-- `struct.unpack('>f', ...)`: the binary32 number of 32 bits. -/
def floatOfBits32 (bits : Nat) : PyFloat :=
  let negative : Bool := 2 ^ 31 ≤ bits
  let exponent : ℕ := bits / 2 ^ 23 % 2 ^ 8
  let fraction : ℕ := bits % 2 ^ 23
  let sign : ℚ := if negative then -1 else 1
  if exponent = 255 then
    if fraction = 0 then .inf negative else .nan
  else if exponent = 0 then
    if fraction = 0 then (if negative then .negZero else .finite 0)
    else .finite (sign * fraction * 2 ^ (-149 : ℤ))
  else .finite (sign * ((2 ^ 23 + fraction : ℕ) : ℚ) * 2 ^ ((exponent : ℤ) - 150))

/-! ## The conversion of an integer -/

/-- The least magnitude whose conversion raises. -/
def floatLimit : ℤ := 2 ^ 1024 - 2 ^ 970

/-- Rounding moves a number by one half at most. -/
theorem roundHalfEven_near (q : ℚ) : |(roundHalfEven q : ℚ) - q| ≤ 1 / 2 := by
  have hfl : (⌊q⌋ : ℚ) ≤ q := Int.floor_le q
  have hfr : q < ⌊q⌋ + 1 := Int.lt_floor_add_one q
  rw [abs_le]
  simp only [roundHalfEven]
  split_ifs <;> push_cast <;> constructor <;> linarith

/-- Half an odd number above an odd floor rounds up. -/
theorem roundHalfEven_tie (m : ℤ) (hm : m % 2 ≠ 0) : roundHalfEven (m + 1 / 2) = m + 1 := by
  have hfl : ⌊(m : ℚ) + 1 / 2⌋ = m := by
    rw [Int.floor_eq_iff]
    constructor <;> linarith
  have hd : (m : ℚ) + 1 / 2 - m = 1 / 2 := by ring
  simp only [roundHalfEven, hfl, hd]
  rw [if_neg (lt_irrefl _), if_neg (lt_irrefl _), if_neg hm]

/-- From the middle between `2^53 - 1` and `2^53` on, rounding gives `2^53` or more. -/
theorem le_roundHalfEven {q : ℚ} {m : ℤ} (hm : m % 2 ≠ 0) (h : (m : ℚ) + 1 / 2 ≤ q) :
    m + 1 ≤ roundHalfEven q := by
  rcases h.eq_or_lt with heq | hlt
  · rw [← heq, roundHalfEven_tie m hm]
  · have hnear := (abs_le.mp (roundHalfEven_near q)).1
    have : (m : ℚ) < roundHalfEven q := by linarith
    have : m < roundHalfEven q := by exact_mod_cast this
    omega

theorem pow_mul_zpow (k : ℕ) (e : ℤ) : (2 : ℚ) ^ k * 2 ^ e = 2 ^ ((k : ℤ) + e) := by
  rw [zpow_add₀ (by norm_num), zpow_natCast]

/-- A number of at least one in the scale of its last place. -/
theorem scaled_bounds {q : ℚ} (hq : 1 ≤ q) :
    ∃ e : ℤ, ulpExponent q = e - 52 ∧ (2 : ℚ) ^ e ≤ q ∧ q < 2 ^ (e + 1) ∧
      2 ^ (52 : ℕ) ≤ q / 2 ^ (e - 52) ∧ q / 2 ^ (e - 52) < 2 ^ (53 : ℕ) := by
  have hpos : 0 < q := by linarith
  obtain ⟨hlo, hhi⟩ := binaryExponent_spec hpos
  have he : 0 < binaryExponent q + 1 := by
    refine lt_of_zpow_lt ?_
    rw [zpow_zero]
    exact lt_of_le_of_lt hq hhi
  have hup : (0 : ℚ) < 2 ^ (binaryExponent q - 52) := zpow_pos (by norm_num) _
  refine ⟨binaryExponent q, ?_, hlo, hhi, ?_, ?_⟩
  · rw [ulpExponent, abs_of_pos hpos]
    exact max_eq_left (by omega)
  · rw [le_div_iff₀ hup, pow_mul_zpow]
    rwa [show ((52 : ℕ) : ℤ) + (binaryExponent q - 52) = binaryExponent q by push_cast; ring]
  · rw [div_lt_iff₀ hup, pow_mul_zpow]
    rwa [show ((53 : ℕ) : ℤ) + (binaryExponent q - 52) = binaryExponent q + 1 by push_cast; ring]

/-- The rounded mantissa of a number of at least one. -/
theorem mantissa_bounds {x : ℚ} (hlo : 2 ^ (52 : ℕ) ≤ x) (hhi : x < 2 ^ (53 : ℕ)) :
    2 ^ 52 ≤ roundHalfEven x ∧ roundHalfEven x ≤ 2 ^ 53 := by
  constructor
  · have hnear := (abs_le.mp (roundHalfEven_near x)).1
    have : (2 : ℚ) ^ (52 : ℕ) - 1 < roundHalfEven x := by linarith
    have : (2 : ℤ) ^ 52 - 1 < roundHalfEven x := by exact_mod_cast this
    omega
  · have hpos : 0 ≤ x := le_trans (by positivity) hlo
    have h := roundHalfEven_abs_le (q := x) (n := 2 ^ 53) (by
      rw [abs_of_nonneg hpos]
      push_cast
      exact hhi.le)
    exact (abs_le.mp h).2

/-- In the last binade, the mantissa overflows from the middle above the largest float on. -/
theorem mantissa_overflows {x : ℚ} : (2 : ℚ) ^ (53 : ℕ) ≤ roundHalfEven x ↔
    (2 : ℚ) ^ (53 : ℕ) - 1 / 2 ≤ x := by
  constructor
  · intro h
    have hnear := (abs_le.mp (roundHalfEven_near x)).2
    linarith
  · intro h
    have hround := le_roundHalfEven (q := x) (m := 2 ^ 53 - 1) (by norm_num) (by
      push_cast
      linarith)
    have : (2 : ℤ) ^ 53 ≤ roundHalfEven x := by omega
    exact_mod_cast this

/-- `binary64` overflows from half a unit above the largest float on. -/
theorem binary64_eq_none {q : ℚ} (hq : 1 ≤ q) :
    binary64 q = none ↔ (2 : ℚ) ^ (1024 : ℕ) - 2 ^ (970 : ℕ) ≤ q := by
  have hpos : 0 < q := by linarith
  obtain ⟨e, hu, hlo, hhi, h52, h53⟩ := scaled_bounds hq
  obtain ⟨hr52, hr53⟩ := mantissa_bounds h52 h53
  have hsplit := mantissa_overflows (x := q / 2 ^ (e - 52))
  rw [binary64_eq hpos.ne', hu]
  generalize roundHalfEven (q / 2 ^ (e - 52)) = r at hr52 hr53 hsplit ⊢
  have hup : (0 : ℚ) < 2 ^ (e - 52) := zpow_pos (by norm_num) _
  have hr0 : (0 : ℚ) < r := by
    have : (0 : ℤ) < r := by omega
    exact_mod_cast this
  have hcut : (2 : ℚ) ^ (970 : ℕ) * 2 ^ (54 : ℕ) = 2 ^ (1024 : ℕ) := by rw [← pow_add]
  have hcut' : (2 : ℚ) ^ (970 : ℕ) * 2 = 2 ^ (971 : ℕ) := by rw [← pow_succ]
  have hzpow : ∀ k : ℕ, (2 : ℚ) ^ k = 2 ^ (k : ℤ) := fun k => (zpow_natCast 2 k).symm
  have h970 : (0 : ℚ) < 2 ^ (970 : ℕ) := by positivity
  suffices hiff : (2 : ℚ) ^ (1024 : ℕ) ≤ r * 2 ^ (e - 52) ↔
      (2 : ℚ) ^ (1024 : ℕ) - 2 ^ (970 : ℕ) ≤ q by
    rw [← hiff, abs_of_pos (mul_pos hr0 hup)]
    split
    · rename_i h
      simp [h]
    · rename_i h
      simpa using h
  rcases lt_trichotomy e 1023 with h | h | h
  · -- Below the last binade nothing overflows.
    have hq' : q < 2 ^ (1023 : ℕ) := by
      refine lt_of_lt_of_le hhi ?_
      rw [hzpow]
      exact zpow_le_zpow_right₀ (by norm_num) (by omega)
    have hr' : (r : ℚ) * 2 ^ (e - 52) ≤ 2 ^ (1023 : ℕ) := by
      have hr53' : (r : ℚ) ≤ 2 ^ (53 : ℕ) := by exact_mod_cast hr53
      calc (r : ℚ) * 2 ^ (e - 52) ≤ 2 ^ (53 : ℕ) * 2 ^ (e - 52) := by gcongr
        _ = 2 ^ (53 + (e - 52)) := pow_mul_zpow 53 (e - 52)
        _ ≤ 2 ^ (1023 : ℕ) := by
          rw [hzpow]
          exact zpow_le_zpow_right₀ (by norm_num) (by omega)
    have hdouble : (2 : ℚ) ^ (1024 : ℕ) = 2 ^ (1023 : ℕ) + 2 ^ (1023 : ℕ) := by
      rw [show 1024 = 1023 + 1 from rfl, pow_succ, mul_two]
    have hbig : (2 : ℚ) ^ (970 : ℕ) ≤ 2 ^ (1023 : ℕ) := pow_le_pow_right₀ (by norm_num) (by norm_num)
    generalize (2 : ℚ) ^ (1024 : ℕ) = top at hdouble ⊢
    generalize (2 : ℚ) ^ (1023 : ℕ) = half at hdouble hbig hq' hr'
    generalize (2 : ℚ) ^ (970 : ℕ) = unit at hbig h970 ⊢
    constructor <;> intro <;> linarith
  · -- In the last binade the mantissa decides.
    have hlast : (2 : ℚ) ^ (e - 52) = 2 ^ (971 : ℕ) := by
      rw [hzpow, h]
      rfl
    have htop : (2 : ℚ) ^ (1024 : ℕ) = 2 ^ (53 : ℕ) * 2 ^ (971 : ℕ) := by rw [← pow_add]
    rw [hlast] at hsplit ⊢
    have h971 : (0 : ℚ) < 2 ^ (971 : ℕ) := by positivity
    rw [htop, mul_le_mul_iff_left₀ h971, hsplit, le_div_iff₀ h971, sub_mul]
    have hhalf : 1 / 2 * (2 : ℚ) ^ (971 : ℕ) = 2 ^ (970 : ℕ) := by
      rw [← hcut', mul_comm, mul_assoc, mul_one_div_cancel (by norm_num), mul_one]
    rw [hhalf]
  · -- Above it everything does.
    have hq' : (2 : ℚ) ^ (1024 : ℕ) ≤ q := by
      refine le_trans ?_ hlo
      rw [hzpow]
      exact zpow_le_zpow_right₀ (by norm_num) (by omega)
    have hr' : (2 : ℚ) ^ (1024 : ℕ) ≤ r * 2 ^ (e - 52) := by
      have hr52' : (2 : ℚ) ^ (52 : ℕ) ≤ r := by exact_mod_cast hr52
      calc (2 : ℚ) ^ (1024 : ℕ) ≤ 2 ^ (52 + (e - 52)) := by
            rw [hzpow]
            exact zpow_le_zpow_right₀ (by norm_num) (by omega)
        _ = 2 ^ (52 : ℕ) * 2 ^ (e - 52) := (pow_mul_zpow 52 (e - 52)).symm
        _ ≤ r * 2 ^ (e - 52) := by gcongr
    exact ⟨fun _ => le_trans (sub_le_self _ h970.le) hq', fun _ => hr'⟩

/-- An integer converts to a finite float exactly below the limit. -/
theorem toFloat_eq_none {n : ℤ} : toFloat n = none ↔ floatLimit ≤ |n| := by
  rw [toFloat, Option.map_eq_none_iff]
  have hlimit : ((floatLimit : ℤ) : ℚ) = 2 ^ (1024 : ℕ) - 2 ^ (970 : ℕ) := by
    rw [floatLimit, Int.cast_sub, Int.cast_pow, Int.cast_pow, Int.cast_ofNat]
  -- The sign does not matter.
  have habs : binary64 (n : ℚ) = none ↔ binary64 ((|n| : ℤ) : ℚ) = none := by
    rcases abs_choice n with h | h
    · rw [h]
    · rw [h]
      push_cast
      constructor
      · intro hn
        cases hb : binary64 (-(n : ℚ)) with
        | none => rfl
        | some r =>
            have := binary64_neg hb
            rw [neg_neg, hn] at this
            cases this
      · intro hn
        cases hb : binary64 (n : ℚ) with
        | none => rfl
        | some r =>
            have := binary64_neg hb
            rw [hn] at this
            cases this
  rw [habs]
  by_cases hz : |n| = 0
  · rw [hz]
    have hpos : 0 < floatLimit := by
      have : (2 : ℤ) ^ 970 < 2 ^ 1024 := pow_lt_pow_right₀ (by norm_num) (by norm_num)
      rw [floatLimit]
      omega
    have h0 : binary64 ((0 : ℤ) : ℚ) = some 0 := rfl
    rw [h0]
    constructor
    · intro h
      cases h
    · intro h
      exact absurd hpos h.not_gt
  · have hone : (1 : ℚ) ≤ ((|n| : ℤ) : ℚ) := by
      have : (1 : ℤ) ≤ |n| := by
        have := abs_nonneg n
        omega
      exact_mod_cast this
    rw [binary64_eq_none hone, ← hlimit]
    exact_mod_cast Iff.rfl

/-- A conversion that returns is finite. -/
theorem toFloat_finite {n : ℤ} {x : PyFloat} (h : toFloat n = some x) : x.isFinite = true := by
  obtain ⟨q, -, rfl⟩ := Option.map_eq_some_iff.mp h
  rfl

end PlcnextIot.Python
