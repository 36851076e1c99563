/-
  PlcnextIot.Python.Rounding

  How the result of a float operation is rounded, as a parameter.

  A definition that computes with Python floats applies `fl` where the interpreter
  rounds, and its theorems hold for every rounding with the laws below.  Two
  instances are used: exact arithmetic, and the 53 bits of a binary64 number.
-/

import PlcnextIot.Python.Float

namespace PlcnextIot.Python

/-- A rounding: monotone, idempotent, and exact on the integers that fit a float. -/
class Rounding where
  fl : ℚ → ℚ
  fl_mono : Monotone fl
  fl_fl : ∀ x, fl (fl x) = fl x
  fl_int : ∀ n : ℤ, |n| < 2 ^ 53 → fl n = n

export Rounding (fl)

/-! ## Laws -/

section Laws

variable [Rounding]

@[simp] theorem fl_fl (x : ℚ) : fl (fl x) = fl x := Rounding.fl_fl x

theorem fl_le_fl {x y : ℚ} (h : x ≤ y) : fl x ≤ fl y := Rounding.fl_mono h

theorem fl_intCast {n : ℤ} (h : |n| < 2 ^ 53) : fl (n : ℚ) = n := Rounding.fl_int n h

@[simp] theorem fl_zero : fl 0 = 0 := by
  have h := fl_intCast (n := 0) (by norm_num)
  rwa [Int.cast_zero] at h

theorem le_fl_of_le {x y : ℚ} (hx : fl x = x) (h : x ≤ y) : x ≤ fl y := by
  have := fl_le_fl h
  rwa [hx] at this

/-- A number whose rounding is below that of another is below it. -/
theorem lt_of_fl_lt {x y : ℚ} (h : fl x < fl y) : x < y := by
  by_contra hle
  exact absurd (fl_le_fl (not_lt.mp hle)) (not_le.mpr h)

end Laws

/-! ## Exact arithmetic -/

/-- Nothing is rounded. -/
@[reducible] def Rounding.exact : Rounding where
  fl x := x
  fl_mono _ _ h := h
  fl_fl _ := rfl
  fl_int _ _ := rfl

/-! ## Binary64 -/

/-- Rounding to an integer is monotone. -/
theorem roundHalfEven_le {x y : ℚ} (h : x ≤ y) : roundHalfEven x ≤ roundHalfEven y := by
  by_contra hlt
  have hx := (abs_le.mp (roundHalfEven_near x)).2
  have hy := (abs_le.mp (roundHalfEven_near y)).1
  have hstep : (roundHalfEven y : ℚ) + 1 ≤ roundHalfEven x := by
    exact_mod_cast Int.add_one_le_iff.mpr (not_le.mp hlt)
  -- Half a unit each way is all there is, so the two numbers are the same.
  have heq : x = y := by linarith
  rw [heq] at hlt
  exact hlt le_rfl

/-- An integer below a number is below its rounding. -/
theorem int_le_roundHalfEven {n : ℤ} {x : ℚ} (h : (n : ℚ) ≤ x) : n ≤ roundHalfEven x := by
  have := roundHalfEven_le h
  rwa [roundHalfEven_int] at this

theorem roundDouble_neg (q : ℚ) : roundDouble (-q) = -roundDouble q := by
  by_cases hq : q = 0
  · rw [hq, neg_zero, roundDouble, if_pos rfl, neg_zero]
  · have hu : ulpExponent (-q) = ulpExponent q := by rw [ulpExponent, ulpExponent, abs_neg]
    rw [roundDouble, roundDouble, if_neg hq, if_neg (neg_ne_zero.mpr hq), hu, neg_div,
      roundHalfEven_neg]
    push_cast
    ring

theorem roundDouble_nonneg {q : ℚ} (hq : 0 ≤ q) : 0 ≤ roundDouble q := by
  unfold roundDouble
  split
  · exact le_rfl
  · have hunit : (0 : ℚ) < 2 ^ ulpExponent q := by positivity
    have hround : 0 ≤ roundHalfEven (q / 2 ^ ulpExponent q) :=
      int_le_roundHalfEven (by push_cast; positivity)
    have : (0 : ℚ) ≤ roundHalfEven (q / 2 ^ ulpExponent q) := by exact_mod_cast hround
    positivity

/-- A greater number has at least the unit of a smaller one. -/
theorem ulpExponent_le {a b : ℚ} (ha : 0 < a) (hab : a ≤ b) : ulpExponent a ≤ ulpExponent b := by
  have hb : 0 < b := ha.trans_le hab
  have hlow := (binaryExponent_spec ha).1
  have hup := (binaryExponent_spec hb).2
  have := lt_of_zpow_lt ((hlow.trans hab).trans_lt hup)
  rw [ulpExponent, ulpExponent, abs_of_pos ha, abs_of_pos hb]
  omega

theorem roundDouble_le_of_pos {a b : ℚ} (ha : 0 < a) (hab : a ≤ b) :
    roundDouble a ≤ roundDouble b := by
  have hb : 0 < b := ha.trans_le hab
  have hle := ulpExponent_le ha hab
  rw [roundDouble, roundDouble, if_neg ha.ne', if_neg hb.ne']
  rcases hle.eq_or_lt with heq | hlt
  · -- The same unit.
    rw [heq]
    have hunit : (0 : ℚ) < 2 ^ ulpExponent b := by positivity
    have hround : roundHalfEven (a / 2 ^ ulpExponent b) ≤ roundHalfEven (b / 2 ^ ulpExponent b) :=
      roundHalfEven_le (by gcongr)
    have : (roundHalfEven (a / 2 ^ ulpExponent b) : ℚ) ≤ roundHalfEven (b / 2 ^ ulpExponent b) := by
      exact_mod_cast hround
    gcongr
  · -- A power of two separates them.
    have hlow : -1074 ≤ ulpExponent a := le_max_right _ _
    have hub : ulpExponent b = binaryExponent b - 52 := by
      have hmax : ulpExponent b = max (binaryExponent b - 52) (-1074) := by
        rw [ulpExponent, abs_of_pos hb]
      omega
    have hma : roundHalfEven (a / 2 ^ ulpExponent a) ≤ 2 ^ 53 :=
      (abs_le.mp (roundHalfEven_abs_le (mantissa_le a))).2
    have hmb : 2 ^ 52 ≤ roundHalfEven (b / 2 ^ ulpExponent b) := by
      refine int_le_roundHalfEven ?_
      rw [le_div_iff₀ (by positivity), Int.cast_pow, Int.cast_ofNat, pow_mul_zpow, hub]
      have : ((52 : ℕ) : ℤ) + (binaryExponent b - 52) = binaryExponent b := by push_cast; ring
      rw [this]
      exact (binaryExponent_spec hb).1
    have hma' : (roundHalfEven (a / 2 ^ ulpExponent a) : ℚ) ≤ 2 ^ (53 : ℕ) := by exact_mod_cast hma
    have hmb' : (2 : ℚ) ^ (52 : ℕ) ≤ roundHalfEven (b / 2 ^ ulpExponent b) := by exact_mod_cast hmb
    calc (roundHalfEven (a / 2 ^ ulpExponent a) : ℚ) * 2 ^ ulpExponent a
        ≤ 2 ^ (53 : ℕ) * 2 ^ ulpExponent a := by gcongr
      _ = 2 ^ (((53 : ℕ) : ℤ) + ulpExponent a) := pow_mul_zpow 53 _
      _ ≤ 2 ^ (((52 : ℕ) : ℤ) + ulpExponent b) := by
          apply zpow_le_zpow_right₀ (by norm_num)
          omega
      _ = 2 ^ (52 : ℕ) * 2 ^ ulpExponent b := (pow_mul_zpow 52 _).symm
      _ ≤ roundHalfEven (b / 2 ^ ulpExponent b) * 2 ^ ulpExponent b := by gcongr

theorem roundDouble_mono : Monotone roundDouble := by
  intro a b hab
  rcases lt_trichotomy a 0 with ha | rfl | ha
  · rcases lt_or_ge b 0 with hb | hb
    · -- Two negative numbers: the reflections the other way round.
      have h := roundDouble_le_of_pos (neg_pos.mpr hb) (neg_le_neg hab)
      rw [roundDouble_neg, roundDouble_neg] at h
      exact neg_le_neg_iff.mp h
    · have h := roundDouble_nonneg (neg_nonneg.mpr ha.le)
      rw [roundDouble_neg] at h
      exact (neg_nonneg.mp h).trans (roundDouble_nonneg hb)
  · have hzero : roundDouble 0 = 0 := if_pos rfl
    rw [hzero]
    exact roundDouble_nonneg hab
  · exact roundDouble_le_of_pos ha hab

/-- The 53 bits of a float.  The exponent is not bounded above: an operation that
    overflows does not round. -/
@[reducible] def Rounding.double : Rounding where
  fl := roundDouble
  fl_mono := roundDouble_mono
  fl_fl := roundDouble_idem
  fl_int n h := by
    have := roundDouble_of_dyadic (m := n) (k := 0) h (by norm_num)
    rwa [zpow_zero, mul_one] at this

/-- Where it is finite, it is the rounding of `float()`. -/
theorem double_eq_binary64 {q r : ℚ} (h : binary64 q = some r) : Rounding.double.fl q = r := by
  rw [binary64_eq_round] at h
  split at h
  · exact Option.some.inj h
  · cases h

end PlcnextIot.Python
