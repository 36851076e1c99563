/-
  PlcnextIot.Python.Number

  Numbers and their decimal text: `binary64` is idempotent, and the text that
  `intText` and `floatRepr` write is read back by `parseNumber` as the number
  it was written for.

  The float half rests on two facts: a binary64 value is `m * 2^k` with
  `|m| < 2^53` and `-1074 ≤ k`, and every layout of `decimalText` denotes the
  decimal it lays out.
-/

import PlcnextIot.Python.Json
import Mathlib.Algebra.Order.Field.Power
import Mathlib.Data.Nat.Prime.Basic
import Mathlib.Tactic.Linarith
import Mathlib.Tactic.Positivity
import Mathlib.Tactic.Ring

namespace PlcnextIot.Python

/-! ## Decimal digits -/

theorem digitsFold_eq (ds : List Nat) (n : Nat) :
    ds.foldl (fun n d => 10 * n + (d - 0x30)) n = n * 10 ^ ds.length + digitsValue ds := by
  unfold digitsValue
  induction ds generalizing n with
  | nil => simp
  | cons d ds ih =>
      rw [List.foldl_cons, ih, List.foldl_cons, ih (10 * 0 + (d - 0x30)), List.length_cons]
      ring

theorem digitsValue_append (a b : List Nat) :
    digitsValue (a ++ b) = digitsValue a * 10 ^ b.length + digitsValue b := by
  have h := digitsFold_eq b (digitsValue a)
  rw [← h]
  unfold digitsValue
  rw [List.foldl_append]

theorem digitsValue_zeros (n : Nat) : digitsValue (List.replicate n '0'.toNat) = 0 := by
  induction n with
  | zero => rfl
  | succ n ih =>
      rw [List.replicate_succ', digitsValue_append, ih]
      rfl

theorem digitChar_value : ∀ d < 10, (Nat.digitChar d).toNat - 0x30 = d := by decide

theorem digitChar_isDigit : ∀ d < 10, isDigit (Nat.digitChar d).toNat = true := by decide

theorem digitChar_ne_zero : ∀ d < 10, 0 < d → (Nat.digitChar d).toNat ≠ 0x30 := by decide

theorem digitsText_of_lt {n : Nat} (h : n < 10) : digitsText n = [(Nat.digitChar n).toNat] := by
  unfold digitsText
  rw [Nat.toDigits_of_lt_base h]
  rfl

theorem digitsText_step {n : Nat} (h : 10 ≤ n) :
    digitsText n = digitsText (n / 10) ++ [(Nat.digitChar (n % 10)).toNat] := by
  unfold digitsText
  rw [Nat.toDigits_of_base_le (by omega) h]
  simp

/-- The digits of a number denote it. -/
theorem digitsValue_digitsText (n : Nat) : digitsValue (digitsText n) = n := by
  induction n using Nat.strong_induction_on with
  | _ n ih =>
      by_cases h : n < 10
      · have hv := digitChar_value n h
        rw [digitsText_of_lt h]
        simpa [digitsValue] using hv
      · have hd : digitsValue (digitsText (n / 10)) = n / 10 := ih _ (by omega)
        have hm := digitChar_value (n % 10) (by omega)
        rw [digitsText_step (by omega), digitsValue_append, hd]
        simp only [List.length_singleton, pow_one, digitsValue, List.foldl_cons, List.foldl_nil]
        omega

theorem digitsText_isDigit (n : Nat) : ∀ c ∈ digitsText n, isDigit c = true := by
  induction n using Nat.strong_induction_on with
  | _ n ih =>
      intro c hc
      by_cases h : n < 10
      · rw [digitsText_of_lt h, List.mem_singleton] at hc
        rw [hc]
        exact digitChar_isDigit n h
      · rw [digitsText_step (by omega), List.mem_append, List.mem_singleton] at hc
        rcases hc with hc | rfl
        · exact ih _ (by omega) c hc
        · exact digitChar_isDigit _ (by omega)

theorem digitsText_ne_nil (n : Nat) : digitsText n ≠ [] := by
  unfold digitsText
  simp [Nat.toDigits_ne_nil]

/-- A positive number has no leading zero. -/
theorem digitsText_head {n : Nat} (hn : 0 < n) : (digitsText n).head? ≠ some 0x30 := by
  induction n using Nat.strong_induction_on with
  | _ n ih =>
      by_cases h : n < 10
      · rw [digitsText_of_lt h]
        simpa using digitChar_ne_zero n h hn
      · have hne := digitsText_ne_nil (n / 10)
        have hih := ih (n / 10) (by omega) (by omega)
        rw [digitsText_step (by omega)]
        cases hd : digitsText (n / 10) with
        | nil => exact absurd hd hne
        | cons d ds =>
            rw [hd] at hih
            simpa using hih

theorem digitsText_length_le {n k : Nat} (hk : 0 < k) : (digitsText n).length ≤ k ↔ n < 10 ^ k := by
  unfold digitsText
  rw [List.length_map]
  exact Nat.length_toDigits_le_iff (by decide) hk

theorem digitsValue_lt (ds : List Nat) (h : ∀ c ∈ ds, isDigit c = true) :
    digitsValue ds < 10 ^ ds.length := by
  induction ds using List.reverseRecOn with
  | nil => simp [digitsValue]
  | append_singleton ds d ih =>
      have hd : isDigit d = true := h d (by simp)
      have hds := ih fun c hc => h c (List.mem_append_left _ hc)
      simp only [isDigit, Bool.and_eq_true, decide_eq_true_eq] at hd
      rw [digitsValue_append, List.length_append, List.length_singleton, pow_succ]
      simp only [digitsValue, List.foldl_cons, List.foldl_nil] at hds ⊢
      omega

/-! ## Rounding -/

theorem roundHalfEven_int (n : ℤ) : roundHalfEven n = n := by
  simp [roundHalfEven]

/-- Rounding stays within an integral bound. -/
theorem roundHalfEven_abs_le {q : ℚ} {n : ℤ} (h : |q| ≤ n) : |roundHalfEven q| ≤ n := by
  obtain ⟨hlo, hhi⟩ := abs_le.mp h
  have hfl : (⌊q⌋ : ℚ) ≤ q := Int.floor_le q
  have hfr : q < ⌊q⌋ + 1 := Int.lt_floor_add_one q
  have hlow : -n ≤ ⌊q⌋ := by
    apply Int.le_floor.mpr
    push_cast
    exact hlo
  have hhigh : ⌊q⌋ ≤ n := by
    have : (⌊q⌋ : ℚ) ≤ n := hfl.trans hhi
    exact_mod_cast this
  -- The value above the floor is only taken for a number above its floor.
  have hup : (⌊q⌋ : ℚ) < q → ⌊q⌋ + 1 ≤ n := by
    intro hlt
    have : (⌊q⌋ : ℚ) < n := hlt.trans_le hhi
    have : ⌊q⌋ < n := by exact_mod_cast this
    omega
  rw [abs_le]
  simp only [roundHalfEven]
  split
  · exact ⟨hlow, hhigh⟩
  · rename_i h1
    have hlt : (⌊q⌋ : ℚ) < q := by linarith [not_lt.mp h1]
    have := hup hlt
    split
    · exact ⟨by omega, this⟩
    · split
      · exact ⟨hlow, hhigh⟩
      · exact ⟨by omega, this⟩

/-- The binary exponent brackets its number. -/
theorem binaryExponent_spec {q : ℚ} (hq : 0 < q) :
    (2 : ℚ) ^ binaryExponent q ≤ q ∧ q < 2 ^ (binaryExponent q + 1) := by
  have hnum : 0 < q.num := Rat.num_pos.mpr hq
  have hN : q.num.natAbs ≠ 0 := by omega
  have hD : q.den ≠ 0 := q.den_ne_zero
  have hval : q * q.den = q.num.natAbs := by
    have : ((q.num.natAbs : ℤ) : ℚ) = q.num := by
      rw [Int.natAbs_of_nonneg hnum.le]
    rw [Rat.mul_den_eq_num, ← this, Int.cast_natCast]
  have hN1 : (2 : ℚ) ^ (q.num.natAbs.log2 : ℤ) ≤ q.num.natAbs := by
    rw [zpow_natCast]
    exact_mod_cast Nat.log2_self_le hN
  have hN2 : (q.num.natAbs : ℚ) < 2 ^ ((q.num.natAbs.log2 : ℤ) + 1) := by
    have : (q.num.natAbs : ℚ) < 2 ^ (q.num.natAbs.log2 + 1) := by exact_mod_cast Nat.lt_log2_self
    exact_mod_cast this
  have hD1 : (2 : ℚ) ^ (q.den.log2 : ℤ) ≤ q.den := by
    rw [zpow_natCast]
    exact_mod_cast Nat.log2_self_le hD
  have hD2 : (q.den : ℚ) < 2 ^ ((q.den.log2 : ℤ) + 1) := by
    have : (q.den : ℚ) < 2 ^ (q.den.log2 + 1) := by exact_mod_cast Nat.lt_log2_self
    exact_mod_cast this
  have hDpos : (0 : ℚ) < q.den := by exact_mod_cast q.den_pos
  -- The quotient of the two powers is off by one power at most.
  have hlo : (2 : ℚ) ^ ((q.num.natAbs.log2 : ℤ) - q.den.log2 - 1) < q := by
    refine lt_of_mul_lt_mul_right ?_ hDpos.le
    rw [hval]
    calc (2 : ℚ) ^ ((q.num.natAbs.log2 : ℤ) - q.den.log2 - 1) * q.den
        < 2 ^ ((q.num.natAbs.log2 : ℤ) - q.den.log2 - 1) * 2 ^ ((q.den.log2 : ℤ) + 1) := by
          gcongr
      _ = 2 ^ (q.num.natAbs.log2 : ℤ) := by
          rw [← zpow_add₀ (by norm_num)]
          congr 1
          ring
      _ ≤ q.num.natAbs := hN1
  have hhi : q < (2 : ℚ) ^ ((q.num.natAbs.log2 : ℤ) - q.den.log2 + 1) := by
    refine lt_of_mul_lt_mul_right ?_ hDpos.le
    rw [hval]
    calc (q.num.natAbs : ℚ)
        < 2 ^ ((q.num.natAbs.log2 : ℤ) + 1) := hN2
      _ = 2 ^ ((q.num.natAbs.log2 : ℤ) - q.den.log2 + 1) * 2 ^ (q.den.log2 : ℤ) := by
          rw [← zpow_add₀ (by norm_num)]
          congr 1
          ring
      _ ≤ 2 ^ ((q.num.natAbs.log2 : ℤ) - q.den.log2 + 1) * q.den := by gcongr
  simp only [binaryExponent]
  split
  · rename_i h
    rw [sub_add_cancel]
    exact ⟨hlo.le, h⟩
  · rename_i h
    exact ⟨not_lt.mp h, hhi⟩

/-- The unit in the last place that `binary64` rounds `q` to. -/
def ulpExponent (q : ℚ) : ℤ := max (binaryExponent |q| - 52) (-1074)

/-- Round to 53 bits, ties to even, with no greatest exponent. -/
def roundDouble (q : ℚ) : ℚ :=
  if q = 0 then 0 else roundHalfEven (q / 2 ^ ulpExponent q) * 2 ^ ulpExponent q

/-- `binary64` rounds, and then looks for an overflow. -/
theorem binary64_eq_round (q : ℚ) :
    binary64 q = if |roundDouble q| < 2 ^ 1024 then some (roundDouble q) else none := by
  by_cases hq : q = 0
  · subst hq
    have hsmall : |(0 : ℚ)| < 2 ^ 1024 := by
      rw [abs_zero]
      positivity
    rw [binary64, roundDouble, if_pos rfl, if_pos rfl, if_pos hsmall]
  · rw [binary64, roundDouble, if_neg hq, if_neg hq]
    rfl

theorem binary64_eq {q : ℚ} (hq : q ≠ 0) :
    binary64 q =
      if |(roundHalfEven (q / 2 ^ ulpExponent q) : ℚ) * 2 ^ ulpExponent q| < 2 ^ 1024 then
        some ((roundHalfEven (q / 2 ^ ulpExponent q) : ℚ) * 2 ^ ulpExponent q)
      else none := by
  rw [binary64, if_neg hq]
  rfl

theorem lt_of_zpow_lt {a b : ℤ} (h : (2 : ℚ) ^ a < 2 ^ b) : a < b :=
  (zpow_lt_zpow_iff_right₀ (by norm_num)).mp h

/-- A multiple of a power of two that fits 53 bits is its own rounding. -/
theorem roundDouble_of_dyadic {m k : ℤ} (hm : |m| < 2 ^ 53) (hk : -1074 ≤ k) :
    roundDouble ((m : ℚ) * 2 ^ k) = (m : ℚ) * 2 ^ k := by
  by_cases hz : (m : ℚ) * 2 ^ k = 0
  · rw [hz]
    rfl
  have hpos : 0 < |(m : ℚ) * 2 ^ k| := abs_pos.mpr hz
  have hle : ulpExponent ((m : ℚ) * 2 ^ k) ≤ k := by
    have hlow := (binaryExponent_spec hpos).1
    have hm' : (|m| : ℚ) < 2 ^ (53 : ℤ) := by exact_mod_cast hm
    have hup : |(m : ℚ) * 2 ^ k| < 2 ^ (53 + k) := by
      rw [abs_mul, abs_of_pos (by positivity : (0 : ℚ) < 2 ^ k), zpow_add₀ (by norm_num)]
      gcongr
    have := lt_of_zpow_lt (hlow.trans_lt hup)
    exact max_le (by omega) hk
  -- The number is an integral multiple of its unit.
  have hint : (m : ℚ) * 2 ^ k / 2 ^ ulpExponent ((m : ℚ) * 2 ^ k)
      = ((m * 2 ^ (k - ulpExponent ((m : ℚ) * 2 ^ k)).toNat : ℤ) : ℚ) := by
    push_cast
    rw [← zpow_natCast, Int.toNat_of_nonneg (by omega), zpow_sub₀ (by norm_num)]
    ring
  have hback : (m : ℚ) * 2 ^ k / 2 ^ ulpExponent ((m : ℚ) * 2 ^ k) * 2 ^ ulpExponent ((m : ℚ) * 2 ^ k)
      = (m : ℚ) * 2 ^ k := div_mul_cancel₀ _ (by positivity)
  rw [roundDouble, if_neg hz, hint, roundHalfEven_int, ← hint, hback]

/-- A finite multiple of a power of two that fits 53 bits is its own rounding. -/
theorem binary64_of_dyadic {m k : ℤ} (hm : |m| < 2 ^ 53) (hk : -1074 ≤ k)
    (hfin : |(m : ℚ) * 2 ^ k| < 2 ^ 1024) : binary64 ((m : ℚ) * 2 ^ k) = some ((m : ℚ) * 2 ^ k) := by
  rw [binary64_eq_round, roundDouble_of_dyadic hm hk, if_pos hfin]

/-- In its own unit a number is at most `2^53`. -/
theorem mantissa_le (q : ℚ) : |q / 2 ^ ulpExponent q| ≤ ((2 ^ 53 : ℤ) : ℚ) := by
  by_cases hq : q = 0
  · rw [hq, zero_div, abs_zero]
    positivity
  have hup := (binaryExponent_spec (abs_pos.mpr hq)).2
  have hle : binaryExponent |q| + 1 ≤ 53 + ulpExponent q := by
    have : binaryExponent |q| - 52 ≤ ulpExponent q := le_max_left _ _
    omega
  rw [abs_div, abs_of_pos (by positivity : (0 : ℚ) < 2 ^ ulpExponent q),
    div_le_iff₀ (by positivity)]
  calc |q| ≤ 2 ^ (binaryExponent |q| + 1) := hup.le
    _ ≤ 2 ^ (53 + ulpExponent q) := zpow_le_zpow_right₀ (by norm_num) hle
    _ = ((2 ^ 53 : ℤ) : ℚ) * 2 ^ ulpExponent q := by
        rw [zpow_add₀ (by norm_num)]
        norm_num

/-- A rounded number is dyadic, of 53 bits. -/
theorem roundDouble_spec (q : ℚ) :
    ∃ m k : ℤ, |m| < 2 ^ 53 ∧ -1074 ≤ k ∧ roundDouble q = (m : ℚ) * 2 ^ k := by
  by_cases hq : q = 0
  · subst hq
    exact ⟨0, 0, by norm_num, by norm_num, by norm_num [roundDouble]⟩
  rw [roundDouble, if_neg hq]
  have hu : -1074 ≤ ulpExponent q := le_max_right _ _
  have hround := roundHalfEven_abs_le (mantissa_le q)
  -- A mantissa that rounds up to 2^53 is half as large at the next exponent.
  rcases lt_or_eq_of_le hround with hlt | heq
  · exact ⟨_, _, hlt, hu, rfl⟩
  · obtain ⟨n, hn, hnlt⟩ : ∃ n : ℤ, roundHalfEven (q / 2 ^ ulpExponent q) = n * 2 ∧ |n| < 2 ^ 53 := by
      rcases abs_choice (roundHalfEven (q / 2 ^ ulpExponent q)) with hs | hs
      · exact ⟨2 ^ 52, by omega, by norm_num⟩
      · exact ⟨-2 ^ 52, by omega, by norm_num⟩
    refine ⟨n, ulpExponent q + 1, hnlt, by omega, ?_⟩
    rw [hn, zpow_add₀ (by norm_num)]
    push_cast
    ring

/-- Rounding again changes nothing. -/
theorem roundDouble_idem (q : ℚ) : roundDouble (roundDouble q) = roundDouble q := by
  obtain ⟨m, k, hm, hk, h⟩ := roundDouble_spec q
  rw [h, roundDouble_of_dyadic hm hk]

/-- What `float()` returns is a finite dyadic number of 53 bits. -/
theorem binary64_spec {q r : ℚ} (h : binary64 q = some r) :
    ∃ m k : ℤ, |m| < 2 ^ 53 ∧ -1074 ≤ k ∧ r = (m : ℚ) * 2 ^ k ∧ |r| < 2 ^ 1024 := by
  rw [binary64_eq_round] at h
  split at h
  · rename_i hfin
    cases h
    obtain ⟨m, k, hm, hk, heq⟩ := roundDouble_spec q
    exact ⟨m, k, hm, hk, heq, hfin⟩
  · cases h

/-- Rounding again changes nothing. -/
theorem binary64_idem {q r : ℚ} (h : binary64 q = some r) : binary64 r = some r := by
  obtain ⟨m, k, hm, hk, rfl, hfin⟩ := binary64_spec h
  exact binary64_of_dyadic hm hk hfin

/-! ## The parts of a numeral -/

/-- The fraction of a numeral as text. -/
def fractionText : Option PyStr → PyStr
  | none => []
  | some ds => '.'.toNat :: ds

/-- The exponent of a numeral as text. -/
def exponentText : Option (Bool × PyStr) → PyStr
  | none => []
  | some (negative, ds) => 'e'.toNat :: (if negative then '-'.toNat else '+'.toNat) :: ds

/-- The number an exponent denotes. -/
def exponentValue : Option (Bool × PyStr) → ℤ
  | none => 0
  | some (negative, ds) => if negative then -(digitsValue ds : ℤ) else digitsValue ds

/-- The text of a numeral. -/
def numeral (negative : Bool) (whole : PyStr) (fraction : Option PyStr)
    (exponent : Option (Bool × PyStr)) : PyStr :=
  (if negative then [ '-'.toNat] else []) ++ (whole ++ (fractionText fraction ++ exponentText exponent))

/-- A non-empty run of digits. -/
def IsDigits (ds : PyStr) : Prop := ds ≠ [] ∧ ∀ c ∈ ds, isDigit c = true

/-- No digit comes first. -/
def NoDigitFirst (s : PyStr) : Prop := ∀ c, s.head? = some c → isDigit c = false

theorem isDigits_digitsText (n : Nat) : IsDigits (digitsText n) :=
  ⟨digitsText_ne_nil n, digitsText_isDigit n⟩

theorem IsDigits.head {ds : PyStr} (h : IsDigits ds) : ∃ c cs, ds = c :: cs ∧ isDigit c = true := by
  cases ds with
  | nil => exact absurd rfl h.1
  | cons c cs => exact ⟨c, cs, rfl, h.2 c List.mem_cons_self⟩

theorem takeWhile_digits {ds rest : PyStr} (h : ∀ c ∈ ds, isDigit c = true)
    (hr : NoDigitFirst rest) :
    (ds ++ rest).takeWhile isDigit = ds ∧ (ds ++ rest).dropWhile isDigit = rest := by
  rw [List.takeWhile_append_of_pos h, List.dropWhile_append_of_pos h]
  cases rest with
  | nil => simp
  | cons c cs =>
      have hc : isDigit c = false := hr c rfl
      simp [hc]

theorem noDigitFirst_exponent (e : Option (Bool × PyStr)) : NoDigitFirst (exponentText e) := by
  intro c hc
  cases e with
  | none => cases hc
  | some e =>
      cases hc
      rfl

theorem noDigitFirst_tail (f : Option PyStr) (e : Option (Bool × PyStr)) :
    NoDigitFirst (fractionText f ++ exponentText e) := by
  cases f with
  | none => exact noDigitFirst_exponent e
  | some ds =>
      intro c hc
      cases hc
      rfl

theorem splitExponent_text {e : Option (Bool × PyStr)} (he : ∀ x ∈ e, IsDigits x.2) :
    splitExponent (exponentText e) = some (e.map fun x => exponentValue (some x)) := by
  cases e with
  | none => rfl
  | some x =>
      obtain ⟨negative, ds⟩ := x
      have hds : IsDigits ds := he _ rfl
      have hall : ds.all isDigit = true := List.all_eq_true.mpr hds.2
      cases negative <;> simp [exponentText, splitExponent, exponentValue, hds.1, hall]

theorem splitFraction_text {f : Option PyStr} (hf : ∀ ds ∈ f, IsDigits ds)
    (e : Option (Bool × PyStr)) :
    splitFraction (fractionText f ++ exponentText e) = some (f, exponentText e) := by
  cases f with
  | none =>
      cases e with
      | none => rfl
      | some x => simp [fractionText, exponentText, splitFraction]
  | some ds =>
      have hds : IsDigits ds := hf _ rfl
      obtain ⟨ht, hd⟩ := takeWhile_digits hds.2 (noDigitFirst_exponent e)
      simp [fractionText, splitFraction, ht, hd, hds.1]

/-- The value of a numeral from its parts. -/
def numberOf (negative : Bool) (whole : PyStr) :
    Option PyStr → Option (Bool × PyStr) → Option Json
  | none, none =>
    if whole.length ≤ maxIntDigits then
      some (.int ((if negative then -1 else 1) * digitsValue whole))
    else none
  | f, e =>
    (binary64 ((if negative then -1 else 1) * digitsValue (whole ++ f.getD [])
      * 10 ^ (exponentValue e - (f.getD []).length))).map (floatOf negative)

/-- A numeral with no superfluous leading zero is read part by part. -/
theorem parseNumber_numeral {negative : Bool} {whole : PyStr} {f : Option PyStr}
    {e : Option (Bool × PyStr)} (hw : IsDigits whole)
    (hz : whole.head? ≠ some '0'.toNat ∨ whole = [ '0'.toNat]) (hf : ∀ ds ∈ f, IsDigits ds)
    (he : ∀ x ∈ e, IsDigits x.2) :
    parseNumber (numeral negative whole f e) = numberOf negative whole f e := by
  obtain ⟨ht, hd⟩ := takeWhile_digits hw.2 (noDigitFirst_tail f e)
  have hneg : ((numeral negative whole f e).head? = some '-'.toNat) = (negative = true) := by
    obtain ⟨c, cs, hcs, hc⟩ := hw.head
    have hne : c ≠ 0x2D := by
      rintro rfl
      cases hc
    cases negative <;> simp [numeral, hcs, hne]
  have hbody : (if negative = true then (numeral negative whole f e).tail
      else numeral negative whole f e) = whole ++ (fractionText f ++ exponentText e) := by
    cases negative <;> simp [numeral]
  have hlead : ¬ (whole = [] ∨ (whole.head? = some '0'.toNat ∧ whole ≠ [ '0'.toNat])) := by
    rintro (h | ⟨h1, h2⟩)
    · exact hw.1 h
    · exact hz.elim (fun h => h h1) h2
  simp only [parseNumber, hneg, hbody, ht, hd, if_neg hlead, splitFraction_text hf,
    splitExponent_text he]
  cases f <;> cases e <;> cases negative <;> simp [numberOf, exponentValue]

theorem numeral_first {negative : Bool} {whole : PyStr} {f : Option PyStr}
    {e : Option (Bool × PyStr)} (hw : IsDigits whole) :
    ∃ c cs, numeral negative whole f e = c :: cs ∧ (c = '-'.toNat ∨ isDigit c = true) := by
  obtain ⟨c, cs, rfl, hc⟩ := hw.head
  cases negative
  · exact ⟨c, _, rfl, Or.inr hc⟩
  · exact ⟨'-'.toNat, _, rfl, Or.inl rfl⟩

/-- A numeral is no literal. -/
theorem parseScalar_numeral {negative : Bool} {whole : PyStr} {f : Option PyStr}
    {e : Option (Bool × PyStr)} (hw : IsDigits whole) :
    parseScalar (numeral negative whole f e) = parseNumber (numeral negative whole f e) := by
  obtain ⟨c, cs, h, hc⟩ := numeral_first (f := f) (e := e) hw
  have hlit : ∀ d ds, (d = 0x74 ∨ d = 0x66 ∨ d = 0x6E) → c :: cs ≠ d :: ds := by
    rintro d ds hd heq
    obtain ⟨rfl, -⟩ := List.cons.inj heq
    rcases hd with rfl | rfl | rfl <;> revert hc <;> decide
  have htrue : c :: cs ≠ py "true" := hlit 0x74 (py "rue") (Or.inl rfl)
  have hfalse : c :: cs ≠ py "false" := hlit 0x66 (py "alse") (Or.inr (Or.inl rfl))
  have hnull : c :: cs ≠ py "null" := hlit 0x6E (py "ull") (Or.inr (Or.inr rfl))
  rw [h, parseScalar, if_neg htrue, if_neg hfalse, if_neg hnull]

/-! ## Integers -/

theorem digitsText_lead (n : Nat) :
    (digitsText n).head? ≠ some '0'.toNat ∨ digitsText n = [ '0'.toNat] := by
  rcases Nat.eq_zero_or_pos n with rfl | hn
  · exact Or.inr rfl
  · exact Or.inl (digitsText_head hn)

theorem intText_numeral (n : ℤ) :
    intText n = numeral (decide (n < 0)) (digitsText n.natAbs) none none := by
  unfold intText numeral fractionText exponentText digitsText
  by_cases hn : n < 0 <;> simp [hn, py]

/-- The text of an integer within the digit limit reads back. -/
theorem parseScalar_intText {n : ℤ} (hn : (digitsText n.natAbs).length ≤ maxIntDigits) :
    parseScalar (intText n) = some (.int n) := by
  have hw := isDigits_digitsText n.natAbs
  rw [intText_numeral, parseScalar_numeral hw,
    parseNumber_numeral hw (digitsText_lead _) (by simp) (by simp)]
  simp only [numberOf, if_pos hn, digitsValue_digitsText, Option.some.injEq, Json.int.injEq]
  by_cases h : n < 0
  · simp only [h, decide_true, if_true]
    omega
  · simp only [h, decide_false, Bool.false_eq_true, if_false]
    omega

/-! ## Floats -/

theorem roundHalfEven_neg (q : ℚ) : roundHalfEven (-q) = -roundHalfEven q := by
  have hfl : (⌊q⌋ : ℚ) ≤ q := Int.floor_le q
  have hfr : q < ⌊q⌋ + 1 := Int.lt_floor_add_one q
  rcases hfl.eq_or_lt with heq | hlt
  · rw [← heq, roundHalfEven_int, ← Int.cast_neg, roundHalfEven_int]
  -- Away from the integers, the floors of `q` and `-q` add up to -1.
  have hneg : ⌊-q⌋ = -⌊q⌋ - 1 := by
    rw [Int.floor_eq_iff]
    push_cast
    constructor <;> linarith
  simp only [roundHalfEven, hneg]
  push_cast
  rcases lt_trichotomy (q - ⌊q⌋) (1 / 2) with h | h | h
  · rw [if_neg (by linarith), if_pos (by linarith), if_pos h]
    ring
  · have h1 : ¬ (-q - (-(⌊q⌋ : ℚ) - 1) < 1 / 2) := by linarith
    have h2 : ¬ (1 / 2 < -q - (-(⌊q⌋ : ℚ) - 1)) := by linarith
    have h3 : ¬ (q - (⌊q⌋ : ℚ) < 1 / 2) := by linarith
    have h4 : ¬ (1 / 2 < q - (⌊q⌋ : ℚ)) := by linarith
    rw [if_neg h1, if_neg h2, if_neg h3, if_neg h4]
    split_ifs <;> omega
  · rw [if_pos (by linarith), if_neg (by linarith), if_pos h]
    ring

theorem binary64_neg {q r : ℚ} (h : binary64 q = some r) : binary64 (-q) = some (-r) := by
  by_cases hq : q = 0
  · subst hq
    cases h
    rfl
  have hu : ulpExponent (-q) = ulpExponent q := by rw [ulpExponent, ulpExponent, abs_neg]
  rw [binary64_eq hq] at h
  rw [binary64_eq (neg_ne_zero.mpr hq), hu, neg_div, roundHalfEven_neg]
  push_cast
  rw [neg_mul, abs_neg]
  split at h
  · rename_i hfin
    cases h
    rw [if_pos hfin]
  · cases h

theorem trimZeros_value (fuel : Nat) (d : Nat × ℤ) :
    decimalValue (trimZeros fuel d) = decimalValue d := by
  induction fuel generalizing d with
  | zero => rfl
  | succ fuel ih =>
      rw [trimZeros]
      split
      · rename_i h
        rw [ih]
        have hd : (d.1 : ℚ) = (d.1 / 10 : Nat) * 10 := by
          have : d.1 = d.1 / 10 * 10 := by omega
          exact_mod_cast this
        unfold decimalValue
        rw [hd, zpow_add₀ (by norm_num)]
        ring
      · rfl

/-- A dyadic number has a power of two below it. -/
theorem den_of_dyadic {m k : ℤ} : ∃ j : Nat, ((m : ℚ) * 2 ^ k).den = 2 ^ j := by
  rcases le_or_gt 0 k with hk | hk
  · have : (m : ℚ) * 2 ^ k = ((m * 2 ^ k.toNat : ℤ) : ℚ) := by
      push_cast
      rw [← zpow_natCast, Int.toNat_of_nonneg hk]
    exact ⟨0, by rw [this]; rfl⟩
  · have : (m : ℚ) * 2 ^ k = Rat.divInt m (2 ^ (-k).toNat : ℤ) := by
      rw [Rat.divInt_eq_div]
      push_cast
      rw [← zpow_natCast, Int.toNat_of_nonneg (by omega), zpow_neg, div_inv_eq_mul]
    have hdvd := Rat.den_dvd m (2 ^ (-k).toNat)
    rw [← this] at hdvd
    obtain ⟨j, -, hj⟩ := (Nat.dvd_prime_pow Nat.prime_two).mp (by exact_mod_cast hdvd)
    exact ⟨j, hj⟩

theorem exactDecimal_value {q : ℚ} (hq : 0 < q) (h : binary64 q = some q) :
    decimalValue (exactDecimal q) = q := by
  obtain ⟨m, k, -, -, hmk, -⟩ := binary64_spec h
  obtain ⟨j, hj⟩ : ∃ j : Nat, q.den = 2 ^ j := by
    rw [hmk]
    exact den_of_dyadic
  have hnum : ((q.num.natAbs : ℤ) : ℚ) = q.num := by
    rw [Int.natAbs_of_nonneg (Rat.num_pos.mpr hq).le]
  have hten : (10 : ℚ) ^ j = 2 ^ j * 5 ^ j := by rw [← mul_pow]; norm_num
  unfold decimalValue exactDecimal
  rw [hj, Nat.log2_two_pow, zpow_neg, zpow_natCast, hten]
  push_cast
  rw [← Int.cast_natCast (R := ℚ) q.num.natAbs, hnum]
  conv_rhs => rw [← Rat.num_div_den q, hj]
  push_cast
  field_simp

/-- The shortest decimal of a float denotes a number that rounds to it. -/
theorem shortestDecimal_spec {q : ℚ} (hq : 0 < q) (h : binary64 q = some q) :
    binary64 (decimalValue (shortestDecimal q)) = some q := by
  unfold shortestDecimal
  rw [trimZeros_value]
  cases hf : ((List.range 17).map fun n => nearestDecimal q (decimalMagnitude q) (n + 1)).find?
      fun d => decide (binary64 (decimalValue d) = some q) with
  | some d =>
      have hd := List.find?_some hf
      simpa using hd
  | none =>
      rw [Option.getD_none, exactDecimal_value hq h]
      exact h

theorem shortestDecimal_pos {q : ℚ} (hq : 0 < q) (h : binary64 q = some q) :
    0 < (shortestDecimal q).1 := by
  by_contra hz
  have hs := shortestDecimal_spec hq h
  have hzero : (shortestDecimal q).1 = 0 := by omega
  rw [decimalValue, hzero, Nat.cast_zero, zero_mul] at hs
  cases hs
  exact lt_irrefl 0 hq

/-- A decimal as the parts of a numeral with a fraction or an exponent. -/
structure LaidOut (d : Nat × ℤ) (whole : PyStr) (f : Option PyStr)
    (e : Option (Bool × PyStr)) : Prop where
  whole_digits : IsDigits whole
  whole_lead : whole.head? ≠ some '0'.toNat ∨ whole = [ '0'.toNat]
  fraction_digits : ∀ ds ∈ f, IsDigits ds
  exponent_digits : ∀ x ∈ e, IsDigits x.2
  not_int : f ≠ none ∨ e ≠ none
  value : (digitsValue (whole ++ f.getD []) : ℚ) * 10 ^ (exponentValue e - (f.getD []).length)
    = decimalValue d

/-- Such a numeral reads as the float nearest to its decimal. -/
theorem LaidOut.parse {d : Nat × ℤ} {whole : PyStr} {f : Option PyStr}
    {e : Option (Bool × PyStr)} (l : LaidOut d whole f e) {negative : Bool} {q : ℚ}
    (h : binary64 ((if negative then -1 else 1) * decimalValue d) = some q) :
    parseScalar (numeral negative whole f e) = some (floatOf negative q) := by
  rw [parseScalar_numeral l.whole_digits,
    parseNumber_numeral l.whole_digits l.whole_lead l.fraction_digits l.exponent_digits]
  have hn := l.not_int
  rw [← l.value, ← mul_assoc] at h
  cases f with
  | some ds => simp only [numberOf, h, Option.map_some]
  | none =>
      cases e with
      | some x => simp only [numberOf, h, Option.map_some]
      | none => simp at hn

theorem isDigits_zeros_append {ds : PyStr} (n : Nat) (h : IsDigits ds) :
    IsDigits (List.replicate n '0'.toNat ++ ds) := by
  refine ⟨by simp [h.1], fun c hc => ?_⟩
  rcases List.mem_append.mp hc with hc | hc
  · rw [List.eq_of_mem_replicate hc]
    rfl
  · exact h.2 c hc

/-- The digits of a power, two at least. -/
def powerText (e : ℤ) : PyStr :=
  let power := digitsText e.natAbs
  if power.length < 2 then py "0" ++ power else power

theorem powerText_spec (e : ℤ) :
    IsDigits (powerText e) ∧ exponentValue (some (decide (e < 0), powerText e)) = e := by
  have hp := isDigits_digitsText e.natAbs
  have hdigits : IsDigits (powerText e) := by
    unfold powerText
    simp only
    split
    · exact isDigits_zeros_append 1 hp
    · exact hp
  have hvalue : digitsValue (powerText e) = e.natAbs := by
    unfold powerText
    simp only
    split
    · have h0 : digitsValue (py "0") = 0 := rfl
      rw [digitsValue_append, h0, digitsValue_digitsText]
      omega
    · exact digitsValue_digitsText _
  refine ⟨hdigits, ?_⟩
  simp only [exponentValue, hvalue, decide_eq_true_eq]
  split <;> omega

/-- Every layout of `decimalText` denotes the decimal. -/
theorem decimalText_laidOut {d : Nat × ℤ} (hd : 0 < d.1) :
    ∃ whole f e, decimalText d = numeral false whole f e ∧ LaidOut d whole f e := by
  obtain ⟨n, p⟩ := d
  have hw := isDigits_digitsText n
  have hlead : (digitsText n).head? ≠ some '0'.toNat := digitsText_head hd
  have hv := digitsValue_digitsText n
  obtain ⟨len, hlen⟩ : ∃ len, (digitsText n).length = len := ⟨_, rfl⟩
  have hpos : 0 < len := by
    rw [← hlen]
    exact List.length_pos_of_ne_nil hw.1
  simp only [decimalText, hlen]
  split
  · rename_i hrange
    split
    · -- Below one: zeros after the point.
      rename_i hneg
      have hz := isDigits_zeros_append (-(p + (len - 1)) - 1).toNat hw
      refine ⟨[ '0'.toNat],
        some (List.replicate (-(p + (len - 1)) - 1).toNat '0'.toNat ++ digitsText n), none,
        by simp [numeral, fractionText, exponentText, py], ⟨by simp, by simp; rfl⟩, Or.inr rfl,
        by rintro _ ⟨⟩; exact hz, by simp, by simp, ?_⟩
      have h0 : digitsValue [ '0'.toNat] = 0 := rfl
      have he : (0 : ℤ) - ((-(p + (len - 1)) - 1).toNat + len : Nat) = p := by omega
      simp only [Option.getD_some, digitsValue_append, h0, digitsValue_zeros, hv, exponentValue,
        List.length_append, List.length_replicate, hlen, he]
      simp [decimalValue]
    · split
      · -- An integral value: zeros up to the point and one after it.
        rename_i hneg hfit
        refine ⟨digitsText n ++ List.replicate ((p + (len - 1) + 1).toNat - len) '0'.toNat,
          some [ '0'.toNat], none, by simp [numeral, fractionText, exponentText, py], ?_, ?_,
          by rintro _ ⟨⟩; exact ⟨by simp, by simp; rfl⟩, by simp, by simp, ?_⟩
        · refine ⟨by simp [hw.1], fun c hc => ?_⟩
          rcases List.mem_append.mp hc with hc | hc
          · exact hw.2 c hc
          · rw [List.eq_of_mem_replicate hc]
            rfl
        · obtain ⟨c, cs, hcs, -⟩ := hw.head
          rw [hcs] at hlead ⊢
          exact Or.inl hlead
        · have h0 : digitsValue [ '0'.toNat] = 0 := rfl
          have he : p = ((p + (len - 1) + 1).toNat - len : Nat) := by omega
          simp only [Option.getD_some, digitsValue_append, h0, digitsValue_zeros, hv,
            exponentValue, List.length_replicate, List.length_singleton, decimalValue]
          conv_rhs => rw [he, zpow_natCast]
          push_cast
          norm_num
          ring
      · -- The point falls among the digits.
        rename_i hneg hfit
        obtain ⟨c, cs, hcs, hc⟩ := hw.head
        refine ⟨(digitsText n).take (p + (len - 1) + 1).toNat,
          some ((digitsText n).drop (p + (len - 1) + 1).toNat), none,
          by simp [numeral, fractionText, exponentText, py], ⟨?_, ?_⟩, ?_, ?_, by simp, by simp, ?_⟩
        · rw [Ne, List.take_eq_nil_iff]
          rintro (h | h)
          · omega
          · exact hw.1 h
        · exact fun c hc => hw.2 c (List.mem_of_mem_take hc)
        · left
          rw [List.head?_take, if_neg (by omega)]
          exact hlead
        · rintro _ ⟨⟩
          refine ⟨?_, fun c hc => hw.2 c (List.mem_of_mem_drop hc)⟩
          rw [Ne, List.drop_eq_nil_iff, hlen]
          exact hfit
        · have he : (0 : ℤ) - (len - (p + (len - 1) + 1).toNat : Nat) = p := by omega
          simp only [Option.getD_some, List.take_append_drop, hv, exponentValue, List.length_drop,
            hlen, he, decimalValue]
  · -- Scientific notation.
    obtain ⟨hp, hpv⟩ := powerText_spec (p + (len - 1))
    have htext : ∀ mantissa : PyStr, mantissa ++ py "e"
        ++ (if p + (len - 1 : ℤ) < 0 then py "-" else py "+")
        ++ (if (digitsText (p + (len - 1 : ℤ)).natAbs).length < 2
          then py "0" ++ digitsText (p + (len - 1 : ℤ)).natAbs
          else digitsText (p + (len - 1 : ℤ)).natAbs)
        = mantissa ++ exponentText (some (decide (p + (len - 1 : ℤ) < 0),
            powerText (p + (len - 1)))) := by
      intro mantissa
      by_cases h : p + (len - 1 : ℤ) < 0 <;> simp [h, exponentText, powerText, py]
    simp only [htext]
    split
    · rename_i hone
      refine ⟨digitsText n, none, some (decide (p + (len - 1 : ℤ) < 0), powerText (p + (len - 1))),
        by simp [numeral, fractionText], hw, Or.inl hlead, by simp,
        by rintro _ ⟨⟩; exact hp, by simp, ?_⟩
      have he : p + (len - 1 : ℤ) - (0 : Nat) = p := by omega
      simp only [Option.getD_none, List.append_nil, hv, hpv, List.length_nil, he, decimalValue]
    · rename_i hmany
      refine ⟨(digitsText n).take 1, some ((digitsText n).drop 1),
        some (decide (p + (len - 1 : ℤ) < 0), powerText (p + (len - 1))),
        by simp [numeral, fractionText, py], ⟨?_, ?_⟩, ?_, ?_,
        by rintro _ ⟨⟩; exact hp, by simp, ?_⟩
      · simp [hw.1]
      · exact fun c hc => hw.2 c (List.mem_of_mem_take hc)
      · left
        rw [List.head?_take, if_neg (by omega)]
        exact hlead
      · rintro _ ⟨⟩
        refine ⟨?_, fun c hc => hw.2 c (List.mem_of_mem_drop hc)⟩
        rw [Ne, List.drop_eq_nil_iff, hlen]
        omega
      · have he : p + (len - 1 : ℤ) - (len - 1 : Nat) = p := by omega
        simp only [Option.getD_some, List.take_append_drop, hv, hpv, List.length_drop, hlen, he,
          decimalValue]

/-- The text of a float is the numeral of a decimal that rounds to it. -/
theorem floatRepr_laidOut {q : ℚ} (hq : q ≠ 0) (h : binary64 q = some q) :
    ∃ d negative whole f e, floatRepr q = numeral negative whole f e ∧ LaidOut d whole f e ∧
      binary64 ((if negative then -1 else 1) * decimalValue d) = some q := by
  rcases hq.lt_or_gt with hq | hq
  · have hb : binary64 (-q) = some (-q) := binary64_neg h
    have hs := binary64_neg (shortestDecimal_spec (neg_pos.mpr hq) hb)
    obtain ⟨whole, f, e, htext, l⟩ := decimalText_laidOut (shortestDecimal_pos (neg_pos.mpr hq) hb)
    refine ⟨_, true, whole, f, e, ?_, l, by simpa using hs⟩
    rw [floatRepr, if_neg hq.ne, if_pos hq, abs_of_neg hq, htext]
    rfl
  · have hs := shortestDecimal_spec hq h
    obtain ⟨whole, f, e, htext, l⟩ := decimalText_laidOut (shortestDecimal_pos hq h)
    refine ⟨_, false, whole, f, e, ?_, l, by simpa using hs⟩
    rw [floatRepr, if_neg hq.ne', if_neg hq.not_gt, abs_of_pos hq, htext]
    rfl

/-- The text of a float reads back as the float. -/
theorem parseScalar_floatRepr {q : ℚ} (h : binary64 q = some q) :
    parseScalar (floatRepr q) = some (.float q) := by
  by_cases hq : q = 0
  · subst hq
    decide +kernel
  · obtain ⟨d, negative, whole, f, e, htext, l, hd⟩ := floatRepr_laidOut hq h
    rw [htext, l.parse hd, floatOf, if_neg (by simp [hq])]

theorem floatRepr_numeral {q : ℚ} (h : binary64 q = some q) :
    ∃ negative whole f e, floatRepr q = numeral negative whole f e ∧ IsDigits whole ∧
      (∀ ds ∈ f, IsDigits ds) ∧ ∀ x ∈ e, IsDigits x.2 := by
  by_cases hq : q = 0
  · subst hq
    have hzero : IsDigits [ '0'.toNat] := ⟨by simp, by simp; rfl⟩
    exact ⟨false, [ '0'.toNat], some [ '0'.toNat], none, rfl, hzero,
      by rintro _ ⟨⟩; exact hzero, by simp⟩
  · obtain ⟨d, negative, whole, f, e, htext, l, -⟩ := floatRepr_laidOut hq h
    exact ⟨negative, whole, f, e, htext, l.whole_digits, l.fraction_digits, l.exponent_digits⟩

end PlcnextIot.Python
