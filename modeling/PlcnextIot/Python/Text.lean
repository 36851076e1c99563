/-
  PlcnextIot.Python.Text

  Python `str` and `bytes`, and the strict UTF-8 codec between them.

  A `str` is a sequence of code points.  It may hold a lone surrogate (the JSON
  escape `\ud800` produces one); such a string has no UTF-8 encoding, and
  `str.encode('utf-8')` raises on it.  `bytes.decode('utf-8')` never yields a
  surrogate, so text that came off the wire always encodes back, to the very
  bytes it was read from (`utf8Encode_of_utf8Decode`).
-/

import Mathlib.Data.List.Basic
import Mathlib.Data.List.Lex

namespace PlcnextIot.Python

/-- Python `bytes`. -/
abbrev Bytes := List UInt8

/-- Python `str`: code points, surrogates included. -/
abbrev PyStr := List Nat

/-- A literal of the source. -/
def py (s : String) : PyStr := s.toList.map Char.toNat

/-- U+D800..U+DFFF, which UTF-8 does not encode. -/
def isSurrogate (c : Nat) : Bool := 0xD800 ≤ c && c ≤ 0xDFFF

/-- A code point that UTF-8 encodes: no surrogate. -/
def encodes (c : Nat) : Bool := !isSurrogate c && c < 0x110000

/-! ## The UTF-8 codec -/

/-- One code point; `none` where `encode('utf-8')` raises. -/
def utf8EncodeChar (c : Nat) : Option Bytes :=
  if c < 0x80 then some [UInt8.ofNat c]
  else if c < 0x800 then
    some [UInt8.ofNat (0xC0 + c / 64), UInt8.ofNat (0x80 + c % 64)]
  else if isSurrogate c then none
  else if c < 0x10000 then
    some [UInt8.ofNat (0xE0 + c / 4096), UInt8.ofNat (0x80 + c / 64 % 64),
      UInt8.ofNat (0x80 + c % 64)]
  else if c < 0x110000 then
    some [UInt8.ofNat (0xF0 + c / 262144), UInt8.ofNat (0x80 + c / 4096 % 64),
      UInt8.ofNat (0x80 + c / 64 % 64), UInt8.ofNat (0x80 + c % 64)]
  else none

/-- `str.encode('utf-8')`; `none` is `UnicodeEncodeError`. -/
def utf8Encode : PyStr → Option Bytes
  | [] => some []
  | c :: rest =>
    match utf8EncodeChar c, utf8Encode rest with
    | some b, some bs => some (b ++ bs)
    | _, _ => none

/-- A continuation byte. -/
def isTail (b : UInt8) : Bool := 0x80 ≤ b.toNat && b.toNat ≤ 0xBF

/-- A well-formed two-byte sequence. -/
def isTwo (a b : UInt8) : Bool := 0xC2 ≤ a.toNat && a.toNat ≤ 0xDF && isTail b

/-- A well-formed three-byte sequence: no overlong form and no surrogate. -/
def isThree (a b c : UInt8) : Bool :=
  0xE0 ≤ a.toNat && a.toNat ≤ 0xEF && isTail b && isTail c
    && (a.toNat != 0xE0 || 0xA0 ≤ b.toNat) && (a.toNat != 0xED || b.toNat ≤ 0x9F)

/-- A well-formed four-byte sequence, up to U+10FFFF. -/
def isFour (a b c d : UInt8) : Bool :=
  0xF0 ≤ a.toNat && a.toNat ≤ 0xF4 && isTail b && isTail c && isTail d
    && (a.toNat != 0xF0 || 0x90 ≤ b.toNat) && (a.toNat != 0xF4 || b.toNat ≤ 0x8F)

/-- `bytes.decode('utf-8')`; `none` is `UnicodeDecodeError`. -/
def utf8Decode : Bytes → Option PyStr
  | [] => some []
  | a :: t1 =>
    if a.toNat < 0x80 then (utf8Decode t1).map (a.toNat :: ·)
    else match t1 with
      | [] => none
      | b :: t2 =>
        if isTwo a b then
          (utf8Decode t2).map (((a.toNat - 0xC0) * 64 + (b.toNat - 0x80)) :: ·)
        else match t2 with
          | [] => none
          | c :: t3 =>
            if isThree a b c then
              (utf8Decode t3).map
                (((a.toNat - 0xE0) * 4096 + (b.toNat - 0x80) * 64 + (c.toNat - 0x80)) :: ·)
            else match t3 with
              | [] => none
              | d :: t4 =>
                if isFour a b c d then
                  (utf8Decode t4).map
                    (((a.toNat - 0xF0) * 262144 + (b.toNat - 0x80) * 4096
                      + (c.toNat - 0x80) * 64 + (d.toNat - 0x80)) :: ·)
                else none

example : utf8Decode [0x61, 0xC3, 0xA9, 0xE2, 0x82, 0xAC] = some [0x61, 0xE9, 0x20AC] := by
  decide

/-! ## Decoded text encodes back to the bytes it came from -/

private theorem ofNat_eq {b : UInt8} {n : Nat} (h : n = b.toNat) : UInt8.ofNat n = b := by
  subst h; simp

theorem utf8EncodeChar_one {a : UInt8} (h : a.toNat < 0x80) :
    utf8EncodeChar a.toNat = some [a] := by
  rw [utf8EncodeChar, if_pos h, ofNat_eq rfl]

theorem utf8EncodeChar_two {a b : UInt8} (h : isTwo a b) :
    utf8EncodeChar ((a.toNat - 0xC0) * 64 + (b.toNat - 0x80)) = some [a, b] := by
  simp only [isTwo, isTail, Bool.and_eq_true, decide_eq_true_eq] at h
  obtain ⟨⟨ha, ha'⟩, hb, hb'⟩ := h
  rw [utf8EncodeChar, if_neg (by omega), if_pos (by omega), ofNat_eq (b := a) (by omega),
    ofNat_eq (b := b) (by omega)]

theorem utf8EncodeChar_three {a b c : UInt8} (h : isThree a b c) :
    utf8EncodeChar ((a.toNat - 0xE0) * 4096 + (b.toNat - 0x80) * 64 + (c.toNat - 0x80))
      = some [a, b, c] := by
  simp only [isThree, isTail, Bool.and_eq_true, decide_eq_true_eq, Bool.or_eq_true,
    bne_iff_ne] at h
  obtain ⟨⟨⟨⟨⟨ha, ha'⟩, hb, hb'⟩, hc, hc'⟩, hE0⟩, hED⟩ := h
  have hs : isSurrogate ((a.toNat - 0xE0) * 4096 + (b.toNat - 0x80) * 64 + (c.toNat - 0x80))
      = false := by
    simp only [isSurrogate, Bool.and_eq_false_iff, decide_eq_false_iff_not]
    omega
  rw [utf8EncodeChar, if_neg (by omega), if_neg (by omega), hs, if_neg (by simp),
    if_pos (by omega), ofNat_eq (b := a) (by omega), ofNat_eq (b := b) (by omega),
    ofNat_eq (b := c) (by omega)]

theorem utf8EncodeChar_four {a b c d : UInt8} (h : isFour a b c d) :
    utf8EncodeChar ((a.toNat - 0xF0) * 262144 + (b.toNat - 0x80) * 4096
      + (c.toNat - 0x80) * 64 + (d.toNat - 0x80)) = some [a, b, c, d] := by
  simp only [isFour, isTail, Bool.and_eq_true, decide_eq_true_eq, Bool.or_eq_true,
    bne_iff_ne] at h
  obtain ⟨⟨⟨⟨⟨⟨ha, ha'⟩, hb, hb'⟩, hc, hc'⟩, hd, hd'⟩, hF0⟩, hF4⟩ := h
  have hs : isSurrogate ((a.toNat - 0xF0) * 262144 + (b.toNat - 0x80) * 4096
      + (c.toNat - 0x80) * 64 + (d.toNat - 0x80)) = false := by
    simp only [isSurrogate, Bool.and_eq_false_iff, decide_eq_false_iff_not]
    omega
  rw [utf8EncodeChar, if_neg (by omega), if_neg (by omega), hs, if_neg (by simp),
    if_neg (by omega), if_pos (by omega), ofNat_eq (b := a) (by omega),
    ofNat_eq (b := b) (by omega), ofNat_eq (b := c) (by omega), ofNat_eq (b := d) (by omega)]

theorem utf8Encode_cons {c : Nat} {rest : PyStr} {b bs : Bytes}
    (hc : utf8EncodeChar c = some b) (hr : utf8Encode rest = some bs) :
    utf8Encode (c :: rest) = some (b ++ bs) := by
  rw [utf8Encode, hc, hr]

/-- Text read off the wire encodes, and to the same bytes. -/
theorem utf8Encode_of_utf8Decode {p : Bytes} {s : PyStr} (h : utf8Decode p = some s) :
    utf8Encode s = some p := by
  fun_induction utf8Decode p generalizing s with
  | case1 => cases h; rfl
  | case2 a t1 ha ih =>
      obtain ⟨s', hs', rfl⟩ := Option.map_eq_some_iff.mp h
      exact utf8Encode_cons (utf8EncodeChar_one ha) (ih hs')
  | case3 => cases h
  | case4 a _ b t2 hb ih =>
      obtain ⟨s', hs', rfl⟩ := Option.map_eq_some_iff.mp h
      exact utf8Encode_cons (utf8EncodeChar_two hb) (ih hs')
  | case5 => cases h
  | case6 a _ b _ c t3 hc ih =>
      obtain ⟨s', hs', rfl⟩ := Option.map_eq_some_iff.mp h
      exact utf8Encode_cons (utf8EncodeChar_three hc) (ih hs')
  | case7 => cases h
  | case8 a _ b _ c _ d t4 hd ih =>
      obtain ⟨s', hs', rfl⟩ := Option.map_eq_some_iff.mp h
      exact utf8Encode_cons (utf8EncodeChar_four hd) (ih hs')
  | case9 => cases h

theorem utf8EncodeChar_isSome (c : Nat) : (utf8EncodeChar c).isSome = encodes c := by
  unfold utf8EncodeChar encodes
  split
  · have : isSurrogate c = false := by simp [isSurrogate]; omega
    simp [this]
    omega
  · split
    · have : isSurrogate c = false := by simp [isSurrogate]; omega
      simp [this]
      omega
    · split
      · simp [*]
      · split
        · simp [*]
          omega
        · split <;> simp [*]

/-- `encode('utf-8')` raises exactly on the strings that hold a surrogate. -/
theorem utf8Encode_isSome (s : PyStr) : (utf8Encode s).isSome = s.all encodes := by
  induction s with
  | nil => rfl
  | cons c rest ih =>
      rw [List.all_cons, ← utf8EncodeChar_isSome, ← ih, utf8Encode]
      cases utf8EncodeChar c <;> cases utf8Encode rest <;> rfl

/-! ## Encoded text decodes to itself -/

theorem toNat_ofNat {n : Nat} (h : n < 256) : (UInt8.ofNat n).toNat = n := by
  simp [Nat.mod_eq_of_lt h]

/-- The bytes of one code point decode to it. -/
theorem utf8Decode_char {c : Nat} {b : Bytes} (h : utf8EncodeChar c = some b) (rest : Bytes) :
    utf8Decode (b ++ rest) = (utf8Decode rest).map (c :: ·) := by
  unfold utf8EncodeChar at h
  split at h
  · rename_i h1
    cases h
    have ha : (UInt8.ofNat c).toNat = c := toNat_ofNat (by omega)
    rw [List.cons_append, List.nil_append, utf8Decode.eq_def]
    simp only [ha, if_pos h1]
  split at h
  · rename_i h1 h2
    cases h
    have ha : (UInt8.ofNat (0xC0 + c / 64)).toNat = 0xC0 + c / 64 := toNat_ofNat (by omega)
    have hb : (UInt8.ofNat (0x80 + c % 64)).toNat = 0x80 + c % 64 := toNat_ofNat (by omega)
    have htwo : isTwo (UInt8.ofNat (0xC0 + c / 64)) (UInt8.ofNat (0x80 + c % 64)) = true := by
      simp only [isTwo, isTail, ha, hb, Bool.and_eq_true, decide_eq_true_eq]
      omega
    have hval : (0xC0 + c / 64 - 0xC0) * 64 + (0x80 + c % 64 - 0x80) = c := by omega
    have hlow : ¬ 0xC0 + c / 64 < 0x80 := by omega
    rw [List.cons_append, List.cons_append, List.nil_append, utf8Decode.eq_def]
    simp only [ha, if_neg hlow, htwo, if_true, hb, hval]
  split at h
  · cases h
  rename_i h1 h2 hs
  simp only [isSurrogate, Bool.and_eq_true, decide_eq_true_eq, not_and, Nat.not_le] at hs
  split at h
  · rename_i h3
    cases h
    have ha : (UInt8.ofNat (0xE0 + c / 4096)).toNat = 0xE0 + c / 4096 := toNat_ofNat (by omega)
    have hb : (UInt8.ofNat (0x80 + c / 64 % 64)).toNat = 0x80 + c / 64 % 64 :=
      toNat_ofNat (by omega)
    have hc : (UInt8.ofNat (0x80 + c % 64)).toNat = 0x80 + c % 64 := toNat_ofNat (by omega)
    have htwo : isTwo (UInt8.ofNat (0xE0 + c / 4096)) (UInt8.ofNat (0x80 + c / 64 % 64))
        = false := by
      simp only [isTwo, ha, Bool.and_eq_false_iff, decide_eq_false_iff_not]
      omega
    have hthree : isThree (UInt8.ofNat (0xE0 + c / 4096)) (UInt8.ofNat (0x80 + c / 64 % 64))
        (UInt8.ofNat (0x80 + c % 64)) = true := by
      simp only [isThree, isTail, ha, hb, hc, Bool.and_eq_true, decide_eq_true_eq, Bool.or_eq_true,
        bne_iff_ne]
      omega
    have hval : (0xE0 + c / 4096 - 0xE0) * 4096 + (0x80 + c / 64 % 64 - 0x80) * 64
        + (0x80 + c % 64 - 0x80) = c := by omega
    have hlow : ¬ 0xE0 + c / 4096 < 0x80 := by omega
    rw [List.cons_append, List.cons_append, List.cons_append, List.nil_append, utf8Decode.eq_def]
    simp only [ha, if_neg hlow, htwo, Bool.false_eq_true, if_false, hthree, if_true, hb, hc, hval]
  split at h
  · rename_i h3 h4
    cases h
    have ha : (UInt8.ofNat (0xF0 + c / 262144)).toNat = 0xF0 + c / 262144 :=
      toNat_ofNat (by omega)
    have hb : (UInt8.ofNat (0x80 + c / 4096 % 64)).toNat = 0x80 + c / 4096 % 64 :=
      toNat_ofNat (by omega)
    have hc : (UInt8.ofNat (0x80 + c / 64 % 64)).toNat = 0x80 + c / 64 % 64 :=
      toNat_ofNat (by omega)
    have hd : (UInt8.ofNat (0x80 + c % 64)).toNat = 0x80 + c % 64 := toNat_ofNat (by omega)
    have htwo : isTwo (UInt8.ofNat (0xF0 + c / 262144)) (UInt8.ofNat (0x80 + c / 4096 % 64))
        = false := by
      simp only [isTwo, ha, Bool.and_eq_false_iff, decide_eq_false_iff_not]
      omega
    have hthree : isThree (UInt8.ofNat (0xF0 + c / 262144)) (UInt8.ofNat (0x80 + c / 4096 % 64))
        (UInt8.ofNat (0x80 + c / 64 % 64)) = false := by
      simp only [isThree, ha, Bool.and_eq_false_iff, decide_eq_false_iff_not]
      omega
    have hfour : isFour (UInt8.ofNat (0xF0 + c / 262144)) (UInt8.ofNat (0x80 + c / 4096 % 64))
        (UInt8.ofNat (0x80 + c / 64 % 64)) (UInt8.ofNat (0x80 + c % 64)) = true := by
      simp only [isFour, isTail, ha, hb, hc, hd, Bool.and_eq_true, decide_eq_true_eq,
        Bool.or_eq_true, bne_iff_ne]
      omega
    have hval : (0xF0 + c / 262144 - 0xF0) * 262144 + (0x80 + c / 4096 % 64 - 0x80) * 4096
        + (0x80 + c / 64 % 64 - 0x80) * 64 + (0x80 + c % 64 - 0x80) = c := by omega
    have hlow : ¬ 0xF0 + c / 262144 < 0x80 := by omega
    rw [List.cons_append, List.cons_append, List.cons_append, List.cons_append, List.nil_append,
      utf8Decode.eq_def]
    simp only [ha, if_neg hlow, htwo, Bool.false_eq_true, if_false, hthree, hfour, if_true, hb, hc,
      hd, hval]
  · cases h

/-- What `encode('utf-8')` returns decodes to the string. -/
theorem utf8Decode_of_utf8Encode {s : PyStr} {p : Bytes} (h : utf8Encode s = some p) :
    utf8Decode p = some s := by
  induction s generalizing p with
  | nil =>
      cases h
      rfl
  | cons c rest ih =>
      rw [utf8Encode] at h
      split at h
      · rename_i b bs hb hbs
        cases h
        rw [utf8Decode_char hb, ih hbs, Option.map_some]
      · cases h

end PlcnextIot.Python
