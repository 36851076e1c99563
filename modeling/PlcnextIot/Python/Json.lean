/-
  PlcnextIot.Python.Json

  The `json` module: values, `loads` and `dumps`.

  `loads` reads text one character at a time with an explicit stack of open
  containers, so it is total and structural on the text.  It is `json.loads`
  as the contract calls it: duplicate member names, `NaN`/`Infinity`, numbers
  that overflow binary64 and integers above the interpreter's digit limit are
  refused, and a `\u` escape may leave a lone surrogate in a string.

  A Python `float` is the exact rational value of a finite binary64 number
  (`binary64` rounds a decimal to it), and -0.0 is a value of its own.  The
  text of a float is CPython's repr: the shortest decimal that reads back as
  the same number.
-/

import Mathlib.Data.List.Sort
import Mathlib.Data.Rat.Floor
import PlcnextIot.Python.Text

namespace PlcnextIot.Python

/-- The values `json.loads` produces; object members in insertion order. -/
inductive Json where
  | null
  | bool (b : Bool)
  | int (n : ℤ)
  | float (q : ℚ)
  | negZero
  | str (s : PyStr)
  | arr (items : List Json)
  | obj (members : List (PyStr × Json))
  deriving Repr

mutual

/-- Structural equality, computed. -/
def Json.same : Json → Json → Bool
  | .null, .null => true
  | .bool a, .bool b => a == b
  | .int a, .int b => a == b
  | .float a, .float b => a == b
  | .negZero, .negZero => true
  | .str a, .str b => a == b
  | .arr a, .arr b => Json.sameItems a b
  | .obj a, .obj b => Json.sameMembers a b
  | _, _ => false

def Json.sameItems : List Json → List Json → Bool
  | [], [] => true
  | a :: as, b :: bs => Json.same a b && Json.sameItems as bs
  | _, _ => false

def Json.sameMembers : List (PyStr × Json) → List (PyStr × Json) → Bool
  | [], [] => true
  | (k, a) :: as, (k', b) :: bs => k == k' && Json.same a b && Json.sameMembers as bs
  | _, _ => false

end

mutual

theorem Json.same_iff : (a b : Json) → (Json.same a b = true ↔ a = b)
  | .arr as, b => by
      cases b <;> simp [Json.same, Json.sameItems_iff as]
  | .obj as, b => by
      cases b <;> simp [Json.same, Json.sameMembers_iff as]
  | .null, b => by cases b <;> simp [Json.same]
  | .bool _, b => by cases b <;> simp [Json.same]
  | .int _, b => by cases b <;> simp [Json.same]
  | .float _, b => by cases b <;> simp [Json.same]
  | .negZero, b => by cases b <;> simp [Json.same]
  | .str _, b => by cases b <;> simp [Json.same]

theorem Json.sameItems_iff : (as bs : List Json) → (Json.sameItems as bs = true ↔ as = bs)
  | [], bs => by cases bs <;> simp [Json.sameItems]
  | a :: as, [] => by simp [Json.sameItems]
  | a :: as, b :: bs => by
      simp [Json.sameItems, Json.same_iff a b, Json.sameItems_iff as bs]

theorem Json.sameMembers_iff :
    (as bs : List (PyStr × Json)) → (Json.sameMembers as bs = true ↔ as = bs)
  | [], bs => by cases bs <;> simp [Json.sameMembers]
  | a :: as, [] => by simp [Json.sameMembers]
  | (k, a) :: as, (k', b) :: bs => by
      simp [Json.sameMembers, Json.same_iff a b, Json.sameMembers_iff as bs, and_assoc]

end

instance : DecidableEq Json := fun a b => decidable_of_iff _ (Json.same_iff a b)

/-- `value[key]` on a `dict`, with `none` for anything `[]` raises on. -/
def Json.get? (j : Json) (key : PyStr) : Option Json :=
  match j with
  | .obj members => members.lookup key
  | _ => none

/-! ## Numbers -/

/-- Round to an integer, ties to even: Python's `round` and IEEE rounding. -/
def roundHalfEven (q : ℚ) : ℤ :=
  let f := ⌊q⌋
  let d := q - f
  if d < 1 / 2 then f else if 1 / 2 < d then f + 1 else if f % 2 = 0 then f else f + 1

/-- The binary exponent `e` with `2^e ≤ q < 2^(e+1)`, for `q > 0`. -/
def binaryExponent (q : ℚ) : ℤ :=
  let e : ℤ := q.num.natAbs.log2 - q.den.log2
  if q < (2 : ℚ) ^ e then e - 1 else e

/-- The finite binary64 value nearest to `q`; `none` where it overflows. -/
def binary64 (q : ℚ) : Option ℚ :=
  if q = 0 then some 0
  else
    let ulp : ℚ := 2 ^ max (binaryExponent |q| - 52) (-1074)
    let r := roundHalfEven (q / ulp) * ulp
    if |r| < 2 ^ 1024 then some r else none

def isDigit (c : Nat) : Bool := 0x30 ≤ c && c ≤ 0x39

/-- A run of decimal digits read as a number. -/
def digitsValue (ds : List Nat) : Nat := ds.foldl (fun n d => 10 * n + (d - 0x30)) 0

/-- `sys.get_int_max_str_digits()`. -/
def maxIntDigits : Nat := 4300

/-- The optional fraction of a number: its digits and what follows. -/
def splitFraction : List Nat → Option (Option (List Nat) × List Nat)
  | c :: rest =>
    if c = '.'.toNat then
      if rest.takeWhile isDigit = [] then none
      else some (some (rest.takeWhile isDigit), rest.dropWhile isDigit)
    else some (none, c :: rest)
  | [] => some (none, [])

/-- The optional exponent of a number, which must end the token. -/
def splitExponent : List Nat → Option (Option ℤ)
  | [] => some none
  | c :: rest =>
    if c = 'e'.toNat ∨ c = 'E'.toNat then
      let negative := rest.head? = some '-'.toNat
      let digits := if negative ∨ rest.head? = some '+'.toNat then rest.tail else rest
      if digits ≠ [] ∧ digits.all isDigit then
        some (some (if negative then -(digitsValue digits : ℤ) else digitsValue digits))
      else none
    else none

/-- `float(text)` of a finite decimal, which keeps the sign of a zero. -/
def floatOf (negative : Bool) (q : ℚ) : Json := if negative ∧ q = 0 then .negZero else .float q

/-- The `int` or `float` a number token denotes. -/
def parseNumber (token : List Nat) : Option Json :=
  let negative := token.head? = some '-'.toNat
  let body := if negative then token.tail else token
  let whole := body.takeWhile isDigit
  if whole = [] ∨ (whole.head? = some '0'.toNat ∧ whole ≠ [ '0'.toNat]) then none
  else
    match splitFraction (body.dropWhile isDigit) with
    | none => none
    | some (fraction, rest) =>
      match splitExponent rest with
      | none => none
      | some exponent =>
        let sign : ℤ := if negative then -1 else 1
        match fraction, exponent with
        | none, none =>
          if whole.length ≤ maxIntDigits then some (.int (sign * digitsValue whole)) else none
        | _, _ =>
          let frac := fraction.getD []
          (binary64 (sign * digitsValue (whole ++ frac)
            * (10 : ℚ) ^ (exponent.getD 0 - frac.length))).map (floatOf negative)

/-- A literal or a number; the non-JSON constants are refused. -/
def parseScalar (token : List Nat) : Option Json :=
  if token = py "true" then some (.bool true)
  else if token = py "false" then some (.bool false)
  else if token = py "null" then some .null
  else parseNumber token

/-! ## Reading -/

/-- A container that is still open, its content so far in reverse. -/
inductive Frame where
  | arr (items : List Json)
  | obj (members : List (PyStr × Json)) (key : Option PyStr)

/-- Where a string is inside an escape. -/
inductive Escape where
  | none
  | slash
  | hex (owed : Nat) (code : Nat)

/-- What the reader expects next. -/
inductive Mode where
  | value (mayClose : Bool)
  | name (mayClose : Bool)
  | colon (key : PyStr)
  | text (isName : Bool) (acc : List Nat) (esc : Escape)
  | token (acc : List Nat)
  | next
  | done (v : Json)

structure Reader where
  stack : List Frame
  mode : Mode

/-- A value has ended: hand it to the innermost open container. -/
def complete : List Frame → Json → Option Reader
  | [], v => some ⟨[], .done v⟩
  | .arr items :: st, v => some ⟨.arr (v :: items) :: st, .next⟩
  | .obj members (some key) :: st, v =>
    if members.any (·.1 == key) then none
    else some ⟨.obj ((key, v) :: members) none :: st, .next⟩
  | .obj _ none :: _, _ => none

def isSpace (c : Nat) : Bool := c == 0x20 || c == 0x09 || c == 0x0A || c == 0x0D

def isTokenChar (c : Nat) : Bool :=
  isDigit c || c == '-'.toNat || c == '+'.toNat || c == '.'.toNat
    || (0x41 ≤ c && c ≤ 0x5A) || (0x61 ≤ c && c ≤ 0x7A)

/-- After a value: a separator, the end of the container, or white space. -/
def readNext (r : Reader) (c : Nat) : Option Reader :=
  if isSpace c then some r
  else match r.stack with
    | .arr items :: st =>
      if c = ','.toNat then some ⟨r.stack, .value false⟩
      else if c = ']'.toNat then complete st (.arr items.reverse)
      else none
    | .obj members none :: st =>
      if c = ','.toNat then some ⟨r.stack, .name false⟩
      else if c = '}'.toNat then complete st (.obj members.reverse)
      else none
    | _ => none

def readValue (st : List Frame) (mayClose : Bool) (c : Nat) : Option Reader :=
  if isSpace c then some ⟨st, .value mayClose⟩
  else if c = '"'.toNat then some ⟨st, .text false [] .none⟩
  else if c = '['.toNat then some ⟨.arr [] :: st, .value true⟩
  else if c = '{'.toNat then some ⟨.obj [] none :: st, .name true⟩
  else if c = ']'.toNat then
    match mayClose, st with
    | true, .arr _ :: rest => complete rest (.arr [])
    | _, _ => none
  else if isTokenChar c then some ⟨st, .token [c]⟩
  else none

def readName (st : List Frame) (mayClose : Bool) (c : Nat) : Option Reader :=
  if isSpace c then some ⟨st, .name mayClose⟩
  else if c = '"'.toNat then some ⟨st, .text true [] .none⟩
  else if c = '}'.toNat then
    match mayClose, st with
    | true, .obj _ _ :: rest => complete rest (.obj [])
    | _, _ => none
  else none

def hexValue (c : Nat) : Option Nat :=
  if isDigit c then some (c - 0x30)
  else if 0x41 ≤ c ∧ c ≤ 0x46 then some (c - 0x37)
  else if 0x61 ≤ c ∧ c ≤ 0x66 then some (c - 0x57)
  else none

/-- Append an escaped code unit, joining a surrogate pair. -/
def pushUnit (acc : List Nat) (u : Nat) : List Nat :=
  match acc with
  | h :: rest =>
    if (0xD800 ≤ h ∧ h ≤ 0xDBFF) ∧ (0xDC00 ≤ u ∧ u ≤ 0xDFFF) then
      (0x10000 + (h - 0xD800) * 1024 + (u - 0xDC00)) :: rest
    else u :: acc
  | [] => [u]

/-- The character a one-letter escape stands for. -/
def simpleEscape (c : Nat) : Option Nat :=
  if c = '"'.toNat ∨ c = '\\'.toNat ∨ c = '/'.toNat then some c
  else if c = 'b'.toNat then some 0x08
  else if c = 'f'.toNat then some 0x0C
  else if c = 'n'.toNat then some 0x0A
  else if c = 'r'.toNat then some 0x0D
  else if c = 't'.toNat then some 0x09
  else none

def readText (st : List Frame) (isName : Bool) (acc : List Nat) (esc : Escape) (c : Nat) :
    Option Reader :=
  match esc with
  | .none =>
    if c = '"'.toNat then
      if isName then some ⟨st, .colon acc.reverse⟩ else complete st (.str acc.reverse)
    else if c = '\\'.toNat then some ⟨st, .text isName acc .slash⟩
    else if c < 0x20 then none
    else some ⟨st, .text isName (c :: acc) .none⟩
  | .slash =>
    if c = 'u'.toNat then some ⟨st, .text isName acc (.hex 4 0)⟩
    else (simpleEscape c).map fun d => ⟨st, .text isName (d :: acc) .none⟩
  | .hex owed code =>
    (hexValue c).map fun d =>
      if owed ≤ 1 then ⟨st, .text isName (pushUnit acc (16 * code + d)) .none⟩
      else ⟨st, .text isName acc (.hex (owed - 1) (16 * code + d))⟩

/-- One character of JSON text. -/
def Reader.step (r : Reader) (c : Nat) : Option Reader :=
  match r.mode with
  | .value mayClose => readValue r.stack mayClose c
  | .name mayClose => readName r.stack mayClose c
  | .colon key =>
    if isSpace c then some r
    else if c = ':'.toNat then
      match r.stack with
      | .obj members _ :: st => some ⟨.obj members (some key) :: st, .value false⟩
      | _ => none
    else none
  | .text isName acc esc => readText r.stack isName acc esc c
  | .token acc =>
    if isTokenChar c then some ⟨r.stack, .token (c :: acc)⟩
    else match parseScalar acc.reverse with
      | none => none
      | some v => (complete r.stack v).bind (readNext · c)
  | .next => readNext r c
  | .done _ => if isSpace c then some r else none

/-- The value, if the text has ended after exactly one. -/
def Reader.finish (r : Reader) : Option Json :=
  match r.stack, r.mode with
  | [], .done v => some v
  | [], .token acc => parseScalar acc.reverse
  | _, _ => none

/-- `json.loads(text, object_pairs_hook=_pairs, parse_float=_float, parse_constant=_constant)`;
    `none` is any of its `ValueError`s. -/
def loads (s : PyStr) : Option Json :=
  (s.foldlM Reader.step ⟨[], .value false⟩).bind Reader.finish

example : loads (py "\x7b\"a\": [1, -2.5e1, true], \"b\": \"\\ud83d\\ude00\\ud800\"\x7d")
    = some (.obj [(py "a", .arr [.int 1, .float (-25), .bool true]),
        (py "b", .str [0x1F600, 0xD800])]) := by
  decide +kernel

/-! ## Writing -/

/-- `\u00XX`, for the control characters without a short escape. -/
def hexEscape (c : Nat) : PyStr :=
  py "\\u00" ++ (Nat.toDigits 16 (c / 16)).map Char.toNat ++ (Nat.toDigits 16 (c % 16)).map Char.toNat

/-- One character of a string literal, with `ensure_ascii=False`. -/
def quoteChar (c : Nat) : PyStr :=
  if c = '"'.toNat then py "\\\""
  else if c = '\\'.toNat then py "\\\\"
  else if c = 0x0A then py "\\n"
  else if c = 0x0D then py "\\r"
  else if c = 0x09 then py "\\t"
  else if c = 0x0C then py "\\f"
  else if c = 0x08 then py "\\b"
  else if c < 0x20 then hexEscape c
  else [c]

def quote (s : PyStr) : PyStr := [ '"'.toNat] ++ s.flatMap quoteChar ++ [ '"'.toNat]

def intText (n : ℤ) : PyStr :=
  (if n < 0 then py "-" else []) ++ (Nat.toDigits 10 n.natAbs).map Char.toNat

/-- The decimal of `n` significant digits nearest to `q > 0`: digits and the
    power of ten of the last one. -/
def nearestDecimal (q : ℚ) (magnitude : ℤ) (n : Nat) : Nat × ℤ :=
  let scale := magnitude - (n - 1)
  ((roundHalfEven (q / (10 : ℚ) ^ scale)).toNat, scale)

/-- The decimal exponent `e` with `10^e ≤ q < 10^(e+1)`, for `q > 0`. -/
def decimalMagnitude (q : ℚ) : ℤ :=
  let digits : ℤ := (Nat.toDigits 10 q.num.natAbs).length - (Nat.toDigits 10 q.den).length
  if q < (10 : ℚ) ^ digits then digits - 1 else digits

def decimalValue (d : Nat × ℤ) : ℚ := d.1 * (10 : ℚ) ^ d.2

/-- Drop the trailing zeros of a decimal, at most `fuel` of them. -/
def trimZeros : Nat → Nat × ℤ → Nat × ℤ
  | 0, d => d
  | fuel + 1, d => if d.1 % 10 = 0 ∧ d.1 ≠ 0 then trimZeros fuel (d.1 / 10, d.2 + 1) else d

/-- The exact decimal of a dyadic rational. -/
def exactDecimal (q : ℚ) : Nat × ℤ := (q.num.natAbs * 5 ^ q.den.log2, -q.den.log2)

/-- The shortest decimal that rounds to the binary64 value `q > 0`.  Seventeen
    digits always do, so the exact decimal is never needed. -/
def shortestDecimal (q : ℚ) : Nat × ℤ :=
  let candidates := (List.range 17).map fun n => nearestDecimal q (decimalMagnitude q) (n + 1)
  trimZeros 20 ((candidates.find? fun d => binary64 (decimalValue d) = some q).getD
    (exactDecimal q))

/-- The digits of `n`. -/
def digitsText (n : Nat) : PyStr := (Nat.toDigits 10 n).map Char.toNat

/-- A decimal in CPython's notation: positional for exponents -4..15. -/
def decimalText (d : Nat × ℤ) : PyStr :=
  let digits := digitsText d.1
  let exponent := d.2 + (digits.length - 1)
  if -4 ≤ exponent ∧ exponent < 16 then
    if exponent < 0 then py "0." ++ List.replicate (-exponent - 1).toNat '0'.toNat ++ digits
    else
      let whole := (exponent + 1).toNat
      if digits.length ≤ whole then
        digits ++ List.replicate (whole - digits.length) '0'.toNat ++ py ".0"
      else digits.take whole ++ py "." ++ digits.drop whole
  else
    let mantissa := if digits.length ≤ 1 then digits else digits.take 1 ++ py "." ++ digits.drop 1
    let power := digitsText exponent.natAbs
    mantissa ++ py "e" ++ (if exponent < 0 then py "-" else py "+")
      ++ (if power.length < 2 then py "0" ++ power else power)

/-- `float.__repr__` -/
def floatRepr (q : ℚ) : PyStr :=
  if q = 0 then py "0.0"
  else (if q < 0 then py "-" else []) ++ decimalText (shortestDecimal |q|)

example : (binary64 (1 / 10)).map floatRepr = some (py "0.1") := by decide +kernel
example : (binary64 (10 ^ 22)).map floatRepr = some (py "1e+22") := by decide +kernel

mutual

/-- `json.dumps(value, ensure_ascii=False, separators=(',', ':'), allow_nan=False)`. -/
def dumps : Json → PyStr
  | .null => py "null"
  | .bool b => if b then py "true" else py "false"
  | .int n => intText n
  | .float q => floatRepr q
  | .negZero => py "-0.0"
  | .str s => quote s
  | .arr items => [ '['.toNat] ++ dumpsItems items ++ [ ']'.toNat]
  | .obj members => [ '{'.toNat] ++ dumpsMembers members ++ [ '}'.toNat]

def dumpsItems : List Json → PyStr
  | [] => []
  | v :: rest => dumps v ++ (if rest.isEmpty then [] else [ ','.toNat]) ++ dumpsItems rest

def dumpsMembers : List (PyStr × Json) → PyStr
  | [] => []
  | (k, v) :: rest =>
    quote k ++ [ ':'.toNat] ++ dumps v ++ (if rest.isEmpty then [] else [ ','.toNat])
      ++ dumpsMembers rest

end

mutual

/-- `sort_keys=True`: every object's members by name. -/
def sortKeys : Json → Json
  | .arr items => .arr (sortKeysItems items)
  | .obj members => .obj ((sortKeysMembers members).insertionSort (fun a b => a.1 ≤ b.1))
  | v => v

def sortKeysItems : List Json → List Json
  | [] => []
  | v :: rest => sortKeys v :: sortKeysItems rest

def sortKeysMembers : List (PyStr × Json) → List (PyStr × Json)
  | [] => []
  | (k, v) :: rest => (k, sortKeys v) :: sortKeysMembers rest

end

/-! ## Walks over a value -/

mutual

/-- How many containers are open around the deepest item. -/
def Json.height : Json → Nat
  | .arr items => heightItems items
  | .obj members => heightMembers members
  | _ => 0

def heightItems : List Json → Nat
  | [] => 0
  | v :: rest => max (v.height + 1) (heightItems rest)

def heightMembers : List (PyStr × Json) → Nat
  | [] => 0
  | (_, v) :: rest => max (v.height + 1) (heightMembers rest)

end

mutual

/-- No string and no member name of the value holds a lone surrogate, so its
    text has a UTF-8 encoding. -/
def Json.encodable : Json → Bool
  | .str s => s.all encodes
  | .arr items => encodableItems items
  | .obj members => encodableMembers members
  | _ => true

def encodableItems : List Json → Bool
  | [] => true
  | v :: rest => v.encodable && encodableItems rest

def encodableMembers : List (PyStr × Json) → Bool
  | [] => true
  | (k, v) :: rest => k.all encodes && v.encodable && encodableMembers rest

end

end PlcnextIot.Python
