/-
  PlcnextIot.Contracts.Schema

  The JSON Schema keywords that the protocol contract uses, as predicates on
  values.  A keyword says nothing about a value of another type than its own
  (`minimum` accepts every string), so each combinator passes such values, as
  draft 2020-12 requires; `record` is the usual closed object, where that
  cannot happen.

  Integers follow the draft: a float with an integral value is an `integer`,
  and 1 and 1.0 are equal under `const`; a boolean is never a number.
-/

import PlcnextIot.Python.Json

namespace PlcnextIot.Contracts

open PlcnextIot.Python

/-- A schema: the values that conform to it. -/
abbrev Schema := Json → Bool

/-- The rational value of a number; `none` for everything else. -/
def number? : Json → Option ℚ
  | .int n => some n
  | .float q => some q
  | .negZero => some 0
  | _ => none

namespace Schema

def allOf (ss : List Schema) : Schema := fun j => ss.all (· j)
def anyOf (ss : List Schema) : Schema := fun j => ss.any (· j)
def neg (s : Schema) : Schema := fun j => !s j

/-- `if`/`then`/`else`. -/
def cond (c t e : Schema) : Schema := fun j => if c j then t j else e j

/-- `if`/`then` without an `else`. -/
def implies (c t : Schema) : Schema := cond c t fun _ => true

/-! ## Types and constants -/

def null : Schema
  | .null => true
  | _ => false

def boolean : Schema
  | .bool _ => true
  | _ => false

def string : Schema
  | .str _ => true
  | _ => false

def array : Schema
  | .arr _ => true
  | _ => false

def object : Schema
  | .obj _ => true
  | _ => false

def isNumber : Schema := fun j => (number? j).isSome

def integer : Schema
  | .int _ => true
  | .float q => q.den = 1
  | .negZero => true
  | _ => false

def constNum (q : ℚ) : Schema := fun j => number? j = some q

def constBool (b : Bool) : Schema
  | .bool b' => b' == b
  | _ => false

def enum (ss : List String) : Schema
  | .str s => ss.any (py · == s)
  | _ => false

def constStr (s : String) : Schema := enum [s]

/-! ## Bounds -/

def minimum (m : ℚ) : Schema := fun j =>
  match number? j with
  | some q => m ≤ q
  | none => true

def maximum (m : ℚ) : Schema := fun j =>
  match number? j with
  | some q => q ≤ m
  | none => true

/-- An integer within bounds. -/
def range (lo hi : ℚ) : Schema := allOf [integer, minimum lo, maximum hi]

def minLength (n : Nat) : Schema
  | .str s => n ≤ s.length
  | _ => true

def maxLength (n : Nat) : Schema
  | .str s => s.length ≤ n
  | _ => true

def pattern (p : PyStr → Bool) : Schema
  | .str s => p s
  | _ => true

/-- A string of bounded length. -/
def text (lo hi : Nat) : Schema := allOf [string, minLength lo, maxLength hi]

/-- A string of bounded length that matches a pattern. -/
def matching (lo hi : Nat) (p : PyStr → Bool) : Schema := allOf [text lo hi, pattern p]

/-! ## Arrays and objects -/

def items (s : Schema) : Schema
  | .arr js => js.all s
  | _ => true

def minItems (n : Nat) : Schema
  | .arr js => n ≤ js.length
  | _ => true

def maxItems (n : Nat) : Schema
  | .arr js => js.length ≤ n
  | _ => true

/-- An array of bounded length. -/
def list (lo hi : Nat) (s : Schema) : Schema := allOf [array, items s, minItems lo, maxItems hi]

def required (keys : List String) : Schema
  | .obj members => keys.all fun k => (members.lookup (py k)).isSome
  | _ => true

/-- `properties` with one member. -/
def property (key : String) (s : Schema) : Schema
  | .obj members =>
    match members.lookup (py key) with
    | some v => s v
    | none => true
  | _ => true

def properties (props : List (String × Schema)) : Schema :=
  allOf (props.map fun p => property p.1 p.2)

/-- `additionalProperties: false` beside the given properties. -/
def closed (keys : List String) : Schema
  | .obj members => members.all fun m => keys.any (py · == m.1)
  | _ => true

def minProperties (n : Nat) : Schema
  | .obj members => n ≤ members.length
  | _ => true

/-- A closed object: its required members and all it may have. -/
def record (req : List String) (props : List (String × Schema)) : Schema :=
  allOf [object, closed (props.map (·.1)), required req, properties props]

/-- A closed object all of whose members are required. -/
def strict (props : List (String × Schema)) : Schema := record (props.map (·.1)) props

end Schema

end PlcnextIot.Contracts
