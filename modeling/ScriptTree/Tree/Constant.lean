/-
  ScriptTree/Tree/Constant.lean
  =============================
  **Constants**: nothing, truth values, 64-bit integers, floating point numbers and strings.
-/
import ScriptTree.Json.Basic

namespace ScriptTree

/-- A constant of the source. -/
inductive Constant where
  | null
  | bool (b : Bool)
  | int (n : Int64)
  | float (x : Float)
  | str (s : String)
  deriving DecidableEq

namespace Constant

/-- Whether an integer is a 64-bit integer with a sign. -/
def fitsInt64 (n : Int) : Bool := Int64.minValue.toInt ≤ n && n ≤ Int64.maxValue.toInt

/-- The constant for an integer: a floating point number when it does not fit. -/
def ofInt (n : Int) : Constant :=
  if fitsInt64 n then .int (Int64.ofInt n) else .float (Float.ofInt n)

/-! ### Readings of a JSON scalar -/

/-- A value read as nothing. -/
def null? : Json → Option Constant
  | .null => some .null
  | _ => none

/-- A value read as a truth value. -/
def bool? : Json → Option Constant
  | .bool b => some (.bool b)
  | _ => none

/-- A value read as an integer, which must fit. -/
def int? : Json → Option Constant
  | .int n => if fitsInt64 n then some (.int (Int64.ofInt n)) else none
  | _ => none

/-- A value read as a floating point number; any number will do. -/
def float? : Json → Option Constant
  | .int n => some (.float (Float.ofInt n))
  | .float x => some (.float x)
  | _ => none

/-- A value read as a string. -/
def str? : Json → Option Constant
  | .str s => some (.str s)
  | _ => none

/-- The constant that a JSON scalar stands for: the first reading that succeeds. -/
def ofJson? (j : Json) : Option Constant := [null?, bool?, int?, float?, str?].findSome? (· j)

/-- An integer is tried as an integer first, and any integer is a floating point number. -/
theorem ofJson?_int (n : Int) : ofJson? (.int n) = some (ofInt n) := by
  by_cases h : fitsInt64 n = true
  · simp only [ofJson?, List.findSome?_cons, null?, bool?, int?, ofInt, if_pos h]
  · simp only [ofJson?, List.findSome?_cons, null?, bool?, int?, float?, ofInt, if_neg h]

/-- The JSON value of a constant. -/
def toJson : Constant → Json
  | .null => .null
  | .bool b => .bool b
  | .int n => .int n.toInt
  | .float x => .float x
  | .str s => .str s

end Constant

end ScriptTree
