/-
  ScriptTree/Render/Spelling.lean
  ===============================
  **How operators and constants are spelled in JavaScript.**
-/
import ScriptTree.Decimal.Layout
import ScriptTree.Render.Error

namespace ScriptTree

/-- The operator between conditions. -/
def BoolOperator.spelling : BoolOperator → String
  | .and => "&&"
  | .or => "||"

/-- The operator between operands, if there is one. -/
def BinaryOperator.spelling? : BinaryOperator → Option String
  | .add => some "+"
  | .sub => some "-"
  | .mult => some "*"
  | .div => some "/"
  | .mod => some "%"
  | .pow => some "**"
  | .leftShift => some "<<"
  | .rightShift => some ">>"
  | .bitOr => some "|"
  | .bitXor => some "^"
  | .bitAnd => some "&"
  | .matMult | .floorDiv => none

/-- The operator before an operand. -/
def UnaryOperator.spelling : UnaryOperator → String
  | .invert => "~"
  | .not => "!"
  | .plus => "+"
  | .minus => "-"

/-- The comparison, if there is one. -/
def CmpOperator.spelling? : CmpOperator → Option String
  | .eq | .is => some "==="
  | .notEq | .isNot => some "!=="
  | .lt => some "<"
  | .ltEq => some "<="
  | .gt => some ">"
  | .gtEq => some ">="
  | .isIn | .notIn => none

/-- The spelling of a binary operator, or what is wrong with it. -/
def BinaryOperator.spell (op : BinaryOperator) : Except RenderError String :=
  match op.spelling? with
  | some s => .ok s
  | none => .error (.unsupported (.binaryOperator op))

/-- The spelling of a comparison, or what is wrong with it. -/
def CmpOperator.spell (op : CmpOperator) : Except RenderError String :=
  match op.spelling? with
  | some s => .ok s
  | none => .error (.unsupported (.cmpOperator op))

/-- Text between double quotes, as it is. -/
def doubleQuoted (s : String) : String := "\"" ++ s ++ "\""

/-- Floating point numbers in JavaScript: positional for zero and from 0.0001 to below 10 ^ 16, an
    exponent without plus sign otherwise, ties away from zero. -/
def scriptFloat : Decimal.Layout where
  tie := .awayFromZero
  leastPoint := -3
  greatestPoint := 16
  exponentSign := ""
  notANumber := "NaN"
  infinity := "Infinity"
  negativeInfinity := "-Infinity"

/-- The spelling of a constant. -/
def Constant.spelling : Constant → String
  | .null => "null"
  | .bool b => if b then "true" else "false"
  | .int n => Decimal.intText n.toInt
  | .float x => scriptFloat.text x
  | .str s => doubleQuoted s

end ScriptTree
