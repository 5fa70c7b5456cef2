/-
  ScriptTree/Tree/Operator.lean
  =============================
  **The operators of a syntax tree**, in four classes.
-/
import ScriptTree.Tree.Variant

namespace ScriptTree

/-- Operators that join two or more conditions. -/
inductive BoolOperator where
  | and
  | or
  deriving DecidableEq, Repr

instance : Variant BoolOperator where
  all := [.and, .or]
  name
    | .and => "And"
    | .or => "Or"

/-- Operators between two operands, also used by augmented assignments. -/
inductive BinaryOperator where
  | add
  | sub
  | mult
  | matMult
  | div
  | mod
  | pow
  | leftShift
  | rightShift
  | bitOr
  | bitXor
  | bitAnd
  | floorDiv
  deriving DecidableEq, Repr

instance : Variant BinaryOperator where
  all := [.add, .sub, .mult, .matMult, .div, .mod, .pow, .leftShift, .rightShift, .bitOr,
    .bitXor, .bitAnd, .floorDiv]
  name
    | .add => "Add"
    | .sub => "Sub"
    | .mult => "Mult"
    | .matMult => "MatMult"
    | .div => "Div"
    | .mod => "Mod"
    | .pow => "Pow"
    | .leftShift => "LShift"
    | .rightShift => "RShift"
    | .bitOr => "BitOr"
    | .bitXor => "BitXor"
    | .bitAnd => "BitAnd"
    | .floorDiv => "FloorDiv"

/-- Operators before one operand. -/
inductive UnaryOperator where
  | invert
  | not
  | plus
  | minus
  deriving DecidableEq, Repr

instance : Variant UnaryOperator where
  all := [.invert, .not, .plus, .minus]
  name
    | .invert => "Invert"
    | .not => "Not"
    | .plus => "UAdd"
    | .minus => "USub"

/-- Comparisons. -/
inductive CmpOperator where
  | eq
  | notEq
  | lt
  | ltEq
  | gt
  | gtEq
  | is
  | isNot
  | isIn
  | notIn
  deriving DecidableEq, Repr

instance : Variant CmpOperator where
  all := [.eq, .notEq, .lt, .ltEq, .gt, .gtEq, .is, .isNot, .isIn, .notIn]
  name
    | .eq => "Eq"
    | .notEq => "NotEq"
    | .lt => "Lt"
    | .ltEq => "LtE"
    | .gt => "Gt"
    | .gtEq => "GtE"
    | .is => "Is"
    | .isNot => "IsNot"
    | .isIn => "In"
    | .notIn => "NotIn"

end ScriptTree
