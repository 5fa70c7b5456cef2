/-
  ScriptTree/Tree/Mismatch.lean
  =============================
  **A JSON value that has not the shape of what it should stand for**: what was found, what was
  expected, and the wording of both.
-/
import ScriptTree.Json.Writer
import ScriptTree.Text.Quoted

namespace ScriptTree

/-- What a value is, as far as a message tells. -/
inductive Found where
  | null
  | bool (b : Bool)
  | int (n : Int)
  | float (x : Float)
  | str (s : String)
  | sequence
  | map
  deriving DecidableEq

/-- What is found where a value stands. -/
def Found.ofJson : Json → Found
  | .null => .null
  | .bool b => .bool b
  | .int n => .int n
  | .float x => .float x
  | .str s => .str s
  | .arr _ => .sequence
  | .obj _ => .map

/-- The wording of what was found. -/
def Found.message : Found → String
  | .null => "null"
  | .bool b => "boolean `" ++ (if b then "true" else "false") ++ "`"
  | .int n => "integer `" ++ Decimal.intText n ++ "`"
  | .float x => "floating point `" ++ Json.floatLayout.text x ++ "`"
  | .str s => "string " ++ Text.quoted s
  | .sequence => "sequence"
  | .map => "map"

/-- What a value should have been. -/
inductive Expected where
  | node
  | sequence
  | string
  | unsigned
  | loc
  | locOfTwo
  | elements (count : Nat)
  | unit
  | stringOrMap
  | singleKeyMap
  | variant
  | variantIndex (count : Nat)
  | alias
  | aliasOfTwo
  | withItem
  | withItemOfTwo
  deriving DecidableEq, Repr

/-- The wording of what was expected. -/
def Expected.message : Expected → String
  | .node => "struct Node"
  | .sequence => "a sequence"
  | .string => "a string"
  | .unsigned => "u32"
  | .loc => "tuple struct Loc"
  | .locOfTwo => "tuple struct Loc with 2 elements"
  | .elements count => Nat.repr count ++ " elements in sequence"
  | .unit => "unit"
  | .stringOrMap => "string or map"
  | .singleKeyMap => "map with a single key"
  | .variant => "variant identifier"
  | .variantIndex count => "variant index 0 <= i < " ++ Nat.repr count
  | .alias => "struct Alias"
  | .aliasOfTwo => "struct Alias with 2 elements"
  | .withItem => "struct WithItem"
  | .withItemOfTwo => "struct WithItem with 2 elements"

/-- Why a value does not stand for what it should. -/
inductive Mismatch where
  | type (found : Found) (expected : Expected)
  | value (found : Found) (expected : Expected)
  | length (count : Nat) (expected : Expected)
  | unknownVariant (name : String) (known : List String)
  | missingField (name : String)
  | duplicateField (name : String)
  | notConstant
  deriving DecidableEq

/-- A name as messages show it. -/
def ticked (s : String) : String := "`" ++ s ++ "`"

/-- The alternatives of a choice. -/
def alternatives : List String → String
  | [] => "there are no variants"
  | [a] => "expected " ++ ticked a
  | [a, b] => "expected " ++ ticked a ++ " or " ++ ticked b
  | names => "expected one of " ++ ", ".intercalate (names.map ticked)

/-- The wording of a mismatch. -/
def Mismatch.message : Mismatch → String
  | .type found expected => "invalid type: " ++ found.message ++ ", expected " ++ expected.message
  | .value found expected => "invalid value: " ++ found.message ++ ", expected " ++ expected.message
  | .length count expected =>
    "invalid length " ++ Nat.repr count ++ ", expected " ++ expected.message
  | .unknownVariant name known => "unknown variant " ++ ticked name ++ ", " ++ alternatives known
  | .missingField name => "missing field " ++ ticked name
  | .duplicateField name => "duplicate field " ++ ticked name
  | .notConstant => "data did not match any variant of untagged enum ConstValue"

/-- A value of the wrong type. -/
def wrongType {α : Type} (j : Json) (expected : Expected) : Except Mismatch α :=
  .error (.type (Found.ofJson j) expected)

end ScriptTree
