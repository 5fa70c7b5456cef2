/-
  ScriptTree/Script/Binding.lean
  ==============================
  **Bindings**: variables whose values are given as JSON.  A value becomes the expression that
  produces it, and a binding the assignment of that expression to its name.
-/
import ScriptTree.Json.Reader
import ScriptTree.Tree.Stmt

namespace ScriptTree

/-- An expression that stands for no piece of source. -/
def ExprForm.made (form : ExprForm Expr) : Expr := ⟨Loc.synthetic, form⟩

namespace Json

mutual

/-- The expression that produces a value. -/
def toExpr : Json → Expr
  | .null => ExprForm.made (.constant .null)
  | .bool b => ExprForm.made (.constant (.bool b))
  | .int n => ExprForm.made (.constant (Constant.ofInt n))
  | .float x => ExprForm.made (.constant (.float x))
  | .str s => ExprForm.made (.constant (.str s))
  | .arr items => ExprForm.made (.list (itemExprs items))
  | .obj members => ExprForm.made (.dict (members.map keyExpr) (memberExprs members))

/-- The expressions that produce the items of an array. -/
def itemExprs : List Json → List Expr
  | [] => []
  | j :: rest => j.toExpr :: itemExprs rest

/-- The expressions that produce the values of an object. -/
def memberExprs : List (String × Json) → List Expr
  | [] => []
  | (_, j) :: rest => j.toExpr :: memberExprs rest

/-- The expression of the key of a member. -/
def keyExpr (m : String × Json) : Option Expr := some (ExprForm.made (.constant (.str m.1)))

end

end Json

/-- A variable and its value. -/
structure Binding where
  name : String
  value : Json

/-- The assignment that a binding stands for. -/
def Binding.stmt (b : Binding) : Stmt :=
  ⟨Loc.synthetic, .assign [ExprForm.made (.name b.name)] b.value.toExpr⟩

/-- Why a text is no binding. -/
inductive BindingError where
  | noEquals (text : String)
  | emptyName
  | invalidValue (name : String) (error : Json.SyntaxError)
  deriving DecidableEq, Repr

/-- The wording of a binding error. -/
def BindingError.message : BindingError → String
  | .noEquals text => "expected NAME=JSON, got `" ++ text ++ "`"
  | .emptyName => "binding name is empty"
  | .invalidValue name error => "invalid JSON for `" ++ name ++ "`: " ++ error.message

/-- Reads a binding: a name, an equals sign, and a value as JSON text. -/
def Binding.parse (text : String) : Except BindingError Binding :=
  let (name, tail) := text.toList.span (· != '=')
  match tail with
  | [] => .error (.noEquals text)
  | _ :: json =>
    if name.isEmpty then .error .emptyName
    else
      match Json.parse (String.ofList json) with
      | .ok value => .ok ⟨String.ofList name, value⟩
      | .error e => .error (.invalidValue (String.ofList name) e)

end ScriptTree
