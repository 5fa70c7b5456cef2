/-
  ScriptTree/Tree/Encode.lean
  ===========================
  **Trees as JSON values.**  A node is written with its location first, then the tag where it has a
  choice of kinds, then every field of its kind in the order declared.
-/
import ScriptTree.Tree.Decode

namespace ScriptTree

/-- A location as a list of two numbers. -/
def Loc.toJson (l : Loc) : Json := .arr [.int l.line.toNat, .int l.column.toNat]

namespace Encoder

/-- An alternative by its name. -/
def variant {κ : Type} [Variant κ] (k : κ) : Json := .str (Variant.name k)

/-- Null for nothing. -/
def option {α : Type} (f : α → Json) : Option α → Json
  | none => .null
  | some a => f a

/-- A list, item by item. -/
def list {α : Type} (f : α → Json) (as : List α) : Json := .arr (as.map f)

/-- A node: its location, then its other members. -/
def node (l : Loc) (ms : List (String × Json)) : Json := .obj (("loc", l.toJson) :: ms)

end Encoder

open Encoder

/-- A parameter. -/
def Param.toJson (p : Param) : Json := node p.loc [("arg", .str p.name)]

/-- A parameter list whose defaults are already written. -/
def Params.toJson (p : Params Json) : Json :=
  node p.loc [("posonlyargs", Encoder.list Param.toJson p.posOnly),
    ("args", Encoder.list Param.toJson p.args), ("vararg", Encoder.option Param.toJson p.rest),
    ("kwonlyargs", Encoder.list Param.toJson p.kwOnly),
    ("kwarg", Encoder.option Param.toJson p.kwRest), ("defaults", .arr p.defaults)]

/-- A named argument whose value is already written. -/
def Keyword.toJson (k : Keyword Json) : Json :=
  node k.loc [("arg", Encoder.option .str k.arg), ("value", k.value)]

/-- A comprehension loop whose expressions are already written. -/
def Comprehension.toJson (c : Comprehension Json) : Json :=
  node c.loc [("target", c.target), ("iter", c.iter), ("ifs", .arr c.ifs)]

/-- The fields of an expression whose children are already written. -/
def ExprForm.toMembers : ExprForm Json → List (String × Json)
  | .boolOp op values => [("op", Encoder.variant op), ("values", .arr values)]
  | .binOp left op right => [("left", left), ("op", Encoder.variant op), ("right", right)]
  | .unaryOp op operand => [("op", Encoder.variant op), ("operand", operand)]
  | .lambda params body => [("args", params.toJson), ("body", body)]
  | .ifExp test body orelse => [("test", test), ("body", body), ("orelse", orelse)]
  | .dict keys values => [("keys", Encoder.list (Encoder.option id) keys), ("values", .arr values)]
  | .compare left ops comparators =>
    [("left", left), ("ops", Encoder.list Encoder.variant ops), ("comparators", .arr comparators)]
  | .call func args keywords =>
    [("func", func), ("args", .arr args), ("keywords", Encoder.list Keyword.toJson keywords)]
  | .constant value => [("value", value.toJson)]
  | .attribute value attr => [("value", value), ("attr", .str attr)]
  | .subscript value index => [("value", value), ("slice", index)]
  | .name id => [("id", .str id)]
  | .list elts => [("elts", .arr elts)]
  | .starred value => [("value", value)]
  | .tuple elts => [("elts", .arr elts)]
  | .set elts => [("elts", .arr elts)]
  | .listComp elt generators =>
    [("elt", elt), ("generators", Encoder.list Comprehension.toJson generators)]
  | .dictComp key value generators =>
    [("key", key), ("value", value), ("generators", Encoder.list Comprehension.toJson generators)]
  | .generatorExp elt generators =>
    [("elt", elt), ("generators", Encoder.list Comprehension.toJson generators)]
  | .await value => [("value", value)]
  | .yield value => [("value", Encoder.option id value)]
  | .namedExpr target value => [("target", target), ("value", value)]
  | .slice lower upper step =>
    [("lower", Encoder.option id lower), ("upper", Encoder.option id upper),
      ("step", Encoder.option id step)]
  | .joinedStr values => [("values", .arr values)]

/-- A node of an expression whose children are already written. -/
def ExprForm.toNode (l : Loc) (form : ExprForm Json) : Json :=
  node l ((Decoder.tagKey, Encoder.variant form.kind) :: form.toMembers)

/-- The JSON value of an expression. -/
def Expr.toJson : Expr → Json := Expr.fold ExprForm.toNode

/-- A handler whose statements are already written. -/
def Handler.toJson (h : Handler Json Expr) : Json :=
  node h.loc [("type", Encoder.option Expr.toJson h.type), ("name", Encoder.option .str h.name),
    ("body", .arr h.body)]

/-- An item of a `with` statement. -/
def WithItem.toJson (w : WithItem Expr) : Json :=
  .obj [("context_expr", w.context.toJson), ("optional_vars", Encoder.option Expr.toJson w.vars)]

/-- An imported name. -/
def Alias.toJson (a : Alias) : Json :=
  .obj [("name", .str a.name), ("asname", Encoder.option .str a.asName)]

/-- A parameter list. -/
def Params.exprToJson (p : Params Expr) : Json := (p.map Expr.toJson).toJson

/-- The fields of a statement whose statements are already written. -/
def StmtForm.toMembers : StmtForm Json Expr → List (String × Json)
  | .functionDef name params body decorators =>
    [("name", .str name), ("args", params.exprToJson), ("body", .arr body),
      ("decorator_list", Encoder.list Expr.toJson decorators)]
  | .ret value => [("value", Encoder.option Expr.toJson value)]
  | .delete targets => [("targets", Encoder.list Expr.toJson targets)]
  | .assign targets value =>
    [("targets", Encoder.list Expr.toJson targets), ("value", value.toJson)]
  | .augAssign target op value =>
    [("target", target.toJson), ("op", Encoder.variant op), ("value", value.toJson)]
  | .forLoop target iter body orelse =>
    [("target", target.toJson), ("iter", iter.toJson), ("body", .arr body), ("orelse", .arr orelse)]
  | .whileLoop test body orelse =>
    [("test", test.toJson), ("body", .arr body), ("orelse", .arr orelse)]
  | .cond test body orelse => [("test", test.toJson), ("body", .arr body), ("orelse", .arr orelse)]
  | .raise exc cause =>
    [("exc", Encoder.option Expr.toJson exc), ("cause", Encoder.option Expr.toJson cause)]
  | .expr value => [("value", value.toJson)]
  | .pass => []
  | .breakLoop => []
  | .continueLoop => []
  | .classDef name bases body decorators =>
    [("name", .str name), ("bases", Encoder.list Expr.toJson bases), ("body", .arr body),
      ("decorator_list", Encoder.list Expr.toJson decorators)]
  | .tryStmt body handlers orelse final =>
    [("body", .arr body), ("handlers", Encoder.list Handler.toJson handlers),
      ("orelse", .arr orelse), ("finalbody", .arr final)]
  | .withStmt items body => [("items", Encoder.list WithItem.toJson items), ("body", .arr body)]
  | .assert test msg => [("test", test.toJson), ("msg", Encoder.option Expr.toJson msg)]
  | .importStmt names => [("names", Encoder.list Alias.toJson names)]
  | .globalStmt names => [("names", Encoder.list .str names)]
  | .nonlocalStmt names => [("names", Encoder.list .str names)]

/-- A node of a statement whose statements are already written. -/
def StmtForm.toNode (l : Loc) (form : StmtForm Json Expr) : Json :=
  node l ((Decoder.tagKey, Encoder.variant form.kind) :: form.toMembers)

/-- The JSON value of a statement. -/
def Stmt.toJson : Stmt → Json := Stmt.fold StmtForm.toNode

/-- The JSON value of a module. -/
def Module.toJson (m : Module) : Json := node m.loc [("body", Encoder.list Stmt.toJson m.body)]

end ScriptTree
