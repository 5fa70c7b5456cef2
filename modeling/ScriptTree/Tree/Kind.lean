/-
  ScriptTree/Tree/Kind.lean
  =========================
  **The kinds of nodes**, as trees in JSON and messages name them.
-/
import ScriptTree.Tree.Variant

namespace ScriptTree

/-- The kinds of statements. -/
inductive StmtKind where
  | functionDef
  | ret
  | delete
  | assign
  | augAssign
  | forLoop
  | whileLoop
  | cond
  | raise
  | expr
  | pass
  | breakLoop
  | continueLoop
  | classDef
  | tryStmt
  | withStmt
  | assert
  | importStmt
  | globalStmt
  | nonlocalStmt
  deriving DecidableEq, Repr

instance : Variant StmtKind where
  all := [.functionDef, .ret, .delete, .assign, .augAssign, .forLoop, .whileLoop, .cond, .raise,
    .expr, .pass, .breakLoop, .continueLoop, .classDef, .tryStmt, .withStmt, .assert,
    .importStmt, .globalStmt, .nonlocalStmt]
  name
    | .functionDef => "FunctionDef"
    | .ret => "Return"
    | .delete => "Delete"
    | .assign => "Assign"
    | .augAssign => "AugAssign"
    | .forLoop => "For"
    | .whileLoop => "While"
    | .cond => "If"
    | .raise => "Raise"
    | .expr => "Expr"
    | .pass => "Pass"
    | .breakLoop => "Break"
    | .continueLoop => "Continue"
    | .classDef => "ClassDef"
    | .tryStmt => "Try"
    | .withStmt => "With"
    | .assert => "Assert"
    | .importStmt => "Import"
    | .globalStmt => "Global"
    | .nonlocalStmt => "Nonlocal"

/-- The kinds of expressions. -/
inductive ExprKind where
  | boolOp
  | binOp
  | unaryOp
  | lambda
  | ifExp
  | dict
  | compare
  | call
  | constant
  | attribute
  | subscript
  | name
  | list
  | starred
  | tuple
  | set
  | listComp
  | dictComp
  | generatorExp
  | await
  | yield
  | namedExpr
  | slice
  | joinedStr
  deriving DecidableEq, Repr

instance : Variant ExprKind where
  all := [.boolOp, .binOp, .unaryOp, .lambda, .ifExp, .dict, .compare, .call, .constant,
    .attribute, .subscript, .name, .list, .starred, .tuple, .set, .listComp, .dictComp,
    .generatorExp, .await, .yield, .namedExpr, .slice, .joinedStr]
  name
    | .boolOp => "BoolOp"
    | .binOp => "BinOp"
    | .unaryOp => "UnaryOp"
    | .lambda => "Lambda"
    | .ifExp => "IfExp"
    | .dict => "Dict"
    | .compare => "Compare"
    | .call => "Call"
    | .constant => "Constant"
    | .attribute => "Attribute"
    | .subscript => "Subscript"
    | .name => "Name"
    | .list => "List"
    | .starred => "Starred"
    | .tuple => "Tuple"
    | .set => "Set"
    | .listComp => "ListComp"
    | .dictComp => "DictComp"
    | .generatorExp => "GeneratorExp"
    | .await => "Await"
    | .yield => "Yield"
    | .namedExpr => "NamedExpr"
    | .slice => "Slice"
    | .joinedStr => "JoinedStr"

/-- The kind of a statement or an expression. -/
inductive NodeKind where
  | stmt (k : StmtKind)
  | expr (k : ExprKind)
  deriving DecidableEq, Repr

/-- The name of a kind. -/
def NodeKind.name : NodeKind → String
  | .stmt k => Variant.name k
  | .expr k => Variant.name k

end ScriptTree
