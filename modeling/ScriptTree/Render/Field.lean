/-
  ScriptTree/Render/Field.lean
  ============================
  **Fields of a node that a rule can read.**  Each kind of node that is rendered offers some of its
  parts under a name.  The table of a form is generic in what stands for the statements and the
  expressions below it, so the same table serves to inspect a tree and to render it.
-/
import ScriptTree.Tree.Stmt

namespace ScriptTree

/-- The names of the parts that a rule can read. -/
inductive Field where
  | args
  | attr
  | body
  | comparators
  | elts
  | exc
  | func
  | id
  | iter
  | left
  | name
  | op
  | operand
  | orelse
  | right
  | slice
  | target
  | targets
  | test
  | value
  | values
  deriving DecidableEq, Repr

instance : Variant Field where
  all := [.args, .attr, .body, .comparators, .elts, .exc, .func, .id, .iter, .left, .name, .op,
    .operand, .orelse, .right, .slice, .target, .targets, .test, .value, .values]
  name
    | .args => "args"
    | .attr => "attr"
    | .body => "body"
    | .comparators => "comparators"
    | .elts => "elts"
    | .exc => "exc"
    | .func => "func"
    | .id => "id"
    | .iter => "iter"
    | .left => "left"
    | .name => "name"
    | .op => "op"
    | .operand => "operand"
    | .orelse => "orelse"
    | .right => "right"
    | .slice => "slice"
    | .target => "target"
    | .targets => "targets"
    | .test => "test"
    | .value => "value"
    | .values => "values"

/-- What stands in a field. -/
inductive FieldValue (σ ε : Type) where
  | stmts (ss : List σ)
  | expr (e : ε)
  | optExpr (e : Option ε)
  | exprs (es : List ε)
  | ident (s : String)
  | boolOp (op : BoolOperator)
  | binaryOp (op : BinaryOperator)
  | unaryOp (op : UnaryOperator)

/-- The fields that a form offers, `none` for a form without a table. -/
def ExprForm.table? {σ ε : Type} : ExprForm ε → Option (List (Field × FieldValue σ ε))
  | .boolOp op values => some [(.op, .boolOp op), (.values, .exprs values)]
  | .binOp left op right => some [(.left, .expr left), (.op, .binaryOp op), (.right, .expr right)]
  | .unaryOp op operand => some [(.op, .unaryOp op), (.operand, .expr operand)]
  | .lambda _ body => some [(.body, .expr body)]
  | .ifExp test body orelse =>
    some [(.test, .expr test), (.body, .expr body), (.orelse, .expr orelse)]
  | .dict _ values => some [(.values, .exprs values)]
  | .compare left _ comparators =>
    some [(.left, .expr left), (.comparators, .exprs comparators)]
  | .call func args _ => some [(.func, .expr func), (.args, .exprs args)]
  | .attribute value attr => some [(.value, .expr value), (.attr, .ident attr)]
  | .subscript value index => some [(.value, .expr value), (.slice, .expr index)]
  | .name id => some [(.id, .ident id)]
  | .list elts => some [(.elts, .exprs elts)]
  | .starred value => some [(.value, .expr value)]
  | .constant _ | .tuple _ | .set _ | .listComp .. | .dictComp .. | .generatorExp .. | .await _
  | .yield _ | .namedExpr .. | .slice .. | .joinedStr _ => none

/-- The fields that a form offers, `none` for a form without a table. -/
def StmtForm.table? {σ ε : Type} : StmtForm σ ε → Option (List (Field × FieldValue σ ε))
  | .functionDef name _ body _ => some [(.name, .ident name), (.body, .stmts body)]
  | .ret value => some [(.value, .optExpr value)]
  | .delete targets => some [(.targets, .exprs targets)]
  | .assign targets value => some [(.targets, .exprs targets), (.value, .expr value)]
  | .augAssign target op value =>
    some [(.target, .expr target), (.op, .binaryOp op), (.value, .expr value)]
  | .forLoop target iter body orelse =>
    some [(.target, .expr target), (.iter, .expr iter), (.body, .stmts body),
      (.orelse, .stmts orelse)]
  | .whileLoop test body orelse =>
    some [(.test, .expr test), (.body, .stmts body), (.orelse, .stmts orelse)]
  | .cond test body orelse =>
    some [(.test, .expr test), (.body, .stmts body), (.orelse, .stmts orelse)]
  | .raise exc _ => some [(.exc, .optExpr exc)]
  | .expr value => some [(.value, .expr value)]
  | .pass => some []
  | .breakLoop => some []
  | .continueLoop => some []
  | .classDef .. | .tryStmt .. | .withStmt .. | .assert .. | .importStmt _ | .globalStmt _
  | .nonlocalStmt _ => none

end ScriptTree
