/-
  ScriptTree/Tree/Decode.lean
  ===========================
  **Trees from JSON values.**  A node is an object with an optional `loc`, a tag `$t` where the node
  has a choice of kinds, and the fields of its kind beside them; other members are passed over.
  Bad or repeated locations are refused first, then the tag, then the fields in the order written,
  then missing fields in the order declared.

  Each layer is read by a function of the reader for the layers below, so the recursion is only in
  `Expr.decode` and `Stmt.decode`, over the depth of the value.
-/
import ScriptTree.Tree.Record
import ScriptTree.Tree.Stmt

namespace ScriptTree

/-- Reads a value or says why it does not fit. -/
abbrev Decoder (α : Type) := Json → Except Mismatch α

namespace Decoder

/-! ### Scalars and lists -/

/-- A string. -/
def string : Decoder String
  | .str s => .ok s
  | j => wrongType j .string

/-- Nothing for null, something otherwise. -/
def optionOf {α : Type} (decode : Decoder α) : Decoder (Option α)
  | .null => .ok none
  | j => (decode j).map some

/-- Every item of a list, in order. -/
def items {α : Type} (decode : Decoder α) : List Json → Except Mismatch (List α)
  | [] => .ok []
  | j :: rest => do
    let a ← decode j
    let as ← items decode rest
    return a :: as

/-- A list. -/
def listOf {α : Type} (decode : Decoder α) : Decoder (List α)
  | .arr js => items decode js
  | j => wrongType j .sequence

/-- A number of 32 bits without sign. -/
def unsigned : Decoder UInt32
  | .int n =>
    if 0 ≤ n ∧ n < (UInt32.size : Int) then .ok (UInt32.ofNat n.toNat)
    else .error (.value (.int n) .unsigned)
  | j => wrongType j .unsigned

/-- A location: a list of exactly two numbers. -/
def loc : Decoder Loc
  | .arr [] => .error (.length 0 .locOfTwo)
  | .arr [line] => do
    let _ ← unsigned line
    throw (.length 1 .locOfTwo)
  | .arr (line :: column :: more) => do
    let line ← unsigned line
    let column ← unsigned column
    if more.isEmpty then return ⟨line, column⟩
    else throw (.length (more.length + 2) (.elements 2))
  | j => wrongType j .loc

/-- A constant. -/
def scalar : Decoder Constant := fun j =>
  match Constant.ofJson? j with
  | some c => .ok c
  | none => .error .notConstant

/-! ### Alternatives by name -/

/-- The alternative of a name. -/
def variantOfName (κ : Type) [Variant κ] (s : String) : Except Mismatch κ :=
  match Variant.ofName? κ s with
  | some k => .ok k
  | none => .error (.unknownVariant s (Variant.names κ))

/-- An alternative given by its name or by its place in the list. -/
def tag (κ : Type) [Variant κ] : Decoder κ
  | .str s => variantOfName κ s
  | .int n =>
    if n < 0 then wrongType (.int n) .variant
    else
      match Variant.ofIndex? κ n.toNat with
      | some k => .ok k
      | none => .error (.value (.int n) (.variantIndex (Variant.names κ).length))
  | j => wrongType j .variant

/-- What may stand beside the name of an alternative that holds nothing. -/
def unit : Decoder Unit
  | .null => .ok ()
  | .obj [] => .ok ()
  | j => wrongType j .unit

/-- An alternative given by its name, or as an object whose only key is its name. -/
def variant (κ : Type) [Variant κ] : Decoder κ
  | .str s => variantOfName κ s
  | .obj [(key, j)] => do
    let k ← variantOfName κ key
    unit j
    return k
  | .obj _ => .error (.value .map .singleKeyMap)
  | j => wrongType j .stringOrMap

/-! ### Nodes -/

/-- The members of an object, where a node is expected. -/
def members : Decoder (List (String × Json))
  | .obj ms => .ok ms
  | j => wrongType j .node

/-- Takes a field out of the members of a node; `found` is its value if it was seen before. -/
def takeField {α : Type} (name : String) (decode : Decoder α) (found : Option α) :
    List (String × Json) → Except Mismatch (Option α × List (String × Json))
  | [] => .ok (found, [])
  | (key, j) :: rest =>
    if key = name then
      match found with
      | some _ => .error (.duplicateField name)
      | none => do
        let a ← decode j
        takeField name decode (some a) rest
    else do
      let (a, others) ← takeField name decode found rest
      return (a, (key, j) :: others)

/-- The location of a node, synthetic when left out, and its other members. -/
def splitLoc (ms : List (String × Json)) : Except Mismatch (Loc × List (String × Json)) := do
  let (l, others) ← takeField "loc" loc none ms
  return (l.getD Loc.synthetic, others)

/-- The key that tells the kind of a node. -/
def tagKey : String := "$t"

/-- The kind of a node and its other members. -/
def splitTag (κ : Type) [Variant κ] (ms : List (String × Json)) :
    Except Mismatch (κ × List (String × Json)) := do
  let (k, others) ← takeField tagKey (tag κ) none ms
  match k with
  | some k => return (k, others)
  | none => throw (.missingField tagKey)

/-- A node without a choice of kinds: its location and the record of its fields. -/
def node {α : Type} (fields : Loc → RecordReader α) : Decoder α := fun j => do
  let ms ← members j
  let (l, others) ← splitLoc ms
  (fields l).read others

end Decoder

open Decoder RecordReader

/-! ### Expressions -/

/-- The fields of a parameter. -/
def Param.fields (l : Loc) : RecordReader Param := Param.mk l <$> required "arg" string

/-- The fields of a parameter list. -/
def Params.fields {ε : Type} (child : Decoder ε) (l : Loc) : RecordReader (Params ε) :=
  Params.mk l
    <$> withDefault "posonlyargs" (listOf (node Param.fields)) []
    <*> withDefault "args" (listOf (node Param.fields)) []
    <*> withDefault "vararg" (optionOf (node Param.fields)) none
    <*> withDefault "kwonlyargs" (listOf (node Param.fields)) []
    <*> withDefault "kwarg" (optionOf (node Param.fields)) none
    <*> withDefault "defaults" (listOf child) []

/-- The fields of a named argument. -/
def Keyword.fields {ε : Type} (child : Decoder ε) (l : Loc) : RecordReader (Keyword ε) :=
  Keyword.mk l <$> withDefault "arg" (optionOf string) none <*> required "value" child

/-- The fields of a comprehension loop. -/
def Comprehension.fields {ε : Type} (child : Decoder ε) (l : Loc) :
    RecordReader (Comprehension ε) :=
  Comprehension.mk l <$> required "target" child <*> required "iter" child
    <*> withDefault "ifs" (listOf child) []

/-- The fields of each kind of expression. -/
def ExprForm.fields {ε : Type} (child : Decoder ε) : ExprKind → RecordReader (ExprForm ε)
  | .boolOp =>
    .boolOp <$> required "op" (variant BoolOperator) <*> required "values" (listOf child)
  | .binOp =>
    .binOp <$> required "left" child <*> required "op" (variant BinaryOperator)
      <*> required "right" child
  | .unaryOp => .unaryOp <$> required "op" (variant UnaryOperator) <*> required "operand" child
  | .lambda => .lambda <$> required "args" (node (Params.fields child)) <*> required "body" child
  | .ifExp => .ifExp <$> required "test" child <*> required "body" child <*> required "orelse" child
  | .dict => .dict <$> required "keys" (listOf (optionOf child)) <*> required "values" (listOf child)
  | .compare =>
    .compare <$> required "left" child <*> required "ops" (listOf (variant CmpOperator))
      <*> required "comparators" (listOf child)
  | .call =>
    .call <$> required "func" child <*> withDefault "args" (listOf child) []
      <*> withDefault "keywords" (listOf (node (Keyword.fields child))) []
  | .constant => .constant <$> required "value" scalar
  | .attribute => .attribute <$> required "value" child <*> required "attr" string
  | .subscript => .subscript <$> required "value" child <*> required "slice" child
  | .name => .name <$> required "id" string
  | .list => .list <$> required "elts" (listOf child)
  | .starred => .starred <$> required "value" child
  | .tuple => .tuple <$> required "elts" (listOf child)
  | .set => .set <$> required "elts" (listOf child)
  | .listComp =>
    .listComp <$> required "elt" child
      <*> required "generators" (listOf (node (Comprehension.fields child)))
  | .dictComp =>
    .dictComp <$> required "key" child <*> required "value" child
      <*> required "generators" (listOf (node (Comprehension.fields child)))
  | .generatorExp =>
    .generatorExp <$> required "elt" child
      <*> required "generators" (listOf (node (Comprehension.fields child)))
  | .await => .await <$> required "value" child
  | .yield => .yield <$> withDefault "value" (optionOf child) none
  | .namedExpr => .namedExpr <$> required "target" child <*> required "value" child
  | .slice =>
    .slice <$> withDefault "lower" (optionOf child) none <*> withDefault "upper" (optionOf child) none
      <*> withDefault "step" (optionOf child) none
  | .joinedStr => .joinedStr <$> required "values" (listOf child)

/-- An expression from its location and its other members. -/
def Expr.ofMembers (child : Decoder Expr) (l : Loc) (ms : List (String × Json)) :
    Except Mismatch Expr := do
  let (kind, others) ← splitTag ExprKind ms
  let form ← (ExprForm.fields child kind).read others
  return ⟨l, form⟩

/-- An expression; the number bounds the depth of the value. -/
def Expr.decode : Nat → Decoder Expr
  | 0 => fun j => wrongType j .node
  | depth + 1 => fun j => do
    let ms ← members j
    let (l, others) ← splitLoc ms
    Expr.ofMembers (Expr.decode depth) l others

/-- The expression that a JSON value stands for. -/
def Expr.ofJson : Decoder Expr := fun j => Expr.decode j.depth j

/-! ### Statements -/

/-- A record that is also accepted as the list of its two fields, the second optional. -/
def Decoder.pair {α β γ : Type} (make : α → Option β → γ) (first : Decoder α) (second : Decoder β)
    (names : String × String) (whole two : Expected) : Decoder γ
  | .obj ms => (make <$> required names.1 first <*> withDefault names.2 (optionOf second) none).read ms
  | .arr [] => .error (.length 0 two)
  | .arr [j] => do
    let a ← first j
    return make a none
  | .arr (j :: k :: more) => do
    let a ← first j
    let b ← optionOf second k
    if more.isEmpty then return make a b
    else throw (.length (more.length + 2) (.elements 2))
  | j => wrongType j whole

/-- An imported name. -/
def Alias.decode : Decoder Alias :=
  Decoder.pair Alias.mk string string ("name", "asname") .alias .aliasOfTwo

/-- An item of a `with` statement. -/
def WithItem.decode {ε : Type} (child : Decoder ε) : Decoder (WithItem ε) :=
  Decoder.pair WithItem.mk child child ("context_expr", "optional_vars") .withItem .withItemOfTwo

/-- The fields of a handler. -/
def Handler.fields {σ ε : Type} (stmt : Decoder σ) (expr : Decoder ε) (l : Loc) :
    RecordReader (Handler σ ε) :=
  Handler.mk l <$> withDefault "type" (optionOf expr) none <*> withDefault "name" (optionOf string) none
    <*> required "body" (listOf stmt)

/-- The fields of each kind of statement. -/
def StmtForm.fields {σ ε : Type} (stmt : Decoder σ) (expr : Decoder ε) :
    StmtKind → RecordReader (StmtForm σ ε)
  | .functionDef =>
    .functionDef <$> required "name" string <*> required "args" (node (Params.fields expr))
      <*> required "body" (listOf stmt) <*> withDefault "decorator_list" (listOf expr) []
  | .ret => .ret <$> withDefault "value" (optionOf expr) none
  | .delete => .delete <$> required "targets" (listOf expr)
  | .assign => .assign <$> required "targets" (listOf expr) <*> required "value" expr
  | .augAssign =>
    .augAssign <$> required "target" expr <*> required "op" (variant BinaryOperator)
      <*> required "value" expr
  | .forLoop =>
    .forLoop <$> required "target" expr <*> required "iter" expr <*> required "body" (listOf stmt)
      <*> withDefault "orelse" (listOf stmt) []
  | .whileLoop =>
    .whileLoop <$> required "test" expr <*> required "body" (listOf stmt)
      <*> withDefault "orelse" (listOf stmt) []
  | .cond =>
    .cond <$> required "test" expr <*> required "body" (listOf stmt)
      <*> withDefault "orelse" (listOf stmt) []
  | .raise => .raise <$> withDefault "exc" (optionOf expr) none <*> withDefault "cause" (optionOf expr) none
  | .expr => .expr <$> required "value" expr
  | .pass => pure .pass
  | .breakLoop => pure .breakLoop
  | .continueLoop => pure .continueLoop
  | .classDef =>
    .classDef <$> required "name" string <*> withDefault "bases" (listOf expr) []
      <*> required "body" (listOf stmt) <*> withDefault "decorator_list" (listOf expr) []
  | .tryStmt =>
    .tryStmt <$> required "body" (listOf stmt)
      <*> withDefault "handlers" (listOf (node (Handler.fields stmt expr))) []
      <*> withDefault "orelse" (listOf stmt) [] <*> withDefault "finalbody" (listOf stmt) []
  | .withStmt => .withStmt <$> required "items" (listOf (WithItem.decode expr))
      <*> required "body" (listOf stmt)
  | .assert => .assert <$> required "test" expr <*> withDefault "msg" (optionOf expr) none
  | .importStmt => .importStmt <$> required "names" (listOf Alias.decode)
  | .globalStmt => .globalStmt <$> required "names" (listOf string)
  | .nonlocalStmt => .nonlocalStmt <$> required "names" (listOf string)

/-- A statement from its location and its other members. -/
def Stmt.ofMembers (stmt : Decoder Stmt) (expr : Decoder Expr) (l : Loc)
    (ms : List (String × Json)) : Except Mismatch Stmt := do
  let (kind, others) ← splitTag StmtKind ms
  let form ← (StmtForm.fields stmt expr kind).read others
  return ⟨l, form⟩

/-- A statement; the number bounds the depth of the value. -/
def Stmt.decode : Nat → Decoder Stmt
  | 0 => fun j => wrongType j .node
  | depth + 1 => fun j => do
    let ms ← members j
    let (l, others) ← splitLoc ms
    Stmt.ofMembers (Stmt.decode depth) Expr.ofJson l others

/-- The statement that a JSON value stands for. -/
def Stmt.ofJson : Decoder Stmt := fun j => Stmt.decode j.depth j

/-- The fields of a module. -/
def Module.fields (l : Loc) : RecordReader Module :=
  Module.mk l <$> required "body" (listOf Stmt.ofJson)

/-- The module that a JSON value stands for. -/
def Module.ofJson : Decoder Module := node Module.fields

end ScriptTree
