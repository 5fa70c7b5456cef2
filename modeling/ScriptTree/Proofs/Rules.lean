/-
  ScriptTree/Proofs/Rules.lean
  ============================
  **The rules, told directly.**  The renderer finds the fields of a node in a table, fills templates
  with them and asks its cache before it renders one.  This file tells what comes of each rule
  without tables, templates and cache, and leaves open what an action is: a `Rendition` says how
  actions fail, open scopes, read fields and assign.  Two renditions that are used later are the
  plain renderer, which threads a stack of scopes and reads every field afresh, and the draft, which
  has no scopes and notes down what would be done to them.

  Expressions always give a text.  What statements give is left open too (`τ`), because a draft
  cannot know yet where `var` stands.
-/
import ScriptTree.Render.Stmt

namespace ScriptTree

/-- A way to carry out the rules. -/
class Rendition (M : Type → Type) (τ : outParam Type) extends Monad M where
  fail {α : Type} (e : RenderError) : M α
  /-- Errors get the location of the node around them, unless they have one. -/
  around {α : Type} (l : Loc) (m : M α) : M α
  /-- Runs an action in a scope of its own where some names are declared. -/
  inScope {α : Type} (names : List String) (m : M α) : M α
  read {α : Type} (m : M α) : M α
  /-- Reads a field two times in a row. -/
  readTwice (m : M String) : M (String × String)
  text (s : String) : M τ
  /-- One statement after the other, with nothing in between. -/
  both (m n : M τ) : M τ
  /-- Assigns a value to the target with the given text. -/
  assign (name value : String) : M τ

namespace Rendition

variable {M : Type → Type} {τ : Type} [Rendition M τ]

def unsupported {α : Type} (what : Construct) : M α := fail (.unsupported what)

def given {α : Type} : Except RenderError α → M α
  | .ok a => pure a
  | .error e => fail e

def all {α : Type} : List (M α) → M (List α)
  | [] => pure []
  | m :: rest => do
    let a ← m
    let as ← all rest
    return a :: as

def joined (separator : String) (ms : List (M String)) : M String := do
  let texts ← all ms
  return separator.intercalate texts

def optional : Option (M String) → M String
  | none => pure "null"
  | some m => m

def wrap (before : String) (m : M τ) (after : String) : M τ :=
  both (both (text before) m) (text after)

/-- Statements in order, each but the last followed by a semicolon and a new line. -/
def lines : List (M τ) → M τ
  | [] => text ""
  | [m] => m
  | m :: next :: rest => both (wrap "" m ";\n") (lines (next :: rest))

end Rendition

open Rendition

variable {M : Type → Type} {τ : Type} [Rendition M τ]

/-! ### Expressions -/

namespace Params

def directParam (params : Params (M String)) (i : Nat) (param : Param) : M String :=
  match params.defaultIndex? i with
  | none => pure param.name
  | some j =>
    match params.defaults[j]? with
    | none => pure param.name
    | some default => do
      let text ← default
      return param.name ++ " = " ++ text

def direct (params : Params (M String)) : M String :=
  match params.kwOnly, params.kwRest with
  | param :: _, _ => around param.loc (unsupported .keywordOnlyParams)
  | [], some param => around param.loc (unsupported .keywordRest)
  | [], none => do
    let positional ← all (params.positional.mapIdx params.directParam)
    let rest := params.rest.toList.map fun param => "..." ++ param.name
    return ", ".intercalate (positional ++ rest)

end Params

namespace ExprForm

/-- An entry of a dictionary: the value comes before the key. -/
def directEntry (entry : Option (M String) × M String) : M String := do
  let value ← entry.2
  match entry.1 with
  | none => return "..." ++ value
  | some key =>
    let key ← key
    return key ++ ": " ++ value

/-- What comes of the rule of a form. -/
def direct (form : ExprForm (M String)) : M String :=
  match form with
  | .boolOp op values => do
    let texts ← all values
    return "(" ++ (" " ++ op.spelling ++ " ").intercalate texts ++ ")"
  | .binOp left .floorDiv right => do
    let left ← read left
    let right ← read right
    return "(Math.floor(" ++ left ++ " / " ++ right ++ "))"
  | .binOp left op right => do
    let left ← read left
    let op ← read (given op.spell)
    let right ← read right
    return "(" ++ left ++ " " ++ op ++ " " ++ right ++ ")"
  | .unaryOp op operand => do
    let op ← read (pure op.spelling)
    let operand ← read operand
    return "(" ++ op ++ operand ++ ")"
  | .lambda params body =>
    inScope params.boundNames do
      let paramsText ← params.direct
      let body ← read body
      return "((" ++ paramsText ++ ") => (" ++ body ++ "))"
  | .ifExp test body orelse => do
    let test ← read test
    let body ← read body
    let orelse ← read orelse
    return "((" ++ test ++ ") ? (" ++ body ++ ") : (" ++ orelse ++ "))"
  | .dict keys values => do
    let entries ← all ((keys.zip values).map directEntry)
    return "\x7b" ++ ", ".intercalate entries ++ "\x7d"
  | .compare left ops comparators =>
    if ops.isEmpty || ops.length != comparators.length then
      fail ⟨.missingField (.expr .compare) .comparators, none⟩
    else do
      let left ← read left
      let others ← all comparators
      let pairs ← given (comparisons (left :: others) ops)
      return conjunction pairs
  | .call func args keywords =>
    match keywords with
    | keyword :: _ => around keyword.loc (unsupported .keywordArguments)
    | [] => do
      let func ← read func
      let args ← read (joined ", " args)
      return func ++ "(" ++ args ++ ")"
  | .constant value => pure value.spelling
  | .attribute value attr => do
    let value ← read value
    let attr ← read (pure attr)
    return value ++ "." ++ attr
  | .subscript value index => do
    let value ← read value
    let index ← read index
    return value ++ "[" ++ index ++ "]"
  | .name id => read (pure id)
  | .list elts => do
    let elts ← read (joined ", " elts)
    return "[" ++ elts ++ "]"
  | .starred value => do
    let value ← read value
    return "..." ++ value
  | .tuple _ | .set _ | .listComp .. | .dictComp .. | .generatorExp .. | .await _ | .yield _
  | .namedExpr .. | .slice .. | .joinedStr _ => unsupported (.node (.expr form.kind))

end ExprForm

def Expr.direct : Expr → M String := Expr.fold fun l form => around l form.direct

/-! ### Statements -/

/-- What comes of the rule of a form.  The statements below it are known by their locations and what
    comes of them. -/
def StmtForm.direct (form : StmtForm (Loc × M τ) Expr) : M τ :=
  match form with
  | .functionDef name params body decorators =>
    match decorators with
    | decorator :: _ => around decorator.loc (unsupported .decorators)
    | [] => do
      let name ← read (pure name)
      inScope params.boundNames do
        let paramsText ← (params.map Expr.direct).direct
        wrap ("function " ++ name ++ "(" ++ paramsText ++ ") \x7b\n")
          (read (lines (body.map Prod.snd))) "\n\x7d"
  | .ret value => do
    let value ← read (optional (value.map Expr.direct))
    text ("return " ++ value)
  | .delete targets => do
    let texts ← all (targets.map Expr.direct)
    text (";\n".intercalate (texts.map ("delete " ++ ·)))
  | .assign targets value => do
    let value ← read value.direct
    lines (targets.map fun target => do
      let name ← target.direct
      Rendition.assign name value)
  | .augAssign target .floorDiv value => do
    let (first, second) ← readTwice target.direct
    let value ← read value.direct
    text (first ++ " = Math.floor(" ++ second ++ " / " ++ value ++ ")")
  | .augAssign target op value => do
    let target ← read target.direct
    let op ← read (given op.spell)
    let value ← read value.direct
    text (target ++ " " ++ op ++ "= " ++ value)
  | .forLoop target iter body orelse =>
    match orelse, target.form with
    | stmt :: _, _ => around stmt.1 (unsupported .forElse)
    | [], .name id => do
      let iter ← read iter.direct
      inScope [id] (wrap (iter ++ ".forEach((" ++ id ++ ", _i) => \x7b\n")
        (read (lines (body.map Prod.snd))) "\n\x7d)")
    | [], _ => around target.loc (unsupported (.loopTarget target.kind))
  | .whileLoop test body orelse =>
    match orelse with
    | stmt :: _ => around stmt.1 (unsupported .whileElse)
    | [] => do
      let test ← read test.direct
      wrap ("while (" ++ test ++ ") \x7b\n") (read (lines (body.map Prod.snd))) "\n\x7d"
  | .cond test body orelse => do
    let test ← read test.direct
    both (wrap ("if (" ++ test ++ ") \x7b\n") (read (lines (body.map Prod.snd))) "\n\x7d else \x7b\n")
      (wrap "" (read (lines (orelse.map Prod.snd))) "\n\x7d")
  | .raise exc cause =>
    match cause with
    | some cause => around cause.loc (unsupported .raiseFrom)
    | none => do
      let exc ← read (optional (exc.map Expr.direct))
      text ("throw new Error(" ++ exc ++ ")")
  | .expr value => do
    let value ← read value.direct
    text value
  | .pass => text ""
  | .breakLoop => text "break"
  | .continueLoop => text "continue"
  | .classDef .. | .tryStmt .. | .withStmt .. | .assert .. | .importStmt _ | .globalStmt _
  | .nonlocalStmt _ => unsupported (.node (.stmt form.kind))

/-- A statement with its location and what comes of rendering it. -/
def Stmt.told : Stmt → Loc × M τ := Stmt.fold fun l form => (l, around l form.direct)

/-- What comes of rendering a statement. -/
def Stmt.direct (s : Stmt) : M τ := s.told.2

/-- What comes of rendering the statements at the top of a tree. -/
def directAll (stmts : List Stmt) : M τ := lines (stmts.map Stmt.direct)

/-! ### The recursion of the direct rules -/

theorem Expr.direct_mk (l : Loc) (form : ExprForm Expr) :
    (Expr.direct ⟨l, form⟩ : M String) = around l (form.map Expr.direct).direct :=
  Expr.fold_mk _ l form

theorem Stmt.told_eq (s : Stmt) : (s.told : Loc × M τ) = (s.loc, s.direct) := by
  obtain ⟨l, form⟩ := s
  rw [Stmt.direct, Stmt.told, Stmt.fold_mk]

theorem Stmt.direct_mk (l : Loc) (form : StmtForm Stmt Expr) :
    (Stmt.direct ⟨l, form⟩ : M τ) =
      around l (form.map fun s => (s.loc, (s.direct : M τ))).direct := by
  have told : (fun s : Stmt => (s.loc, (s.direct : M τ))) = Stmt.told :=
    funext fun s => (s.told_eq).symm
  rw [told, Stmt.direct, Stmt.told, Stmt.fold_mk]

end ScriptTree
