/-
  ScriptTree/Render/Stmt.lean
  ===========================
  **The rules for statements.**  As for expressions, `StmtForm.render` is the rule of one layer and
  `Stmt.render` applies it at every node.  The first assignment of a name in a body declares it.
-/
import ScriptTree.Render.Expr

namespace ScriptTree

variable {κ : Type}

/-- A statement as the statement around it sees it: where it is from and how to render it. -/
structure Emitter (κ : Type) where
  loc : Loc
  emit : Emit κ

/-- Whether the text of a target refers into something, so that it is never declared. -/
def isReference (text : String) : Bool := text.toList.any fun c => c = '.' || c = '['

/-- Assigns a value to a target, with `var` if the target is a name not yet declared. -/
def assignTo (value : String) (target : Render κ String) : Render κ String := do
  let name ← target
  let known ← Render.isDeclared name
  if isReference name || known then
    Render.report (.assignment name false)
    return name ++ " = " ++ value
  else
    Render.report (.assignment name true)
    Render.declare name
    return "var " ++ name ++ " = " ++ value

namespace StmtForm

variable [DecidableEq κ] (keyOf : Place → κ)

/-- The node of a form as its rule sees it. -/
def site (form : StmtForm (Emitter κ) Expr) (p : Place) : Site κ where
  key := keyOf p
  kind := .stmt form.kind
  fields := (form.table?.getD []).map fun (f, v) =>
    (f, v.atPlace Emitter.emit (Expr.render keyOf) p f)

/-- The expressions in a field of the node at a place. -/
def placedExprs (p : Place) (f : Field) (es : List Expr) : List (Render κ String) :=
  placed p f (es.map (Expr.render keyOf))

/-- The rule of a form for the node at a place. -/
def rule (form : StmtForm (Emitter κ) Expr) (p : Place) : Render κ String :=
  let site := form.site keyOf p
  match form with
  | .functionDef _ params _ decorators =>
    match decorators with
    | decorator :: _ => Render.around decorator.loc (Render.unsupported .decorators)
    | [] => do
      let name ← site.rawAttr .name
      Render.inScope params.boundNames do
        let paramsText ← (params.map (Expr.render keyOf)).render p
        let body ← site.attr .body
        return "function " ++ name ++ "(" ++ paramsText ++ ") \x7b\n" ++ body ++ "\n\x7d"
  | .ret _ => site.template Template.ret
  | .delete targets => do
    let texts ← Render.all (placedExprs keyOf p .targets targets)
    return ";\n".intercalate (texts.map ("delete " ++ ·))
  | .assign targets _ => do
    let value ← site.attr .value
    Render.joined ";\n" ((placedExprs keyOf p .targets targets).map (assignTo value))
  | .augAssign _ .floorDiv _ => site.template Template.augAssignFloorDiv
  | .augAssign .. => site.template Template.augAssign
  | .forLoop target _ _ orelse =>
    match orelse, target.form with
    | stmt :: _, _ => Render.around stmt.loc (Render.unsupported .forElse)
    | [], .name id => do
      let iter ← site.attr .iter
      Render.inScope [id] do
        let body ← site.attr .body
        return iter ++ ".forEach((" ++ id ++ ", _i) => \x7b\n" ++ body ++ "\n\x7d)"
    | [], _ => Render.around target.loc (Render.unsupported (.loopTarget target.kind))
  | .whileLoop _ _ orelse =>
    match orelse with
    | stmt :: _ => Render.around stmt.loc (Render.unsupported .whileElse)
    | [] => site.template Template.whileLoop
  | .cond .. => site.template Template.cond
  | .raise _ cause =>
    match cause with
    | some cause => Render.around cause.loc (Render.unsupported .raiseFrom)
    | none => site.template Template.raise
  | .expr _ => site.template Template.expr
  | .pass => site.template Template.pass
  | .breakLoop => site.template Template.breakLoop
  | .continueLoop => site.template Template.continueLoop
  | .classDef .. | .tryStmt .. | .withStmt .. | .assert .. | .importStmt _ | .globalStmt _
  | .nonlocalStmt _ => Render.unsupported (.node (.stmt form.kind))

/-- How the node of a form is rendered: by its rule, and errors get its location if they have
    none. -/
def render (l : Loc) (form : StmtForm (Emitter κ) Expr) : Emitter κ where
  loc := l
  emit p := Render.around l (form.rule keyOf p)

end StmtForm

variable [DecidableEq κ]

/-- A statement with the way to render it. -/
def Stmt.emitter (keyOf : Place → κ) : Stmt → Emitter κ := Stmt.fold (StmtForm.render keyOf)

/-- How a statement is rendered at a place. -/
def Stmt.render (keyOf : Place → κ) (s : Stmt) : Emit κ := (s.emitter keyOf).emit

/-- The statements at the top of a tree. -/
def renderAll (keyOf : Place → κ) (stmts : List Stmt) : Render κ String :=
  Render.joined ";\n" (placed [] .body (stmts.map (Stmt.render keyOf)))

/-! ### Passes -/

namespace Renderer

/-- A renderer that starts with the given scopes. -/
def withScopes (scopes : ScopeStack) : Renderer κ := ⟨scopes, AttrCache.empty⟩

/-- A renderer that starts at a top level where nothing is declared. -/
def new : Renderer κ := withScopes ScopeStack.new

/-- What the last pass computed and reused. -/
def stats (r : Renderer κ) : Stats := r.cache.stats

/-- The renderer at the start of a pass: what is declared stays, cached texts do not. -/
def startPass (r : Renderer κ) : Renderer κ := { r with cache := r.cache.clear }

/-- A pass over statements. -/
def renderStmts (keyOf : Place → κ) (stmts : List Stmt) : Render κ String := fun r =>
  renderAll keyOf stmts r.startPass

/-- A pass over one expression. -/
def renderExpr (keyOf : Place → κ) (e : Expr) : Render κ String := fun r =>
  e.render keyOf [] r.startPass

end Renderer

end ScriptTree
