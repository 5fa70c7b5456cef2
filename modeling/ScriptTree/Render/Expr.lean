/-
  ScriptTree/Render/Expr.lean
  ===========================
  **The rules for expressions.**  `ExprForm.render` says how a form is rendered whose children
  already know how to render themselves; `Expr.render` applies it at every node.  Operators are
  always bracketed, so no precedence is ever at stake.
-/
import ScriptTree.Render.Site

namespace ScriptTree

variable {κ : Type}

/-- The children in a field of the node at a place. -/
def placed (p : Place) (f : Field) (es : List (Emit κ)) : List (Render κ String) :=
  es.mapIdx fun i e => e (.field f i :: p)

/-! ### Parameter lists -/

namespace Params

/-- The place among the defaults of the one that belongs to the `i`-th positional parameter: the
    defaults are those of the last parameters, or of the first ones when there are too many. -/
def defaultIndex? {ε : Type} (params : Params ε) (i : Nat) : Option Nat :=
  let first := params.positional.length - params.defaults.length
  if i < first then none else some (i - first)

/-- The text of the `i`-th positional parameter. -/
def renderParam (params : Params (Emit κ)) (p : Place) (i : Nat) (param : Param) :
    Render κ String :=
  match params.defaultIndex? i with
  | none => pure param.name
  | some j =>
    match params.defaults[j]? with
    | none => pure param.name
    | some default => do
      let text ← default (.default j :: p)
      return param.name ++ " = " ++ text

/-- The text of a parameter list. -/
def render (params : Params (Emit κ)) (p : Place) : Render κ String :=
  match params.kwOnly, params.kwRest with
  | param :: _, _ => Render.around param.loc (Render.unsupported .keywordOnlyParams)
  | [], some param => Render.around param.loc (Render.unsupported .keywordRest)
  | [], none => do
    let positional ← Render.all (params.positional.mapIdx (params.renderParam p))
    let rest := params.rest.toList.map fun param => "..." ++ param.name
    return ", ".intercalate (positional ++ rest)

end Params

namespace ExprForm

/-! ### Dictionaries and comparisons -/

/-- An entry of a dictionary: the value is rendered before the key; without a key it is spread. -/
def renderEntry (p : Place) (i : Nat) (entry : Option (Emit κ) × Emit κ) : Render κ String := do
  let value ← entry.2 (.field .values i :: p)
  match entry.1 with
  | none => return "..." ++ value
  | some key =>
    let key ← key (.key i :: p)
    return key ++ ": " ++ value

/-- The comparisons between neighbours of a chain of operands. -/
def comparisons : List String → List CmpOperator → Except RenderError (List String)
  | left :: right :: rest, op :: ops => do
    let spelling ← op.spell
    let others ← comparisons (right :: rest) ops
    return ("(" ++ left ++ " " ++ spelling ++ " " ++ right ++ ")") :: others
  | _, _ => .ok []

/-- The conjunction of comparisons. -/
def conjunction : List String → String
  | [single] => single
  | pairs => "(" ++ " && ".intercalate pairs ++ ")"

/-! ### All forms -/

/-- The node of a form as its rule sees it. -/
def site (keyOf : Place → κ) (form : ExprForm (Emit κ)) (p : Place) : Site κ where
  key := keyOf p
  kind := .expr form.kind
  fields := (form.table?.getD []).map fun (f, v) => (f, v.atPlace (σ := Emit κ) id id p f)

variable [DecidableEq κ]

/-- The rule of a form for the node at a place. -/
def rule (keyOf : Place → κ) (form : ExprForm (Emit κ)) (p : Place) : Render κ String :=
  let site := form.site keyOf p
  match form with
  | .boolOp op values => do
    let texts ← Render.all (placed p .values values)
    return "(" ++ (" " ++ op.spelling ++ " ").intercalate texts ++ ")"
  | .binOp _ .floorDiv _ => site.template Template.binOpFloorDiv
  | .binOp .. => site.template Template.binOp
  | .unaryOp .. => site.template Template.unaryOp
  | .lambda params _ =>
    Render.inScope params.boundNames do
      let paramsText ← params.render p
      let body ← site.attr .body
      return "((" ++ paramsText ++ ") => (" ++ body ++ "))"
  | .ifExp .. => site.template Template.ifExp
  | .dict keys values => do
    let entries ← Render.all ((keys.zip values).mapIdx (renderEntry p))
    return "\x7b" ++ ", ".intercalate entries ++ "\x7d"
  | .compare _ ops comparators =>
    if ops.isEmpty || ops.length != comparators.length then
      Render.fail ⟨.missingField (.expr .compare) .comparators, none⟩
    else do
      let left ← site.attr .left
      let others ← Render.all (placed p .comparators comparators)
      match comparisons (left :: others) ops with
      | .ok pairs => return conjunction pairs
      | .error e => Render.fail e
  | .call _ _ keywords =>
    match keywords with
    | keyword :: _ => Render.around keyword.loc (Render.unsupported .keywordArguments)
    | [] => do
      let func ← site.attr .func
      let args ← site.attr .args
      return func ++ "(" ++ args ++ ")"
  | .constant value => pure value.spelling
  | .attribute .. => site.template Template.member
  | .subscript .. => site.template Template.subscript
  | .name _ => site.template Template.name
  | .list _ => site.template Template.list
  | .starred _ => site.template Template.starred
  | .tuple _ | .set _ | .listComp .. | .dictComp .. | .generatorExp .. | .await _ | .yield _
  | .namedExpr .. | .slice .. | .joinedStr _ => Render.unsupported (.node (.expr form.kind))

/-- How the node of a form is rendered: by its rule, and errors get its location if they have
    none. -/
def render (keyOf : Place → κ) (l : Loc) (form : ExprForm (Emit κ)) : Emit κ := fun p =>
  Render.around l (form.rule keyOf p)

end ExprForm

/-- How an expression is rendered at a place. -/
def Expr.render [DecidableEq κ] (keyOf : Place → κ) : Expr → Emit κ :=
  Expr.fold (ExprForm.render keyOf)

end ScriptTree
