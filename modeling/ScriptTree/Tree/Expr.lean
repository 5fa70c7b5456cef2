/-
  ScriptTree/Tree/Expr.lean
  =========================
  **Expressions.**  An expression is a location and a *form*.  `ExprForm ε` is one layer of syntax
  whose children are of an arbitrary type `ε`; an expression is a form whose children are
  expressions.  What is done at every node is therefore said once per form (`ExprForm.map`,
  `ExprForm.children`), and recursion over a tree is done once, by `Expr.fold`:

      (Expr.mk loc form).fold step = step loc (form.map (Expr.fold step))      (`Expr.fold_mk`)

  Induction over expressions (`Expr.ind`) offers the hypothesis for every child of the form.
-/
import ScriptTree.Tree.Constant
import ScriptTree.Tree.Kind
import ScriptTree.Tree.Loc
import ScriptTree.Tree.Operator

namespace ScriptTree

/-- The name of a parameter. -/
structure Param where
  loc : Loc
  name : String
  deriving DecidableEq

/-- A parameter list.  The defaults belong to the last positional parameters. -/
structure Params (ε : Type) where
  loc : Loc
  posOnly : List Param
  args : List Param
  rest : Option Param
  kwOnly : List Param
  kwRest : Option Param
  defaults : List ε

/-- An argument given by name; without a name it spreads a mapping. -/
structure Keyword (ε : Type) where
  loc : Loc
  arg : Option String
  value : ε

/-- One loop of a comprehension. -/
structure Comprehension (ε : Type) where
  loc : Loc
  target : ε
  iter : ε
  ifs : List ε

/-- One layer of expression syntax. -/
inductive ExprForm (ε : Type) where
  | boolOp (op : BoolOperator) (values : List ε)
  | binOp (left : ε) (op : BinaryOperator) (right : ε)
  | unaryOp (op : UnaryOperator) (operand : ε)
  | lambda (params : Params ε) (body : ε)
  | ifExp (test body orelse : ε)
  | dict (keys : List (Option ε)) (values : List ε)
  | compare (left : ε) (ops : List CmpOperator) (comparators : List ε)
  | call (func : ε) (args : List ε) (keywords : List (Keyword ε))
  | constant (value : Constant)
  | attribute (value : ε) (attr : String)
  | subscript (value index : ε)
  | name (id : String)
  | list (elts : List ε)
  | starred (value : ε)
  | tuple (elts : List ε)
  | set (elts : List ε)
  | listComp (elt : ε) (generators : List (Comprehension ε))
  | dictComp (key value : ε) (generators : List (Comprehension ε))
  | generatorExp (elt : ε) (generators : List (Comprehension ε))
  | await (value : ε)
  | yield (value : Option ε)
  | namedExpr (target value : ε)
  | slice (lower upper step : Option ε)
  | joinedStr (values : List ε)

/-- An expression. -/
structure Expr where
  loc : Loc
  form : ExprForm Expr

namespace Params

/-- The parameters that are filled by position, in order. -/
def positional {ε : Type} (p : Params ε) : List Param := p.posOnly ++ p.args

/-- The names that a parameter list binds, in order. -/
def boundNames {ε : Type} (p : Params ε) : List String :=
  (p.positional ++ p.rest.toList ++ p.kwOnly ++ p.kwRest.toList).map Param.name

/-- Changes the defaults. -/
def map {ε φ : Type} (f : ε → φ) (p : Params ε) : Params φ :=
  ⟨p.loc, p.posOnly, p.args, p.rest, p.kwOnly, p.kwRest, p.defaults.map f⟩

end Params

/-- Changes the value. -/
def Keyword.map {ε φ : Type} (f : ε → φ) (k : Keyword ε) : Keyword φ := ⟨k.loc, k.arg, f k.value⟩

/-- Changes the expressions. -/
def Comprehension.map {ε φ : Type} (f : ε → φ) (c : Comprehension ε) : Comprehension φ :=
  ⟨c.loc, f c.target, f c.iter, c.ifs.map f⟩

/-- The expressions of a comprehension loop. -/
def Comprehension.children {ε : Type} (c : Comprehension ε) : List ε := c.target :: c.iter :: c.ifs

namespace ExprForm

/-- The kind of a form. -/
def kind {ε : Type} : ExprForm ε → ExprKind
  | .boolOp .. => .boolOp
  | .binOp .. => .binOp
  | .unaryOp .. => .unaryOp
  | .lambda .. => .lambda
  | .ifExp .. => .ifExp
  | .dict .. => .dict
  | .compare .. => .compare
  | .call .. => .call
  | .constant .. => .constant
  | .attribute .. => .attribute
  | .subscript .. => .subscript
  | .name .. => .name
  | .list .. => .list
  | .starred .. => .starred
  | .tuple .. => .tuple
  | .set .. => .set
  | .listComp .. => .listComp
  | .dictComp .. => .dictComp
  | .generatorExp .. => .generatorExp
  | .await .. => .await
  | .yield .. => .yield
  | .namedExpr .. => .namedExpr
  | .slice .. => .slice
  | .joinedStr .. => .joinedStr

/-- Changes every child of a form. -/
def map {ε φ : Type} (f : ε → φ) : ExprForm ε → ExprForm φ
  | .boolOp op values => .boolOp op (values.map f)
  | .binOp left op right => .binOp (f left) op (f right)
  | .unaryOp op operand => .unaryOp op (f operand)
  | .lambda params body => .lambda (params.map f) (f body)
  | .ifExp test body orelse => .ifExp (f test) (f body) (f orelse)
  | .dict keys values => .dict (keys.map (Option.map f)) (values.map f)
  | .compare left ops comparators => .compare (f left) ops (comparators.map f)
  | .call func args keywords => .call (f func) (args.map f) (keywords.map (Keyword.map f))
  | .constant value => .constant value
  | .attribute value attr => .attribute (f value) attr
  | .subscript value index => .subscript (f value) (f index)
  | .name id => .name id
  | .list elts => .list (elts.map f)
  | .starred value => .starred (f value)
  | .tuple elts => .tuple (elts.map f)
  | .set elts => .set (elts.map f)
  | .listComp elt generators => .listComp (f elt) (generators.map (Comprehension.map f))
  | .dictComp key value generators =>
    .dictComp (f key) (f value) (generators.map (Comprehension.map f))
  | .generatorExp elt generators => .generatorExp (f elt) (generators.map (Comprehension.map f))
  | .await value => .await (f value)
  | .yield value => .yield (value.map f)
  | .namedExpr target value => .namedExpr (f target) (f value)
  | .slice lower upper step => .slice (lower.map f) (upper.map f) (step.map f)
  | .joinedStr values => .joinedStr (values.map f)

/-- Every child of a form. -/
def children {ε : Type} : ExprForm ε → List ε
  | .boolOp _ values => values
  | .binOp left _ right => [left, right]
  | .unaryOp _ operand => [operand]
  | .lambda params body => params.defaults ++ [body]
  | .ifExp test body orelse => [test, body, orelse]
  | .dict keys values => keys.flatMap Option.toList ++ values
  | .compare left _ comparators => left :: comparators
  | .call func args keywords => func :: args ++ keywords.map Keyword.value
  | .constant _ => []
  | .attribute value _ => [value]
  | .subscript value index => [value, index]
  | .name _ => []
  | .list elts => elts
  | .starred value => [value]
  | .tuple elts => elts
  | .set elts => elts
  | .listComp elt generators => elt :: generators.flatMap Comprehension.children
  | .dictComp key value generators => key :: value :: generators.flatMap Comprehension.children
  | .generatorExp elt generators => elt :: generators.flatMap Comprehension.children
  | .await value => [value]
  | .yield value => value.toList
  | .namedExpr target value => [target, value]
  | .slice lower upper step => lower.toList ++ upper.toList ++ step.toList
  | .joinedStr values => values

end ExprForm

namespace Expr

/-- The kind of an expression. -/
def kind (e : Expr) : ExprKind := e.form.kind

/-! ### Recursion -/

section Fold

variable {β : Type} (step : Loc → ExprForm β → β)

mutual

/-- Computes a value for an expression from its location and the values of its children. -/
def fold : Expr → β
  | ⟨loc, form⟩ => step loc (foldForm form)

/-- The form with every child folded. -/
def foldForm : ExprForm Expr → ExprForm β
  | .boolOp op values => .boolOp op (foldList values)
  | .binOp left op right => .binOp (fold left) op (fold right)
  | .unaryOp op operand => .unaryOp op (fold operand)
  | .lambda params body => .lambda (foldParams params) (fold body)
  | .ifExp test body orelse => .ifExp (fold test) (fold body) (fold orelse)
  | .dict keys values => .dict (foldOptions keys) (foldList values)
  | .compare left ops comparators => .compare (fold left) ops (foldList comparators)
  | .call func args keywords => .call (fold func) (foldList args) (foldKeywords keywords)
  | .constant value => .constant value
  | .attribute value attr => .attribute (fold value) attr
  | .subscript value index => .subscript (fold value) (fold index)
  | .name id => .name id
  | .list elts => .list (foldList elts)
  | .starred value => .starred (fold value)
  | .tuple elts => .tuple (foldList elts)
  | .set elts => .set (foldList elts)
  | .listComp elt generators => .listComp (fold elt) (foldComprehensions generators)
  | .dictComp key value generators =>
    .dictComp (fold key) (fold value) (foldComprehensions generators)
  | .generatorExp elt generators => .generatorExp (fold elt) (foldComprehensions generators)
  | .await value => .await (fold value)
  | .yield value => .yield (foldOption value)
  | .namedExpr target value => .namedExpr (fold target) (fold value)
  | .slice lower upper step => .slice (foldOption lower) (foldOption upper) (foldOption step)
  | .joinedStr values => .joinedStr (foldList values)

/-- A list with every expression folded. -/
def foldList : List Expr → List β
  | [] => []
  | e :: rest => fold e :: foldList rest

/-- An optional expression folded. -/
def foldOption : Option Expr → Option β
  | none => none
  | some e => some (fold e)

/-- A list of optional expressions folded. -/
def foldOptions : List (Option Expr) → List (Option β)
  | [] => []
  | e :: rest => foldOption e :: foldOptions rest

/-- A parameter list with its defaults folded. -/
def foldParams : Params Expr → Params β
  | ⟨loc, posOnly, args, rest, kwOnly, kwRest, defaults⟩ =>
    ⟨loc, posOnly, args, rest, kwOnly, kwRest, foldList defaults⟩

/-- A named argument with its value folded. -/
def foldKeyword : Keyword Expr → Keyword β
  | ⟨loc, arg, value⟩ => ⟨loc, arg, fold value⟩

/-- Named arguments with their values folded. -/
def foldKeywords : List (Keyword Expr) → List (Keyword β)
  | [] => []
  | k :: rest => foldKeyword k :: foldKeywords rest

/-- A comprehension loop with its expressions folded. -/
def foldComprehension : Comprehension Expr → Comprehension β
  | ⟨loc, target, iter, ifs⟩ => ⟨loc, fold target, fold iter, foldList ifs⟩

/-- Comprehension loops with their expressions folded. -/
def foldComprehensions : List (Comprehension Expr) → List (Comprehension β)
  | [] => []
  | c :: rest => foldComprehension c :: foldComprehensions rest

end

theorem foldList_eq_map (es : List Expr) : foldList step es = es.map (fold step) := by
  induction es with
  | nil => rfl
  | cons e rest ih => simp [foldList, ih]

theorem foldOption_eq_map (e : Option Expr) : foldOption step e = e.map (fold step) := by
  cases e <;> rfl

theorem foldOptions_eq_map (es : List (Option Expr)) :
    foldOptions step es = es.map (Option.map (fold step)) := by
  induction es with
  | nil => rfl
  | cons e rest ih => simp [foldOptions, foldOption_eq_map, ih]

theorem foldParams_eq_map (p : Params Expr) : foldParams step p = p.map (fold step) := by
  cases p
  simp [foldParams, Params.map, foldList_eq_map]

theorem foldKeywords_eq_map (ks : List (Keyword Expr)) :
    foldKeywords step ks = ks.map (Keyword.map (fold step)) := by
  induction ks with
  | nil => rfl
  | cons k rest ih =>
    cases k
    simp [foldKeywords, foldKeyword, Keyword.map, ih]

theorem foldComprehensions_eq_map (cs : List (Comprehension Expr)) :
    foldComprehensions step cs = cs.map (Comprehension.map (fold step)) := by
  induction cs with
  | nil => rfl
  | cons c rest ih =>
    cases c
    simp [foldComprehensions, foldComprehension, Comprehension.map, foldList_eq_map, ih]

theorem foldForm_eq_map (form : ExprForm Expr) : foldForm step form = form.map (fold step) := by
  cases form <;>
    simp [foldForm, ExprForm.map, foldList_eq_map, foldOption_eq_map, foldOptions_eq_map,
      foldParams_eq_map, foldKeywords_eq_map, foldComprehensions_eq_map]

/-- **The recursion equation**: a node's value is made from the values of its children. -/
theorem fold_mk (loc : Loc) (form : ExprForm Expr) :
    fold step ⟨loc, form⟩ = step loc (form.map (fold step)) := by
  rw [fold, foldForm_eq_map]

end Fold

/-! ### Induction -/

section Induction

set_option linter.unusedSectionVars false

open List (forall_mem_append forall_mem_cons forall_mem_singleton)

variable {motive : Expr → Prop}
  (mk : ∀ loc form, (∀ e ∈ form.children, motive e) → motive ⟨loc, form⟩)

include mk

mutual

/-- **Induction over expressions**: what passes from the children of a form to the node holds of
    every expression. -/
theorem ind : ∀ e : Expr, motive e
  | ⟨loc, form⟩ => mk loc form (indForm form)
termination_by structural e => e

theorem indForm : ∀ form : ExprForm Expr, ∀ e ∈ form.children, motive e
  | .boolOp _ values => indList values
  | .binOp left _ right => forall_mem_cons.2 ⟨ind left, forall_mem_singleton.2 (ind right)⟩
  | .unaryOp _ operand => forall_mem_singleton.2 (ind operand)
  | .lambda params body => forall_mem_append.2 ⟨indParams params, forall_mem_singleton.2 (ind body)⟩
  | .ifExp test body orelse =>
    forall_mem_cons.2 ⟨ind test, forall_mem_cons.2 ⟨ind body, forall_mem_singleton.2 (ind orelse)⟩⟩
  | .dict keys values => forall_mem_append.2 ⟨indOptions keys, indList values⟩
  | .compare left _ comparators => forall_mem_cons.2 ⟨ind left, indList comparators⟩
  | .call func args keywords =>
    forall_mem_append.2 ⟨forall_mem_cons.2 ⟨ind func, indList args⟩, indKeywords keywords⟩
  | .constant _ => nofun
  | .attribute value _ => forall_mem_singleton.2 (ind value)
  | .subscript value index => forall_mem_cons.2 ⟨ind value, forall_mem_singleton.2 (ind index)⟩
  | .name _ => nofun
  | .list elts => indList elts
  | .starred value => forall_mem_singleton.2 (ind value)
  | .tuple elts => indList elts
  | .set elts => indList elts
  | .listComp elt generators => forall_mem_cons.2 ⟨ind elt, indComprehensions generators⟩
  | .dictComp key value generators =>
    forall_mem_cons.2 ⟨ind key, forall_mem_cons.2 ⟨ind value, indComprehensions generators⟩⟩
  | .generatorExp elt generators => forall_mem_cons.2 ⟨ind elt, indComprehensions generators⟩
  | .await value => forall_mem_singleton.2 (ind value)
  | .yield value => indOption value
  | .namedExpr target value => forall_mem_cons.2 ⟨ind target, forall_mem_singleton.2 (ind value)⟩
  | .slice lower upper step =>
    forall_mem_append.2 ⟨forall_mem_append.2 ⟨indOption lower, indOption upper⟩, indOption step⟩
  | .joinedStr values => indList values
termination_by structural form => form

theorem indList : ∀ es : List Expr, ∀ e ∈ es, motive e
  | [] => nofun
  | e :: rest => forall_mem_cons.2 ⟨ind e, indList rest⟩
termination_by structural es => es

theorem indOption : ∀ o : Option Expr, ∀ e ∈ o.toList, motive e
  | none => nofun
  | some e => forall_mem_singleton.2 (ind e)
termination_by structural o => o

theorem indOptions : ∀ es : List (Option Expr), ∀ e ∈ es.flatMap Option.toList, motive e
  | [] => nofun
  | o :: rest => forall_mem_append.2 ⟨indOption o, indOptions rest⟩
termination_by structural es => es

theorem indParams : ∀ p : Params Expr, ∀ e ∈ p.defaults, motive e
  | ⟨_, _, _, _, _, _, defaults⟩ => indList defaults
termination_by structural p => p

theorem indKeyword : ∀ k : Keyword Expr, motive k.value
  | ⟨_, _, value⟩ => ind value
termination_by structural k => k

theorem indKeywords : ∀ ks : List (Keyword Expr), ∀ e ∈ ks.map Keyword.value, motive e
  | [] => nofun
  | k :: rest => forall_mem_cons.2 ⟨indKeyword k, indKeywords rest⟩
termination_by structural ks => ks

theorem indComprehension : ∀ c : Comprehension Expr, ∀ e ∈ c.children, motive e
  | ⟨_, target, iter, ifs⟩ =>
    forall_mem_cons.2 ⟨ind target, forall_mem_cons.2 ⟨ind iter, indList ifs⟩⟩
termination_by structural c => c

theorem indComprehensions : ∀ cs : List (Comprehension Expr),
    ∀ e ∈ cs.flatMap Comprehension.children, motive e
  | [] => nofun
  | c :: rest => forall_mem_append.2 ⟨indComprehension c, indComprehensions rest⟩
termination_by structural cs => cs

end

end Induction

attribute [induction_eliminator] ind

end Expr

end ScriptTree
