/-
  ScriptTree/Proofs/Subtrees.lean
  ===============================
  **What stands in a tree**, at any depth and in any child, whether a rule looks at that child or not.
-/
import ScriptTree.Tree.Stmt

namespace ScriptTree

/-- The expressions of a form that belong to no statement below it. -/
def StmtForm.exprs {σ ε : Type} : StmtForm σ ε → List ε
  | .functionDef _ params _ decorators => params.defaults ++ decorators
  | .ret value => value.toList
  | .delete targets => targets
  | .assign targets value => targets ++ [value]
  | .augAssign target _ value => [target, value]
  | .forLoop target iter _ _ => [target, iter]
  | .whileLoop test _ _ => [test]
  | .cond test _ _ => [test]
  | .raise exc cause => exc.toList ++ cause.toList
  | .expr value => [value]
  | .classDef _ bases _ decorators => bases ++ decorators
  | .tryStmt _ handlers _ _ => handlers.flatMap fun h => h.type.toList
  | .withStmt items _ => items.flatMap fun w => w.context :: w.vars.toList
  | .assert test msg => test :: msg.toList
  | .pass | .breakLoop | .continueLoop | .importStmt _ | .globalStmt _ | .nonlocalStmt _ => []

theorem Comprehension.children_map {ε φ : Type} (f : ε → φ) (g : Comprehension ε) :
    (g.map f).children = g.children.map f := rfl

theorem ExprForm.children_map {ε φ : Type} (f : ε → φ) (form : ExprForm ε) :
    (form.map f).children = form.children.map f := by
  have hoption : ∀ o : Option ε, (o.map f).toList = o.toList.map f := by
    intro o
    cases o <;> rfl
  cases form <;>
    simp [map, children, Params.map, Keyword.map, Comprehension.children_map, hoption,
      List.flatMap_map, List.map_flatMap, Function.comp_def]

theorem StmtForm.children_map {σ τ ε : Type} (f : σ → τ) (form : StmtForm σ ε) :
    (form.map f).children = form.children.map f := by
  cases form <;>
    simp [map, children, Handler.map, List.flatMap_map, List.map_flatMap]

theorem StmtForm.exprs_map {σ τ ε : Type} (f : σ → τ) (form : StmtForm σ ε) :
    (form.map f).exprs = form.exprs := by
  cases form <;> simp [map, exprs, Handler.map, List.flatMap_map]

/-- The first expression stands in the second one. -/
inductive Expr.Within : Expr → Expr → Prop
  | here (e : Expr) : Within e e
  | child {d c e : Expr} : c ∈ e.form.children → Within d c → Within d e

/-- The first statement stands in the second one. -/
inductive Stmt.Within : Stmt → Stmt → Prop
  | here (s : Stmt) : Within s s
  | child {t c s : Stmt} : c ∈ s.form.children → Within t c → Within t s

/-- The expression stands somewhere in the statement. -/
def Expr.WithinStmt (e : Expr) (s : Stmt) : Prop :=
  ∃ t : Stmt, t.Within s ∧ ∃ d ∈ t.form.exprs, e.Within d

end ScriptTree
