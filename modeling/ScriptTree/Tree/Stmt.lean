/-
  ScriptTree/Tree/Stmt.lean
  =========================
  **Statements and modules.**  As with expressions, a statement is a location and a form, and a
  form is one layer of syntax: `StmtForm σ ε` has statements of type `σ` and expressions of type `ε`
  below it.  `Stmt.fold` recurses over the statements of a tree and leaves its expressions alone.
-/
import ScriptTree.Tree.Expr

namespace ScriptTree

/-- A handler of a `try` statement. -/
structure Handler (σ ε : Type) where
  loc : Loc
  type : Option ε
  name : Option String
  body : List σ

/-- An item of a `with` statement. -/
structure WithItem (ε : Type) where
  context : ε
  vars : Option ε

/-- An imported name and what it is called here. -/
structure Alias where
  name : String
  asName : Option String
  deriving DecidableEq

/-- One layer of statement syntax. -/
inductive StmtForm (σ ε : Type) where
  | functionDef (name : String) (params : Params ε) (body : List σ) (decorators : List ε)
  | ret (value : Option ε)
  | delete (targets : List ε)
  | assign (targets : List ε) (value : ε)
  | augAssign (target : ε) (op : BinaryOperator) (value : ε)
  | forLoop (target iter : ε) (body orelse : List σ)
  | whileLoop (test : ε) (body orelse : List σ)
  | cond (test : ε) (body orelse : List σ)
  | raise (exc cause : Option ε)
  | expr (value : ε)
  | pass
  | breakLoop
  | continueLoop
  | classDef (name : String) (bases : List ε) (body : List σ) (decorators : List ε)
  | tryStmt (body : List σ) (handlers : List (Handler σ ε)) (orelse final : List σ)
  | withStmt (items : List (WithItem ε)) (body : List σ)
  | assert (test : ε) (msg : Option ε)
  | importStmt (names : List Alias)
  | globalStmt (names : List String)
  | nonlocalStmt (names : List String)

/-- A statement. -/
structure Stmt where
  loc : Loc
  form : StmtForm Stmt Expr

/-- A module: the statements at top level. -/
structure Module where
  loc : Loc
  body : List Stmt

/-- Changes the statements of a handler. -/
def Handler.map {σ τ ε : Type} (f : σ → τ) (h : Handler σ ε) : Handler τ ε :=
  ⟨h.loc, h.type, h.name, h.body.map f⟩

namespace StmtForm

variable {σ τ ε : Type}

/-- The kind of a form. -/
def kind : StmtForm σ ε → StmtKind
  | .functionDef .. => .functionDef
  | .ret .. => .ret
  | .delete .. => .delete
  | .assign .. => .assign
  | .augAssign .. => .augAssign
  | .forLoop .. => .forLoop
  | .whileLoop .. => .whileLoop
  | .cond .. => .cond
  | .raise .. => .raise
  | .expr .. => .expr
  | .pass => .pass
  | .breakLoop => .breakLoop
  | .continueLoop => .continueLoop
  | .classDef .. => .classDef
  | .tryStmt .. => .tryStmt
  | .withStmt .. => .withStmt
  | .assert .. => .assert
  | .importStmt .. => .importStmt
  | .globalStmt .. => .globalStmt
  | .nonlocalStmt .. => .nonlocalStmt

/-- Changes every statement below a form. -/
def map (f : σ → τ) : StmtForm σ ε → StmtForm τ ε
  | .functionDef name params body decorators => .functionDef name params (body.map f) decorators
  | .ret value => .ret value
  | .delete targets => .delete targets
  | .assign targets value => .assign targets value
  | .augAssign target op value => .augAssign target op value
  | .forLoop target iter body orelse => .forLoop target iter (body.map f) (orelse.map f)
  | .whileLoop test body orelse => .whileLoop test (body.map f) (orelse.map f)
  | .cond test body orelse => .cond test (body.map f) (orelse.map f)
  | .raise exc cause => .raise exc cause
  | .expr value => .expr value
  | .pass => .pass
  | .breakLoop => .breakLoop
  | .continueLoop => .continueLoop
  | .classDef name bases body decorators => .classDef name bases (body.map f) decorators
  | .tryStmt body handlers orelse final =>
    .tryStmt (body.map f) (handlers.map (Handler.map f)) (orelse.map f) (final.map f)
  | .withStmt items body => .withStmt items (body.map f)
  | .assert test msg => .assert test msg
  | .importStmt names => .importStmt names
  | .globalStmt names => .globalStmt names
  | .nonlocalStmt names => .nonlocalStmt names

/-- Every statement below a form. -/
def children : StmtForm σ ε → List σ
  | .functionDef _ _ body _ => body
  | .forLoop _ _ body orelse => body ++ orelse
  | .whileLoop _ body orelse => body ++ orelse
  | .cond _ body orelse => body ++ orelse
  | .classDef _ _ body _ => body
  | .tryStmt body handlers orelse final =>
    body ++ handlers.flatMap Handler.body ++ orelse ++ final
  | .withStmt _ body => body
  | .ret _ | .delete _ | .assign .. | .augAssign .. | .raise .. | .expr _ | .pass | .breakLoop
  | .continueLoop | .assert .. | .importStmt _ | .globalStmt _ | .nonlocalStmt _ => []

end StmtForm

namespace Stmt

/-- The kind of a statement. -/
def kind (s : Stmt) : StmtKind := s.form.kind

/-! ### Recursion -/

section Fold

variable {β : Type} (step : Loc → StmtForm β Expr → β)

mutual

/-- Computes a value for a statement from its location and the values of the statements below. -/
def fold : Stmt → β
  | ⟨loc, form⟩ => step loc (foldForm form)

/-- The form with every statement folded. -/
def foldForm : StmtForm Stmt Expr → StmtForm β Expr
  | .functionDef name params body decorators => .functionDef name params (foldList body) decorators
  | .ret value => .ret value
  | .delete targets => .delete targets
  | .assign targets value => .assign targets value
  | .augAssign target op value => .augAssign target op value
  | .forLoop target iter body orelse => .forLoop target iter (foldList body) (foldList orelse)
  | .whileLoop test body orelse => .whileLoop test (foldList body) (foldList orelse)
  | .cond test body orelse => .cond test (foldList body) (foldList orelse)
  | .raise exc cause => .raise exc cause
  | .expr value => .expr value
  | .pass => .pass
  | .breakLoop => .breakLoop
  | .continueLoop => .continueLoop
  | .classDef name bases body decorators => .classDef name bases (foldList body) decorators
  | .tryStmt body handlers orelse final =>
    .tryStmt (foldList body) (foldHandlers handlers) (foldList orelse) (foldList final)
  | .withStmt items body => .withStmt items (foldList body)
  | .assert test msg => .assert test msg
  | .importStmt names => .importStmt names
  | .globalStmt names => .globalStmt names
  | .nonlocalStmt names => .nonlocalStmt names

/-- A list with every statement folded. -/
def foldList : List Stmt → List β
  | [] => []
  | s :: rest => fold s :: foldList rest

/-- A handler with its body folded. -/
def foldHandler : Handler Stmt Expr → Handler β Expr
  | ⟨loc, type, name, body⟩ => ⟨loc, type, name, foldList body⟩

/-- Handlers with their bodies folded. -/
def foldHandlers : List (Handler Stmt Expr) → List (Handler β Expr)
  | [] => []
  | h :: rest => foldHandler h :: foldHandlers rest

end

theorem foldList_eq_map (ss : List Stmt) : foldList step ss = ss.map (fold step) := by
  induction ss with
  | nil => rfl
  | cons s rest ih => simp [foldList, ih]

theorem foldHandlers_eq_map (hs : List (Handler Stmt Expr)) :
    foldHandlers step hs = hs.map (Handler.map (fold step)) := by
  induction hs with
  | nil => rfl
  | cons h rest ih =>
    cases h
    simp [foldHandlers, foldHandler, Handler.map, foldList_eq_map, ih]

theorem foldForm_eq_map (form : StmtForm Stmt Expr) :
    foldForm step form = form.map (fold step) := by
  cases form <;> simp [foldForm, StmtForm.map, foldList_eq_map, foldHandlers_eq_map]

/-- **The recursion equation**: a node's value is made from the values of the statements below. -/
theorem fold_mk (loc : Loc) (form : StmtForm Stmt Expr) :
    fold step ⟨loc, form⟩ = step loc (form.map (fold step)) := by
  rw [fold, foldForm_eq_map]

end Fold

/-! ### Induction -/

section Induction

set_option linter.unusedSectionVars false

open List (forall_mem_append)

variable {motive : Stmt → Prop}
  (mk : ∀ loc form, (∀ s ∈ form.children, motive s) → motive ⟨loc, form⟩)

include mk

mutual

/-- **Induction over statements**: what passes from the statements below a form to the node holds
    of every statement. -/
theorem ind : ∀ s : Stmt, motive s
  | ⟨loc, form⟩ => mk loc form (indForm form)
termination_by structural s => s

theorem indForm : ∀ form : StmtForm Stmt Expr, ∀ s ∈ form.children, motive s
  | .functionDef _ _ body _ => indList body
  | .forLoop _ _ body orelse => forall_mem_append.2 ⟨indList body, indList orelse⟩
  | .whileLoop _ body orelse => forall_mem_append.2 ⟨indList body, indList orelse⟩
  | .cond _ body orelse => forall_mem_append.2 ⟨indList body, indList orelse⟩
  | .classDef _ _ body _ => indList body
  | .tryStmt body handlers orelse final =>
    forall_mem_append.2 ⟨forall_mem_append.2
      ⟨forall_mem_append.2 ⟨indList body, indHandlers handlers⟩, indList orelse⟩, indList final⟩
  | .withStmt _ body => indList body
  | .ret _ | .delete _ | .assign .. | .augAssign .. | .raise .. | .expr _ | .pass | .breakLoop
  | .continueLoop | .assert .. | .importStmt _ | .globalStmt _ | .nonlocalStmt _ => nofun
termination_by structural form => form

theorem indList : ∀ ss : List Stmt, ∀ s ∈ ss, motive s
  | [] => nofun
  | s :: rest => List.forall_mem_cons.2 ⟨ind s, indList rest⟩
termination_by structural ss => ss

theorem indHandler : ∀ h : Handler Stmt Expr, ∀ s ∈ h.body, motive s
  | ⟨_, _, _, body⟩ => indList body
termination_by structural h => h

theorem indHandlers : ∀ hs : List (Handler Stmt Expr), ∀ s ∈ hs.flatMap Handler.body, motive s
  | [] => nofun
  | h :: rest => forall_mem_append.2 ⟨indHandler h, indHandlers rest⟩
termination_by structural hs => hs

end

end Induction

attribute [induction_eliminator] ind

end Stmt

end ScriptTree
