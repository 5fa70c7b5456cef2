/-
  ScriptTree/Proofs/ActionLaws.lean
  =================================
  **Laws of rendering actions.**  Actions form a lawful monad, so a filled template is the same
  action as the reads it is made of, one after the other, and joined actions can be taken apart at
  the front.  The recursion of the renderer over a tree is written out as an equation per node.
-/
import ScriptTree.Proofs.Rules

namespace ScriptTree

namespace Render

variable {κ α β : Type}

@[simp] theorem pure_apply (a : α) (r : Renderer κ) : (pure a : Render κ α) r = ⟨.ok a, r, []⟩ :=
  rfl

theorem bind_apply (m : Render κ α) (f : α → Render κ β) (r : Renderer κ) :
    (m >>= f) r = match (m r).result with
      | .error e => ⟨.error e, (m r).renderer, (m r).events⟩
      | .ok a => ⟨(f a (m r).renderer).result, (f a (m r).renderer).renderer,
        (m r).events ++ (f a (m r).renderer).events⟩ :=
  rfl

theorem bind_of_ok {m : Render κ α} {f : α → Render κ β} {r : Renderer κ} {a : α}
    (h : (m r).result = .ok a) :
    (m >>= f) r = ⟨(f a (m r).renderer).result, (f a (m r).renderer).renderer,
      (m r).events ++ (f a (m r).renderer).events⟩ := by
  rw [bind_apply, h]

theorem bind_of_error {m : Render κ α} {f : α → Render κ β} {r : Renderer κ} {e : RenderError}
    (h : (m r).result = .error e) :
    (m >>= f) r = ⟨.error e, (m r).renderer, (m r).events⟩ := by
  rw [bind_apply, h]

theorem pure_bind_action (a : α) (f : α → Render κ β) : (pure a >>= f) = f a := by
  funext r
  rw [bind_of_ok rfl]
  rfl

theorem bind_pure_action (m : Render κ α) : (m >>= pure) = m := by
  funext r
  rcases h : (m r).result with e | a
  · rw [bind_of_error h, ← h]
  · rw [bind_of_ok h]
    simp [← h]

theorem bind_assoc_action {γ : Type} (m : Render κ α) (f : α → Render κ β) (g : β → Render κ γ) :
    (m >>= f >>= g) = (m >>= fun a => f a >>= g) := by
  funext r
  rcases hm : (m r).result with e | a
  · rw [bind_of_error hm, bind_of_error (e := e) (by rw [bind_of_error hm])]
    rw [bind_of_error hm]
  · rcases hf : (f a (m r).renderer).result with e | b
    · rw [bind_of_ok hm, bind_of_error hf, bind_of_error (e := e) (by rw [bind_of_ok hm]; exact hf)]
      rw [bind_of_ok hm]
    · rw [bind_of_ok hm, bind_of_ok hf, bind_of_ok (a := b) (by rw [bind_of_ok hm]; exact hf)]
      rw [bind_of_ok hm]
      simp

instance : LawfulMonad (Render κ) :=
  LawfulMonad.mk' (Render κ) bind_pure_action pure_bind_action bind_assoc_action

/-- A result that is known already. -/
def given : Except RenderError α → Render κ α
  | .ok a => pure a
  | .error e => fail e

/-! ### Joined actions -/

theorem joined_nil (separator : String) : joined separator ([] : List (Render κ String)) = pure "" := by
  simp [joined, all]

theorem joined_singleton (separator : String) (m : Render κ String) :
    joined separator [m] = m := by
  simp [joined, all]

theorem joined_cons_cons (separator : String) (m next : Render κ String)
    (rest : List (Render κ String)) :
    joined separator (m :: next :: rest) = (do
      let a ← m
      let b ← joined separator (next :: rest)
      return a ++ separator ++ b) := by
  simp [joined, all]

end Render

namespace Site

variable {κ : Type} [DecidableEq κ] (s : Site κ)

@[simp] theorem template_nil : s.template [] = pure "" := Render.joined_nil ""

/-- A template is filled piece by piece. -/
@[simp] theorem template_cons (piece : Piece) (t : Template) :
    s.template (piece :: t) = (do
      let a ← s.piece piece
      let b ← s.template t
      return a ++ b) := by
  cases t with
  | nil => simp [template, Render.joined, Render.all]
  | cons next rest => simp [template, Render.joined, Render.all]

@[simp] theorem piece_lit (text : String) : s.piece (.lit text) = pure text := rfl

@[simp] theorem piece_rendered (f : Field) : s.piece (.rendered f) = s.attr f := rfl

@[simp] theorem piece_raw (f : Field) : s.piece (.raw f) = s.rawAttr f := rfl

/-! ### The templates of the rules, filled -/

theorem template_ret : s.template Template.ret = (do
    let value ← s.attr .value
    return "return " ++ value) := by
  simp [Template.ret]

theorem template_augAssign : s.template Template.augAssign = (do
    let target ← s.attr .target
    let op ← s.attr .op
    let value ← s.attr .value
    return target ++ " " ++ op ++ "= " ++ value) := by
  simp [Template.augAssign, String.append_assoc]

theorem template_augAssignFloorDiv : s.template Template.augAssignFloorDiv = (do
    let first ← s.attr .target
    let second ← s.attr .target
    let value ← s.attr .value
    return first ++ " = Math.floor(" ++ second ++ " / " ++ value ++ ")") := by
  simp [Template.augAssignFloorDiv, String.append_assoc]

theorem template_whileLoop : s.template Template.whileLoop = (do
    let test ← s.attr .test
    let body ← s.attr .body
    return "while (" ++ test ++ ") \x7b\n" ++ body ++ "\n\x7d") := by
  simp [Template.whileLoop, String.append_assoc]

theorem template_cond : s.template Template.cond = (do
    let test ← s.attr .test
    let body ← s.attr .body
    let orelse ← s.attr .orelse
    return "if (" ++ test ++ ") \x7b\n" ++ body ++ "\n\x7d else \x7b\n" ++ orelse ++ "\n\x7d") := by
  simp [Template.cond, String.append_assoc]

theorem template_raise : s.template Template.raise = (do
    let exc ← s.attr .exc
    return "throw new Error(" ++ exc ++ ")") := by
  simp [Template.raise, String.append_assoc]

theorem template_expr : s.template Template.expr = s.attr .value := by
  simp [Template.expr]

theorem template_pass : s.template Template.pass = pure "" := s.template_nil

theorem template_breakLoop : s.template Template.breakLoop = pure "break" := by
  simp [Template.breakLoop]

theorem template_continueLoop : s.template Template.continueLoop = pure "continue" := by
  simp [Template.continueLoop]

theorem template_binOp : s.template Template.binOp = (do
    let left ← s.attr .left
    let op ← s.attr .op
    let right ← s.attr .right
    return "(" ++ left ++ " " ++ op ++ " " ++ right ++ ")") := by
  simp [Template.binOp, String.append_assoc]

theorem template_binOpFloorDiv : s.template Template.binOpFloorDiv = (do
    let left ← s.attr .left
    let right ← s.attr .right
    return "(Math.floor(" ++ left ++ " / " ++ right ++ "))") := by
  simp [Template.binOpFloorDiv, String.append_assoc]

theorem template_unaryOp : s.template Template.unaryOp = (do
    let op ← s.attr .op
    let operand ← s.attr .operand
    return "(" ++ op ++ operand ++ ")") := by
  simp [Template.unaryOp, String.append_assoc]

theorem template_ifExp : s.template Template.ifExp = (do
    let test ← s.attr .test
    let body ← s.attr .body
    let orelse ← s.attr .orelse
    return "((" ++ test ++ ") ? (" ++ body ++ ") : (" ++ orelse ++ "))") := by
  simp [Template.ifExp, String.append_assoc]

theorem template_member : s.template Template.member = (do
    let value ← s.attr .value
    let attr ← s.rawAttr .attr
    return value ++ "." ++ attr) := by
  simp [Template.member, String.append_assoc]

theorem template_subscript : s.template Template.subscript = (do
    let value ← s.attr .value
    let index ← s.attr .slice
    return value ++ "[" ++ index ++ "]") := by
  simp [Template.subscript, String.append_assoc]

theorem template_name : s.template Template.name = s.rawAttr .id := by
  simp [Template.name]

theorem template_starred : s.template Template.starred = (do
    let value ← s.attr .value
    return "..." ++ value) := by
  simp [Template.starred]

theorem template_list : s.template Template.list = (do
    let elts ← s.attr .elts
    return "[" ++ elts ++ "]") := by
  simp [Template.list, String.append_assoc]

end Site

/-- The text of a target is known before anything is decided about it. -/
theorem assignTo_eq_bind {κ : Type} (value : String) (target : Render κ String) :
    assignTo value target = target >>= fun name => assignTo value (pure name) := by
  simp [assignTo]

/-- An assignment to a target whose text is known asks the scopes for it and may declare it. -/
theorem assignTo_apply {κ : Type} (name value : String) (r : Renderer κ) :
    assignTo value (pure name) r =
      if isReference name || r.scopes.contains name then
        ⟨.ok (name ++ " = " ++ value), r, [.assignment name false]⟩
      else
        ⟨.ok ("var " ++ name ++ " = " ++ value), ⟨r.scopes.declare [name], r.cache⟩,
          [.assignment name true]⟩ := by
  have hknown : (Render.isDeclared name : Render κ Bool) r = ⟨.ok (r.scopes.contains name), r, []⟩ :=
    rfl
  rw [assignTo, pure_bind, Render.bind_of_ok (a := r.scopes.contains name) (by rw [hknown]), hknown]
  cases h : isReference name || r.scopes.contains name with
  | true => rfl
  | false => rfl

/-! ### The recursion of the renderer -/

section Recursion

variable {κ : Type} [DecidableEq κ] (keyOf : Place → κ)

theorem Expr.render_mk (l : Loc) (form : ExprForm Expr) (p : Place) :
    Expr.render keyOf ⟨l, form⟩ p = Render.around l ((form.map (Expr.render keyOf)).rule keyOf p) := by
  rw [Expr.render, Expr.fold_mk]
  rfl

theorem Stmt.emitter_loc (s : Stmt) : (s.emitter keyOf).loc = s.loc := by
  obtain ⟨l, form⟩ := s
  rw [Stmt.emitter, Stmt.fold_mk]
  rfl

theorem Stmt.render_mk (l : Loc) (form : StmtForm Stmt Expr) (p : Place) :
    Stmt.render keyOf ⟨l, form⟩ p =
      Render.around l (StmtForm.rule keyOf (form.map (Stmt.emitter keyOf)) p) := by
  rw [Stmt.render, Stmt.emitter, Stmt.fold_mk]
  rfl

end Recursion

end ScriptTree
