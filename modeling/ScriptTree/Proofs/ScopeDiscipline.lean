/-
  ScriptTree/Proofs/ScopeDiscipline.lean
  ======================================
  **What rendering does to the scopes**, on success and on failure alike.

    * An expression leaves them as they were, and so do a function and a loop over the elements of
      something: what is declared in a scope goes with it.
    * Statements write to the innermost frame only, and what they add to it can be read off the
      events: the names given `var` outside of any scope opened meanwhile (`declaredAt 0`).

  Nothing is asked of the cache here.  Keys may coincide and stale texts may be found, because a
  text found in the cache is no less steady than one rendered.
-/
import ScriptTree.Proofs.CacheTransparency

namespace ScriptTree

/-! ### Events and the scopes they open -/

/-- The number of open scopes after some events, counted from `n`. -/
def levelAfter : Nat → List Event → Nat
  | n, [] => n
  | n, .enteredScope _ :: rest => levelAfter (n + 1) rest
  | n, .exitedScope _ :: rest => levelAfter (n - 1) rest
  | n, _ :: rest => levelAfter n rest

/-- The names that are given `var` when no scope is open, if `n` are open at the start. -/
def declaredAt : Nat → List Event → List String
  | _, [] => []
  | n, .enteredScope _ :: rest => declaredAt (n + 1) rest
  | n, .exitedScope _ :: rest => declaredAt (n - 1) rest
  | 0, .assignment name true :: rest => name :: declaredAt 0 rest
  | n, _ :: rest => declaredAt n rest

theorem levelAfter_append (n : Nat) (es fs : List Event) :
    levelAfter n (es ++ fs) = levelAfter (levelAfter n es) fs := by
  fun_induction levelAfter n es with
  | case1 n => rfl
  | case2 n depth rest ih => exact ih
  | case3 n depth rest ih => exact ih
  | case4 n e rest hentered hexited ih =>
    cases e with
    | enteredScope depth => exact absurd rfl (hentered depth)
    | exitedScope depth => exact absurd rfl (hexited depth)
    | _ => exact ih

theorem declaredAt_append (n : Nat) (es fs : List Event) :
    declaredAt n (es ++ fs) = declaredAt n es ++ declaredAt (levelAfter n es) fs := by
  induction es generalizing n with
  | nil => rfl
  | cons e rest ih =>
    cases e with
    | enteredScope depth => exact ih (n + 1)
    | exitedScope depth => exact ih (n - 1)
    | assignment name declared =>
      cases n with
      | zero =>
        cases declared with
        | true => exact congrArg (name :: ·) (ih 0)
        | false => exact ih 0
      | succ n => cases declared <;> exact ih (n + 1)
    | body _ | enter | rendered _ | exit => cases n <;> exact ih _

/-- Events that close the scopes they open and declare nothing outside of them. -/
def Steady (es : List Event) : Prop := ∀ n, levelAfter n es = n ∧ declaredAt n es = []

/-- Events that close the scopes they open and declare nothing further out. -/
def Inward (es : List Event) : Prop := ∀ n, levelAfter n es = n ∧ declaredAt (n + 1) es = []

theorem Steady.inward {es : List Event} (h : Steady es) : Inward es :=
  fun n => ⟨(h n).1, (h (n + 1)).2⟩

theorem Steady.append {es fs : List Event} (hes : Steady es) (hfs : Steady fs) :
    Steady (es ++ fs) := by
  intro n
  rw [levelAfter_append, declaredAt_append, (hes n).1, (hes n).2]
  exact hfs n

theorem Inward.append {es fs : List Event} (hes : Inward es) (hfs : Inward fs) :
    Inward (es ++ fs) := by
  intro n
  rw [levelAfter_append, declaredAt_append, (hes n).1, (hes (n + 1)).1, (hes n).2]
  exact hfs n

theorem Inward.inScope {es : List Event} (h : Inward es) (opened left : Nat) :
    Steady (.enteredScope opened :: es ++ [.exitedScope left]) := by
  intro n
  have hlevel : levelAfter n (.enteredScope opened :: es) = n + 1 := (h (n + 1)).1
  have hnames : declaredAt n (.enteredScope opened :: es) = [] := (h n).2
  rw [levelAfter_append, declaredAt_append, hlevel, hnames]
  exact ⟨rfl, rfl⟩

/-! ### Actions on scopes -/

variable {κ α β : Type}

/-- An action that leaves the scopes as they were. -/
def KeepsScopes (m : Render κ α) : Prop :=
  ∀ r, (m r).renderer.scopes = r.scopes ∧ Steady (m r).events

/-- An action that adds to the innermost frame the names its events declare there. -/
def DeclaresHere (m : Render κ α) : Prop :=
  ∀ r, (m r).renderer.scopes = r.scopes.declare (declaredAt 0 (m r).events) ∧ Inward (m r).events

theorem KeepsScopes.declaresHere {m : Render κ α} (h : KeepsScopes m) : DeclaresHere m := by
  intro r
  obtain ⟨hscopes, hsteady⟩ := h r
  rw [hscopes, (hsteady 0).2, ScopeStack.declare_nil]
  exact ⟨rfl, hsteady.inward⟩

theorem keepsScopes_pure (a : α) : KeepsScopes (pure a : Render κ α) :=
  fun _ => ⟨rfl, fun _ => ⟨rfl, rfl⟩⟩

theorem keepsScopes_fail (e : RenderError) : KeepsScopes (Render.fail e : Render κ α) :=
  fun _ => ⟨rfl, fun _ => ⟨rfl, rfl⟩⟩

theorem KeepsScopes.bind {m : Render κ α} {f : α → Render κ β} (hm : KeepsScopes m)
    (hf : ∀ a, KeepsScopes (f a)) : KeepsScopes (m >>= f) := by
  intro r
  obtain ⟨hscopes, hsteady⟩ := hm r
  cases hresult : (m r).result with
  | error e =>
    rw [Render.bind_of_error hresult]
    exact ⟨hscopes, hsteady⟩
  | ok a =>
    rw [Render.bind_of_ok hresult]
    obtain ⟨hscopes', hsteady'⟩ := hf a (m r).renderer
    exact ⟨hscopes'.trans hscopes, hsteady.append hsteady'⟩

theorem DeclaresHere.bind {m : Render κ α} {f : α → Render κ β} (hm : DeclaresHere m)
    (hf : ∀ a, DeclaresHere (f a)) : DeclaresHere (m >>= f) := by
  intro r
  obtain ⟨hscopes, hinward⟩ := hm r
  cases hresult : (m r).result with
  | error e =>
    rw [Render.bind_of_error hresult]
    exact ⟨hscopes, hinward⟩
  | ok a =>
    rw [Render.bind_of_ok hresult]
    obtain ⟨hscopes', hinward'⟩ := hf a (m r).renderer
    refine ⟨?_, hinward.append hinward'⟩
    show (f a (m r).renderer).renderer.scopes = r.scopes.declare (declaredAt 0 (_ ++ _))
    rw [hscopes', hscopes, declaredAt_append, (hinward 0).1, ScopeStack.declare_declare]

/-- A scope takes what was declared in it along, also when the action in it fails. -/
theorem DeclaresHere.inScope {m : Render κ α} (h : DeclaresHere m) (names : List String) :
    KeepsScopes (Render.inScope names m) := by
  intro r
  obtain ⟨hscopes, hinward⟩ := h ⟨r.scopes.enter.declare names, r.cache⟩
  have hopen : 1 < (m ⟨r.scopes.enter.declare names, r.cache⟩).renderer.scopes.depth := by
    have hpos := r.scopes.nonempty
    rw [hscopes, ScopeStack.depth, ScopeStack.size_declare, ScopeStack.size_declare,
      ScopeStack.size_enter]
    omega
  -- the frame opened here is still the innermost one when the action ends, so it is the one dropped
  constructor
  · show (m ⟨r.scopes.enter.declare names, r.cache⟩).renderer.scopes.exit = r.scopes
    rw [hscopes, ScopeStack.declare_declare, ScopeStack.exit_declare_enter]
  · simp only [Render.inScope, if_pos hopen]
    exact hinward.inScope _ _

theorem declaresHere_assign (name value : String) :
    DeclaresHere (assignTo value (pure name) : Render κ String) := by
  intro r
  rw [assignTo_apply]
  split
  · exact ⟨(r.scopes.declare_nil).symm, fun _ => ⟨rfl, rfl⟩⟩
  · exact ⟨rfl, fun _ => ⟨rfl, rfl⟩⟩

section Fields

variable [DecidableEq κ]

theorem keepsScopes_find (key : AttrKey κ) : KeepsScopes (Render.find key) :=
  fun _ => ⟨rfl, fun _ => ⟨rfl, rfl⟩⟩

theorem keepsScopes_store (key : AttrKey κ) (text : String) : KeepsScopes (Render.store key text) :=
  fun _ => ⟨rfl, fun _ => ⟨rfl, rfl⟩⟩

variable {site : Site κ} {f : Field}

theorem KeepsScopes.attr {v : FieldValue (Render κ String) (Render κ String)}
    (hv : site.fields.lookup f = some v) (h : KeepsScopes v.render) : KeepsScopes (site.attr f) := by
  refine (keepsScopes_find _).bind fun found => ?_
  cases found with
  | some text => exact keepsScopes_pure text
  | none =>
    simp only [hv]
    exact h.bind fun text => keepsScopes_store _ text

theorem DeclaresHere.attr {v : FieldValue (Render κ String) (Render κ String)}
    (hv : site.fields.lookup f = some v) (h : DeclaresHere v.render) :
    DeclaresHere (site.attr f) := by
  refine (keepsScopes_find _).declaresHere.bind fun found => ?_
  cases found with
  | some text => exact (keepsScopes_pure text).declaresHere
  | none =>
    simp only [hv]
    exact h.bind fun text => (keepsScopes_store _ text).declaresHere

theorem keepsScopes_rawAttr {t : String} (hv : site.fields.lookup f = some (.ident t)) :
    KeepsScopes (site.rawAttr f) := by
  refine (keepsScopes_find _).bind fun found => ?_
  cases found with
  | some text => exact keepsScopes_pure text
  | none =>
    simp only [hv]
    exact keepsScopes_store _ t

end Fields

/-! ### Trees -/

section Trees

variable [DecidableEq κ] (keyOf : Place → κ)

/-- Expressions keep the scopes and statements declare in the innermost frame.  This is a property
    of the renderer alone: whatever it is compared with plays no part. -/
def scopeDiscipline : Simulation keyOf Plain String where
  nodes := Set.univ
  expr _ m _ := KeepsScopes m
  stmt _ m _ := DeclaresHere m
  expr_mono _ h := h
  expr_pure a := keepsScopes_pure a
  expr_fail e := keepsScopes_fail e
  expr_bind _ hm hf := hm.bind hf
  expr_around _ h := h
  expr_inScope names h := h.declaresHere.inScope names
  expr_attr _ _ hv _ h := h.attr hv
  expr_rawAttr _ _ hv := keepsScopes_rawAttr hv
  expr_attrTwice _ _ hv _ h :=
    (h.attr hv).bind fun _ => (h.attr hv).bind fun _ => keepsScopes_pure _
  stmt_mono _ h := h
  stmt_text t := (keepsScopes_pure t).declaresHere
  stmt_fail e := (keepsScopes_fail e).declaresHere
  stmt_both _ hm hn := hm.bind fun _ => hn.bind fun _ => (keepsScopes_pure _).declaresHere
  stmt_bind _ hm hf := hm.declaresHere.bind hf
  stmt_around _ h := h
  stmt_inScope names h := (h.inScope names).declaresHere
  stmt_attr _ _ hv _ h := h.attr hv
  stmt_assign name value := declaresHere_assign name value

theorem keepsScopes_expr (e : Expr) (p : Place) : KeepsScopes (e.render keyOf p) :=
  (scopeDiscipline keyOf).render_expr e p (Set.subset_univ _)

theorem declaresHere_stmt (s : Stmt) (p : Place) : DeclaresHere (s.render keyOf p) :=
  (scopeDiscipline keyOf).render_stmt s p (Set.subset_univ _)

theorem declaresHere_all (stmts : List Stmt) : DeclaresHere (renderAll keyOf stmts) :=
  (scopeDiscipline keyOf).render_all stmts (Set.subset_univ _)

/-- A function keeps the scopes: its name and parameters declare nothing, and its body stands in a
    scope of its own. -/
theorem keepsScopes_functionDef (l : Loc) (name : String) (params : Params Expr)
    (body : List Stmt) (decorators : List Expr) (p : Place) :
    KeepsScopes (Stmt.render keyOf ⟨l, .functionDef name params body decorators⟩ p) := by
  rw [Stmt.render_mk]
  cases decorators with
  | cons decorator rest => exact keepsScopes_fail _
  | nil =>
    refine (keepsScopes_rawAttr (f := .name) rfl).bind fun name => DeclaresHere.inScope ?_ _
    exact (scopeDiscipline keyOf).stmt_functionBody name (Set.mem_univ p) rfl rfl
      (fun j e _ => keepsScopes_expr keyOf e _) fun i s _ => declaresHere_stmt keyOf s _

theorem keepsScopes_forLoop (l : Loc) (target iter : Expr) (body orelse : List Stmt) (p : Place) :
    KeepsScopes (Stmt.render keyOf ⟨l, .forLoop target iter body orelse⟩ p) := by
  rw [Stmt.render_mk]
  cases orelse with
  | cons stmt rest => exact keepsScopes_fail _
  | nil =>
    obtain ⟨loc, form⟩ := target
    cases form with
    | name id =>
      let site := StmtForm.site keyOf
        (.forLoop ⟨loc, .name id⟩ iter (body.map (Stmt.emitter keyOf)) []) p
      have hiter : KeepsScopes (site.attr .iter) :=
        (scopeDiscipline keyOf).expr_fieldOne (d := iter.direct) (Set.mem_univ p) rfl rfl
          (keepsScopes_expr keyOf iter _)
      refine hiter.bind fun text => DeclaresHere.inScope ?_ _
      exact (scopeDiscipline keyOf).stmt_wrap _ _ ((scopeDiscipline keyOf).stmt_fieldLines
        (Set.mem_univ p) rfl rfl fun i s _ => declaresHere_stmt keyOf s _)
    | _ => exact keepsScopes_fail _

end Trees

/-! ### Passes -/

/-- **Scope discipline.**  Whatever the renderer holds and however it ends: a pass over an expression
    leaves the scopes as they were, and so does rendering a function or a loop over the elements of
    something.  A pass over statements keeps the depth, every frame but the innermost and the parent
    of that one, and adds to its names exactly those that were given `var` directly in it. -/
theorem scopes_after [DecidableEq κ] (keyOf : Place → κ) (r : Renderer κ) :
    (∀ e, (Renderer.renderExpr keyOf e r).renderer.scopes = r.scopes) ∧
    (∀ l name params body decorators p,
      (Stmt.render keyOf ⟨l, .functionDef name params body decorators⟩ p r).renderer.scopes =
        r.scopes) ∧
    (∀ l target iter body orelse p,
      (Stmt.render keyOf ⟨l, .forLoop target iter body orelse⟩ p r).renderer.scopes = r.scopes) ∧
    ∀ stmts,
      let o := Renderer.renderStmts keyOf stmts r
      o.renderer.scopes.depth = r.scopes.depth ∧
      o.renderer.scopes.frames.pop = r.scopes.frames.pop ∧
      o.renderer.scopes.innermost.parent = r.scopes.innermost.parent ∧
      ∀ x, x ∈ o.renderer.scopes.innermost.names ↔
        x ∈ r.scopes.innermost.names ∨ x ∈ declaredAt 0 o.events := by
  refine ⟨?_, ?_, ?_, ?_⟩
  · intro e
    exact (keepsScopes_expr keyOf e [] r.startPass).1
  · intro l name params body decorators p
    exact (keepsScopes_functionDef keyOf l name params body decorators p r).1
  · intro l target iter body orelse p
    exact (keepsScopes_forLoop keyOf l target iter body orelse p r).1
  · intro stmts o
    have hscopes : o.renderer.scopes = r.scopes.declare (declaredAt 0 o.events) :=
      (declaresHere_all keyOf stmts r.startPass).1
    rw [hscopes, ScopeStack.innermost_declare]
    refine ⟨r.scopes.size_declare _, r.scopes.pop_declare _, rfl, fun x => ?_⟩
    exact Frame.mem_declare _ _ x

end ScriptTree
