/-
  ScriptTree/Proofs/LeadingBindings.lean
  ======================================
  **Bindings are leading assignments.**  A script renders its bindings on their own and its body in
  scopes where the bound names are declared.  Rendering the bindings as assignments in front of the
  body comes to the same text, although the scopes differ: an assignment to a name that refers into
  something, such as `a.b`, declares nothing, while a script declares the names of all its bindings.
  No assignment can tell the difference, because such names are never given `var`
  (`Extends.flagsOf_eq`).

  The two part ways where both texts are joined.  A script leaves the separator out before a body
  whose text is empty.
-/
import ScriptTree.Proofs.InitialNames
import ScriptTree.Proofs.Passes
import ScriptTree.Proofs.Supported
import ScriptTree.Proofs.VarPlacement

namespace ScriptTree

open Rendition

/-! ### Values can be rendered -/

mutual

theorem Json.supported_toExpr : ∀ j : Json, j.toExpr.supported = true
  | .null | .bool _ | .int _ | .float _ | .str _ => by
    rw [toExpr, ExprForm.made, Expr.supported_mk]
    rfl
  | .arr items => by
    rw [toExpr, ExprForm.made, Expr.supported_mk]
    simpa [ExprForm.map, ExprForm.supported] using supported_itemExprs items
  | .obj members => by
    have hkeys : ∀ key ∈ members.map keyExpr, ∀ e ∈ key, e.supported = true := by
      rw [List.forall_mem_map]
      rintro m - e ⟨⟩
      rw [ExprForm.made, Expr.supported_mk]
      rfl
    have hvalues := supported_memberExprs members
    rw [toExpr, ExprForm.made, Expr.supported_mk]
    simp only [ExprForm.map, ExprForm.supported, List.zip_map, List.all_map, List.all_eq_true]
    rintro ⟨key, value⟩ hentry
    obtain ⟨hkey, hvalue⟩ := List.of_mem_zip hentry
    simp only [Function.comp_apply, Prod.map_apply, Bool.and_eq_true]
    refine ⟨?_, hvalues value hvalue⟩
    cases key with
    | none => rfl
    | some e => exact hkeys _ hkey e rfl

theorem Json.supported_itemExprs : ∀ items : List Json, ∀ e ∈ itemExprs items, e.supported = true
  | [] => by simp [itemExprs]
  | j :: rest => by
    rw [itemExprs, List.forall_mem_cons]
    exact ⟨supported_toExpr j, supported_itemExprs rest⟩

theorem Json.supported_memberExprs :
    ∀ members : List (String × Json), ∀ e ∈ memberExprs members, e.supported = true
  | [] => by simp [memberExprs]
  | (_, j) :: rest => by
    rw [memberExprs, List.forall_mem_cons]
    exact ⟨supported_toExpr j, supported_memberExprs rest⟩

end

theorem Binding.supported_stmt (b : Binding) : b.stmt.supported = true := by
  have htarget : (ExprForm.made (.name b.name)).supported = true := by
    rw [ExprForm.made, Expr.supported_mk]
    rfl
  rw [Binding.stmt, Stmt.supported_mk]
  simp [StmtForm.map, StmtForm.supported, b.value.supported_toExpr, htarget]

/-! ### What bindings do to the scopes -/

theorem Draft.acts_ofStmts_cons {s : Stmt} (hs : s.supported = true) (rest : List Stmt) :
    (Draft.ofStmts (s :: rest)).acts =
      (s.direct : Draft Sketch).acts ++ (Draft.ofStmts rest).acts := by
  cases Draft.joined_ofStmts [s] rest with
  | failsFirst hd hx hacts =>
    obtain ⟨a, ha⟩ := s.draft_succeeds_iff.mpr hs
    cases ha.symm.trans hd
  | failsSecond hd he hx hacts => exact hacts
  | succeeds hd he hx hacts hjoins => exact hacts

/-- A binding renders its value and its name, and then it assigns. -/
theorem Binding.acts_eq (b : Binding) :
    (b.stmt.direct : Draft Sketch).acts =
      (read b.value.toExpr.direct : Draft String).acts ++ [.compute, .assign b.name] := by
  obtain ⟨v, hv⟩ : (read b.value.toExpr.direct : Draft String).Succeeds := by
    rw [Draft.succeeds_read, Expr.draft_succeeds_iff]
    exact b.value.supported_toExpr
  rw [Binding.stmt, Stmt.direct_mk]
  simp only [StmtForm.map, StmtForm.direct, ExprForm.made, Expr.direct_mk, List.map_cons,
    List.map_nil]
  show (read b.value.toExpr.direct >>= _ : Draft Sketch).acts = _
  rw [Draft.bind_of_ok hv]
  rfl

/-- Of the acts of a binding only the assignment concerns the scopes. -/
theorem Binding.acts_stmt (b : Binding) :
    assigned (b.stmt.direct : Draft Sketch).acts = [b.name] ∧
    ∀ s, scopesAfter s (b.stmt.direct : Draft Sketch).acts = Act.after s (.assign b.name) := by
  have hquiet : Quiet (read b.value.toExpr.direct : Draft String) := (quiet_expr _).read
  constructor
  · rw [b.acts_eq, assigned_append, hquiet.1]
    rfl
  · intro s
    rw [b.acts_eq, scopesAfter_append, hquiet.2]
    rfl

theorem scopesAfter_bindings (bindings : List Binding) (s : ScopeStack) :
    scopesAfter s (Draft.ofStmts (bindings.map Binding.stmt)).acts =
      scopesAfter s ((bindings.map Binding.name).map Act.assign) := by
  induction bindings generalizing s with
  | nil => rfl
  | cons b rest ih =>
    rw [List.map_cons, Draft.acts_ofStmts_cons b.supported_stmt, scopesAfter_append,
      b.acts_stmt.2, ih]
    rfl

theorem assigned_bindings (bindings : List Binding) :
    assigned (Draft.ofStmts (bindings.map Binding.stmt)).acts = bindings.map Binding.name := by
  induction bindings with
  | nil => rfl
  | cons b rest ih =>
    rw [List.map_cons, Draft.acts_ofStmts_cons b.supported_stmt, assigned_append, b.acts_stmt.1, ih]
    rfl

theorem ScopeStack.frame_withDeclared {names : List String} {i : Nat} {f : Frame}
    (h : (ScopeStack.withDeclared names).frames[i]? = some f) :
    i = 0 ∧ ∀ x, x ∈ f.names ↔ x ∈ names := by
  rw [withDeclared, getElem?_declare] at h
  cases i with
  | zero =>
    have hlast : new.frames.size - 1 = 0 := rfl
    rw [if_pos hlast] at h
    cases h
    refine ⟨rfl, fun x => ?_⟩
    rw [Frame.mem_declare]
    simp [new]
  | succ i => simp [new] at h

theorem ScopeStack.contains_withDeclared (names : List String) (x : String) :
    (ScopeStack.withDeclared names).contains x = true ↔ x ∈ names := by
  have hlinked : (withDeclared names).Linked := linked_new.declare names
  have hsize : (withDeclared names).frames.size - 1 = 0 := by
    rw [withDeclared, size_declare]
    rfl
  rw [hlinked.contains_iff, hsize, visibleAt_withDeclared]

/-- Assignments at the top level declare all names but those that refer into something. -/
theorem scopesAfter_assigns (known names : List String) :
    ∃ more, scopesAfter (.withDeclared known) (names.map Act.assign) = .withDeclared more ∧
      ∀ x, x ∈ more ↔ x ∈ known ∨ x ∈ names ∧ isReference x = false := by
  induction names generalizing known with
  | nil => exact ⟨known, rfl, by simp⟩
  | cons name rest ih =>
    have hstep : scopesAfter (.withDeclared known) ((name :: rest).map Act.assign) =
        scopesAfter (Act.after (.withDeclared known) (.assign name)) (rest.map Act.assign) := rfl
    have hcontains := ScopeStack.contains_withDeclared known name
    rw [hstep, Act.after]
    cases hgives : Act.gives (.withDeclared known) name with
    | true =>
      have hdeclare : (ScopeStack.withDeclared known).declare [name] =
          .withDeclared (known ++ [name]) := by
        rw [ScopeStack.withDeclared, ScopeStack.withDeclared, ScopeStack.declare_declare]
      obtain ⟨more, hmore, hmem⟩ := ih (known ++ [name])
      rw [if_pos rfl, hdeclare]
      refine ⟨more, hmore, fun x => ?_⟩
      simp only [Act.gives, Bool.not_eq_true', Bool.or_eq_false_iff] at hgives
      rw [hmem]
      grind
    | false =>
      obtain ⟨more, hmore, hmem⟩ := ih known
      rw [if_neg (by simp)]
      refine ⟨more, hmore, fun x => ?_⟩
      -- the name is declared already or refers into something
      simp only [Act.gives, Bool.not_eq_false', Bool.or_eq_true, hcontains] at hgives
      rw [hmem]
      grind

/-! ### Names that are never given `var` -/

theorem Event.masked_of_references {names : List String} (s : ScopeStack) (acts : List Act)
    (h : ∀ x ∈ names, isReference x = true) :
    (eventsOf s acts).map (Event.masked names) = eventsOf s acts := by
  induction acts generalizing s with
  | nil => rfl
  | cons a rest ih =>
    rw [eventsOf, List.map_append, ih]
    congr 1
    cases a with
    | assign name =>
      have hgives : (Act.gives s name && decide (name ∉ names)) = Act.gives s name := by
        by_cases hname : name ∈ names
        · simp [Act.gives, h name hname]
        · simp [hname]
      show [Event.assignment name _] = [Event.assignment name _]
      rw [hgives]
    | leave =>
      simp only [Act.events]
      split
      · rfl
      · rfl
    | _ => rfl

theorem Extends.flagsOf_eq {names : List String} {s t : ScopeStack} (h : Extends names s t)
    (hnames : ∀ x ∈ names, isReference x = true) (acts : List Act) :
    flagsOf t acts = flagsOf s acts := by
  rw [flagsOf, h.eventsOf_eq acts, Event.masked_of_references s acts hnames]
  rfl

/-- Bindings and a script that starts with their names lead to the same flags. -/
theorem flagsOf_bindings (bindings : List Binding) (acts : List Act) :
    flagsOf (.withDeclared (bindings.map Binding.name)) acts =
      flagsOf (scopesAfter .new (Draft.ofStmts (bindings.map Binding.stmt)).acts) acts := by
  generalize hnames : bindings.map Binding.name = names
  have hnew : ScopeStack.withDeclared [] = .new := ScopeStack.declare_nil _
  obtain ⟨more, hmore, hmem⟩ := scopesAfter_assigns [] names
  rw [scopesAfter_bindings, hnames, ← hnew, hmore]
  have hextends : Extends (names.filter isReference) (.withDeclared more) (.withDeclared names) := by
    refine ⟨?_, ScopeStack.linked_new.declare _, ScopeStack.linked_new.declare _, ?_, ?_⟩
    · rw [ScopeStack.withDeclared, ScopeStack.withDeclared, ScopeStack.size_declare,
        ScopeStack.size_declare]
    · intro i f g hf hg x hx
      rw [(ScopeStack.frame_withDeclared hf).2, (ScopeStack.frame_withDeclared hg).2, hmem]
      simp_all
    · intro g hg x hx
      rw [(ScopeStack.frame_withDeclared hg).2]
      exact (List.mem_filter.mp hx).1
  exact hextends.flagsOf_eq (fun x hx => (List.mem_filter.mp hx).2) acts

/-! ### Scripts -/

theorem Sketch.fill_ne_empty {sketch : Sketch} (flags : List Bool) (h : sketch.entries ≠ []) :
    sketch.fill flags ≠ "" := by
  induction sketch generalizing flags with
  | nil => exact absurd rfl h
  | cons segment rest ih =>
    cases segment with
    | text t =>
      have hrest := ih flags h
      simp [fill, hrest]
    | assignment name value =>
      rw [fill]
      split
      · simp
      · simp

theorem renderBody_result (stmts : List Stmt) (declared : List String) :
    (renderBody stmts declared).result = (Draft.ofStmts stmts).result.map fun sketch =>
      sketch.fill (flagsOf (.withDeclared declared) (Draft.ofStmts stmts).acts) := by
  have hbody := renderBody_eq_draft stmts declared
  simp only at hbody
  rw [hbody]
  rfl

/-- The text of bindings is empty only if there are none. -/
theorem preamble_eq_empty_iff {bindings : List Binding} {preamble : String}
    (h : (renderBody (bindings.map Binding.stmt) []).result = .ok preamble) :
    preamble = "" ↔ bindings = [] := by
  rw [renderBody_result] at h
  cases hd : (Draft.ofStmts (bindings.map Binding.stmt)).result with
  | error err =>
    rw [hd] at h
    cases h
  | ok sketch =>
    rw [hd] at h
    cases h
    have hentries := Draft.entries_ofStmts hd
    rw [assigned_bindings] at hentries
    cases bindings with
    | nil =>
      cases hd
      simp [Sketch.fill]
    | cons b rest =>
      have hsome : sketch.entries ≠ [] := by
        intro hnone
        simp [hnone] at hentries
      simp [Sketch.fill_ne_empty _ hsome]

/-- Bindings rendered in front of a body: they succeed, and the body is rendered as if their names
    had been declared beforehand. -/
theorem renderBody_bindings (bindings : List Binding) (body : List Stmt) :
    ∃ preamble, (renderBody (bindings.map Binding.stmt) []).result = .ok preamble ∧
      (renderBody (bindings.map Binding.stmt ++ body) []).result =
        (renderBody body (bindings.map Binding.name)).result.map fun text =>
          preamble ++ between bindings body ++ text := by
  have hnew : ScopeStack.withDeclared [] = .new := ScopeStack.declare_nil _
  have hbetween : between (bindings.map Binding.stmt) body = between bindings body := by
    simp [between]
  have hjoined := Draft.joined_ofStmts (bindings.map Binding.stmt) body
  rw [renderBody_result, renderBody_result, renderBody_result, flagsOf_bindings, hnew]
  rw [hbetween] at hjoined
  cases hjoined with
  | failsFirst hd hx hacts =>
    obtain ⟨a, ha⟩ : (Draft.ofStmts (bindings.map Binding.stmt)).Succeeds := by
      rw [Draft.ofStmts_succeeds_iff, List.forall_mem_map]
      exact fun b _ => b.supported_stmt
    cases ha.symm.trans hd
  | failsSecond hd he hx hacts =>
    rw [hd, he, hx]
    exact ⟨_, rfl, rfl⟩
  | succeeds hd he hx hacts hjoins =>
    rw [hd, he, hx]
    refine ⟨_, rfl, congrArg Except.ok ?_⟩
    rw [hacts, flagsOf_append]
    exact hjoins _ _ (length_flagsOf_entries _ hd) (length_flagsOf_entries _ he)

/-- The two texts are put together by whether they are empty, the statements by whether there are
    any.  The two differ only for a body with statements and no text. -/
theorem Script.assemble_eq_between {preamble text : String} {bindings : List Binding}
    {body : List Stmt} (hpreamble : preamble = "" ↔ bindings = []) (hnone : body = [] → text = "")
    (hsome : body = [] ∨ bindings = [] ∨ text ≠ "") :
    Script.assemble preamble text = preamble ++ between bindings body ++ text := by
  by_cases hbindings : bindings = []
  · simp [Script.assemble, between, hbindings, hpreamble.mpr hbindings]
  · have hbound : preamble ≠ "" := fun h => hbindings (hpreamble.mp h)
    by_cases hbody : body = []
    · simp [Script.assemble, between, hbody, hnone hbody, hbound]
    · have htext : text ≠ "" := by simpa [hbindings, hbody] using hsome
      simp [Script.assemble, between, hbindings, hbody, hbound, htext]

/-- **Bindings are leading assignments.**  Building a script never fails.  What it renders is what
    comes of the bindings as assignments in front of the body, unless there are bindings and a body
    with statements but no text: then it is the text of the bindings alone. -/
theorem script_eq_leading_assignments (m : Module) (bindings : List Binding) :
    ∃ script, (Script.build m bindings).result = .ok script ∧
      (renderBody (bindings.map Binding.stmt) []).result = .ok script.preamble ∧
      let body := (renderBody m.body (bindings.map Binding.name)).result
      (m.body = [] ∨ bindings = [] ∨ body ≠ .ok "" →
        script.render.result = (renderBody (bindings.map Binding.stmt ++ m.body) []).result) ∧
      (m.body ≠ [] ∧ bindings ≠ [] ∧ body = .ok "" →
        script.render.result = .ok script.preamble) := by
  obtain ⟨preamble, hpreamble, happend⟩ := renderBody_bindings bindings m.body
  have hempty := preamble_eq_empty_iff hpreamble
  have hbuild : (Script.build m bindings).result =
      (renderBody (bindings.map Binding.stmt) []).result.map fun preamble =>
        ⟨m.body, bindings.map Binding.name, preamble⟩ := rfl
  rw [hpreamble] at hbuild
  refine ⟨⟨m.body, bindings.map Binding.name, preamble⟩, hbuild, hpreamble, ?_, ?_⟩
  · intro hcases
    show (renderBody m.body (bindings.map Binding.name)).result.map (Script.assemble preamble) = _
    rw [happend]
    cases hbody : (renderBody m.body (bindings.map Binding.name)).result with
    | error err => rfl
    | ok text =>
      have hnone : m.body = [] → text = "" := by
        intro hstmts
        rw [hstmts] at hbody
        cases hbody
        rfl
      rw [hbody] at hcases
      exact congrArg Except.ok (Script.assemble_eq_between hempty hnone (by simpa using hcases))
  · rintro ⟨-, hbindings, hbody⟩
    show (renderBody m.body (bindings.map Binding.name)).result.map (Script.assemble preamble) = _
    have hsome : preamble ≠ "" := fun h => hbindings (hempty.mp h)
    rw [hbody]
    simp [Except.map, Script.assemble, hsome]

-- a statement without text leaves a separator behind an assignment, but not behind a preamble
example : (renderBody ([Binding.mk "x" .null].map Binding.stmt ++ [⟨.synthetic, .pass⟩]) []).result =
    .ok "var x = null;\n" := rfl

example : ((Script.build ⟨.synthetic, [⟨.synthetic, .pass⟩]⟩ [⟨"x", .null⟩]).result.bind fun script =>
    script.render.result) = .ok "var x = null" := rfl

end ScriptTree
