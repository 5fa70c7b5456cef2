/-
  ScriptTree/Proofs/ScriptEvents.lean
  ===================================
  **What a script reports.**  The events of a script are those of its bindings, one each, and then
  those of its body between a head and a tail.  The tail has the counts of the pass if there is a
  text, and nothing else tells success from failure.

  In a body the scopes are properly nested, also when rendering fails halfway: a scope that was
  opened is closed before the failure is reported further out.  This is said by a grammar of events
  (`Bracketed`), which gives the depths as well, and shown for every draft by one lemma per building
  block of the rules.  What a successful body reports is its trail.
-/
import ScriptTree.Proofs.EventTrail
import ScriptTree.Proofs.LeadingBindings

namespace ScriptTree

open Rendition

variable {κ : Type} [DecidableEq κ] {α β : Type}

/-! ### Scopes are nested -/

/-- Events in which scopes are properly nested, when `k` of them are open around.  The top level
    counts as depth one. -/
inductive Bracketed : Nat → List Event → Prop
  | nil {k : Nat} : Bracketed k []
  | assignment {k : Nat} {es : List Event} (name : String) (declared : Bool) :
      Bracketed k es → Bracketed k (.assignment name declared :: es)
  | scope {k : Nat} {inner es : List Event} : Bracketed (k + 1) inner → Bracketed k es →
      Bracketed k (.enteredScope (k + 2) :: inner ++ .exitedScope (k + 1) :: es)

theorem Bracketed.append {k : Nat} {es fs : List Event} (hes : Bracketed k es)
    (hfs : Bracketed k fs) : Bracketed k (es ++ fs) := by
  induction hes with
  | nil => exact hfs
  | assignment name declared _ ih => exact .assignment name declared (ih hfs)
  | scope hinner _ _ ih =>
    rw [List.append_assoc]
    exact .scope hinner (ih hfs)

/-- A draft that closes every scope it opens, also if it fails. -/
def Draft.Closes (d : Draft α) : Prop :=
  ∀ s, (scopesAfter s d.acts).depth = s.depth ∧ Bracketed (s.depth - 1) (eventsOf s d.acts)

namespace Draft

variable {d : Draft α}

theorem closes_of_no_acts (h : d.acts = []) : d.Closes := by
  intro s
  rw [h]
  exact ⟨rfl, .nil⟩

theorem Closes.bind {f : α → Draft β} (hd : d.Closes) (hf : ∀ a, (f a).Closes) :
    (d >>= f).Closes := by
  intro s
  obtain ⟨hdepth, hevents⟩ := hd s
  rcases hresult : d.result with e | a
  · rw [bind_of_error hresult]
    exact ⟨hdepth, hevents⟩
  · obtain ⟨hdepth', hevents'⟩ := hf a (scopesAfter s d.acts)
    rw [hdepth] at hdepth' hevents'
    rw [bind_of_ok hresult]
    simp only [scopesAfter_append, eventsOf_append]
    exact ⟨hdepth', hevents.append hevents'⟩

theorem Closes.andThen {acts : List Act} (hd : d.Closes) (hstay : ∀ s, scopesAfter s acts = s)
    (hsilent : ∀ s, eventsOf s acts = []) : (d.andThen acts).Closes := by
  rcases hresult : d.result with e | a
  · rw [andThen_of_error _ hresult]
    exact hd
  · intro s
    obtain ⟨hdepth, hevents⟩ := hd s
    rw [andThen_of_ok _ hresult]
    simp only [scopesAfter_append, eventsOf_append, hstay, hsilent, List.append_nil]
    exact ⟨hdepth, hevents⟩

theorem Closes.read (hd : d.Closes) : (Rendition.read d).Closes :=
  hd.andThen (fun _ => rfl) fun _ => rfl

theorem Closes.readTwice {d : Draft String} (hd : d.Closes) : (Rendition.readTwice d).Closes := by
  have hboth : (d.andThen [.compute, .reuse]).Closes := hd.andThen (fun _ => rfl) fun _ => rfl
  exact hboth

theorem Closes.inScope (names : List String) (hd : d.Closes) :
    (Rendition.inScope names d).Closes := by
  intro s
  obtain ⟨hdepth, hinner⟩ := hd (s.enter.declare names)
  obtain ⟨hclosed, hevents⟩ := acts_inScope hdepth
  refine ⟨hclosed, ?_⟩
  obtain ⟨k, hk⟩ : ∃ k, s.depth = k + 1 := Nat.exists_eq_add_one.mpr s.nonempty
  rw [ScopeStack.depth_scope, hk] at hinner
  rw [hevents, hk]
  exact .scope hinner .nil

theorem closes_assign (name value : String) :
    (Rendition.assign name value : Draft Sketch).Closes := by
  intro s
  exact ⟨Act.depth_after_assign s name, .assignment name _ .nil⟩

end Draft

/-- Drafts close the scopes they open.  The renderer they are compared with plays no part. -/
def scopeClosing (keyOf : Place → κ) : Simulation keyOf Draft Sketch where
  nodes := Set.univ
  expr _ _ d := d.Closes
  stmt _ _ d := d.Closes
  expr_mono _ h := h
  expr_pure _ := Draft.closes_of_no_acts rfl
  expr_fail _ := Draft.closes_of_no_acts rfl
  expr_bind _ hm hf := hm.bind hf
  expr_around _ h := h
  expr_inScope names h := h.inScope names
  expr_attr _ _ _ _ h := h.read
  expr_rawAttr _ _ _ := (Draft.closes_of_no_acts rfl).read
  expr_attrTwice _ _ _ _ h := h.readTwice
  stmt_mono _ h := h
  stmt_text _ := Draft.closes_of_no_acts rfl
  stmt_fail _ := Draft.closes_of_no_acts rfl
  stmt_both _ hm hn := hm.bind fun _ => hn.bind fun _ => Draft.closes_of_no_acts rfl
  stmt_bind _ hm hf := hm.bind hf
  stmt_around _ h := h
  stmt_inScope names h := h.inScope names
  stmt_attr _ _ _ _ h := h.read
  stmt_assign name value := Draft.closes_assign name value

theorem Draft.closes_ofStmts (stmts : List Stmt) : (Draft.ofStmts stmts).Closes :=
  (scopeClosing (id : Place → Place)).render_all stmts (Set.subset_univ _)

/-! ### The events of bindings -/

/-- One assignment per binding, in order.  It declares its name unless the name refers into something
    or was bound before. -/
def bindingEvents (bindings : List Binding) : List Event :=
  bindings.mapIdx fun i b => .assignment b.name
    (!isReference b.name && !((bindings.take i).map Binding.name).contains b.name)

mutual

/-- The expression of a value has no lambdas. -/
theorem Json.trail_toExpr : ∀ j : Json, j.toExpr.trail = []
  | .null | .bool _ | .int _ | .float _ | .str _ => by
    rw [toExpr, ExprForm.made, Expr.trail_mk]
    rfl
  | .arr items => by
    rw [toExpr, ExprForm.made, Expr.trail_mk]
    simpa [ExprForm.map, ExprForm.trail, ExprForm.reached, ExprForm.children] using
      trail_itemExprs items
  | .obj members => by
    have hkeys : ∀ key ∈ members.map keyExpr, ∀ e ∈ key, e.trail = [] := by
      rw [List.forall_mem_map]
      rintro m - e ⟨⟩
      rw [ExprForm.made, Expr.trail_mk]
      rfl
    rw [toExpr, ExprForm.made, Expr.trail_mk]
    show ((ExprForm.dict _ _).map Expr.trail).reached.flatten = []
    rw [ExprForm.reached_map, List.flatten_eq_nil_iff, List.forall_mem_map]
    intro e he
    rcases List.mem_append.mp (ExprForm.mem_children_of_reached he) with he | he
    · obtain ⟨key, hkey, he⟩ := List.mem_flatMap.mp he
      exact hkeys key hkey e (Option.mem_toList.mp he)
    · exact trail_memberExprs members e he

theorem Json.trail_itemExprs : ∀ items : List Json, ∀ e ∈ itemExprs items, e.trail = []
  | [] => by simp [itemExprs]
  | j :: rest => by
    rw [itemExprs, List.forall_mem_cons]
    exact ⟨trail_toExpr j, trail_itemExprs rest⟩

theorem Json.trail_memberExprs :
    ∀ members : List (String × Json), ∀ e ∈ memberExprs members, e.trail = []
  | [] => by simp [memberExprs]
  | (_, j) :: rest => by
    rw [memberExprs, List.forall_mem_cons]
    exact ⟨trail_toExpr j, trail_memberExprs rest⟩

end

theorem Binding.eventsOf_stmt (b : Binding) (s : ScopeStack) :
    eventsOf s (b.stmt.direct : Draft Sketch).acts =
      [.assignment b.name (Act.gives s b.name)] := by
  have htraces := b.value.toExpr.draft_traces.read
  rw [b.value.trail_toExpr] at htraces
  obtain ⟨v, hv⟩ : (read b.value.toExpr.direct : Draft String).Succeeds := by
    rw [Draft.succeeds_read, Expr.draft_succeeds_iff]
    exact b.value.supported_toExpr
  have hsilent := List.forall₂_nil_left_iff.mp (htraces v hv s).2
  rw [b.acts_eq, eventsOf_append, hsilent, (quiet_expr _).read.2]
  rfl

theorem eventsOf_bindings (bindings : List Binding) (s : ScopeStack) :
    eventsOf s (Draft.ofStmts (bindings.map Binding.stmt)).acts =
      eventsOf s ((bindings.map Binding.name).map Act.assign) := by
  induction bindings generalizing s with
  | nil => rfl
  | cons b rest ih =>
    rw [List.map_cons, Draft.acts_ofStmts_cons b.supported_stmt, eventsOf_append, b.eventsOf_stmt,
      b.acts_stmt.2, ih]
    rfl

theorem eventsOf_assigns (s : ScopeStack) (names : List String) :
    eventsOf s (names.map Act.assign) = names.mapIdx fun i name =>
      .assignment name (Act.gives (scopesAfter s ((names.take i).map Act.assign)) name) := by
  induction names generalizing s with
  | nil => rfl
  | cons name rest ih =>
    rw [List.map_cons, eventsOf, ih, List.mapIdx_cons]
    rfl

theorem gives_after_assigns (names : List String) (name : String) :
    Act.gives (scopesAfter .new (names.map Act.assign)) name =
      (!isReference name && !names.contains name) := by
  have hnew : ScopeStack.withDeclared [] = .new := ScopeStack.declare_nil _
  obtain ⟨more, hmore, hmem⟩ := scopesAfter_assigns [] names
  have hcontains := ScopeStack.contains_withDeclared more name
  rw [← hnew, hmore, Act.gives, Bool.not_or]
  by_cases href : isReference name = true
  · rw [href]
    rfl
  · have hsame : (ScopeStack.withDeclared more).contains name = names.contains name := by
      rw [Bool.eq_iff_iff, hcontains, hmem, List.contains_iff_mem]
      simp [href]
    rw [hsame]

/-- Bindings report one assignment each. -/
theorem eventsOf_bindings_eq (bindings : List Binding) :
    eventsOf .new (Draft.ofStmts (bindings.map Binding.stmt)).acts = bindingEvents bindings := by
  rw [eventsOf_bindings, eventsOf_assigns]
  apply List.ext_getElem
  · simp [bindingEvents]
  · intro i hi hi'
    simp only [bindingEvents, List.getElem_mapIdx, List.getElem_map, gives_after_assigns]
    rw [List.map_take]

/-! ### Scripts -/

theorem events_pass (keyOf : Place → κ) {stmts : List Stmt}
    (hkeys : Set.InjOn keyOf (nodesOf stmts)) (r : Renderer κ) :
    (Renderer.renderStmts keyOf stmts r).events = eventsOf r.scopes (Draft.ofStmts stmts).acts := by
  have hfollows := (drafting keyOf (nodesOf stmts) hkeys).render_all stmts subset_rfl
  obtain ⟨-, htracks⟩ := hfollows.1 r.startPass fresh_empty
  exact htracks.events

/-- What a script reports: its bindings, and then its body between a head and a tail. -/
theorem Script.run_eq (m : Module) (bindings : List Binding) :
    let pass := Renderer.renderStmts (id : Place → Place) m.body
      (.withScopes (.withDeclared (bindings.map Binding.name)))
    ∃ preamble, Script.run m bindings = ⟨pass.result.map (Script.assemble preamble),
      bindingEvents bindings ++ [.body m.body.length, .enter] ++ pass.events ++
        pass.result.toOption.toList.map (fun _ => .rendered pass.renderer.stats) ++ [.exit]⟩ := by
  intro pass
  obtain ⟨preamble, hpreamble, -⟩ := renderBody_bindings bindings m.body
  have hbuild : Script.build m bindings =
      ⟨(renderBody (bindings.map Binding.stmt) []).result.map fun preamble =>
        ⟨m.body, bindings.map Binding.name, preamble⟩, bindingEvents bindings⟩ := by
    rw [← eventsOf_bindings_eq]
    show Traced.mk _ _ = Traced.mk _ _
    rw [events_pass id (Set.injOn_id _)]
    rfl
  rw [hpreamble] at hbuild
  have hbody : (renderBody m.body (bindings.map Binding.name)) =
      ⟨pass.result, [.body m.body.length, .enter] ++ pass.events ++
        pass.result.toOption.toList.map (fun _ => .rendered pass.renderer.stats) ++ [.exit]⟩ := by
    show Traced.mk pass.result _ = _
    rcases pass.result with e | text
    · rfl
    · rfl
  refine ⟨preamble, ?_⟩
  simp only [Script.run, hbuild, Except.map, Script.render, hbody]
  simp

/-- Whether it succeeds or fails, a pass closes the scopes it opens. -/
theorem bracketed_pass (keyOf : Place → κ) {stmts : List Stmt}
    (hkeys : Set.InjOn keyOf (nodesOf stmts)) (r : Renderer κ) :
    Bracketed (r.scopes.depth - 1) (Renderer.renderStmts keyOf stmts r).events := by
  rw [events_pass keyOf hkeys]
  exact (Draft.closes_ofStmts stmts r.scopes).2

/-- A successful pass reports its trail. -/
theorem trail_pass (keyOf : Place → κ) {stmts : List Stmt}
    (hkeys : Set.InjOn keyOf (nodesOf stmts)) (r : Renderer κ) {text : String}
    (h : (Renderer.renderStmts keyOf stmts r).result = .ok text) :
    List.Forall₂ Mark.Shows (stmts.flatMap Stmt.trail) (Renderer.renderStmts keyOf stmts r).events := by
  have hperforms := performs_pass keyOf hkeys r
  have htraces : (Draft.ofStmts stmts).Traces (stmts.flatMap Stmt.trail) :=
    Draft.traces_lines fun s _ => s.draft_traces
  rcases hd : (Draft.ofStmts stmts).result with e | sketch
  · cases h.symm.trans (hperforms.result_of_error hd)
  · rw [events_pass keyOf hkeys]
    exact (htraces sketch hd r.scopes).2

/-- A successful body assigns to all targets of the tree, in order. -/
theorem targets_pass {stmts : List Stmt} {declared : List String} {text : String}
    (h : (Renderer.renderStmts (id : Place → Place) stmts
      (.withScopes (.withDeclared declared))).result = .ok text) :
    (assignments (Renderer.renderStmts (id : Place → Place) stmts
      (.withScopes (.withDeclared declared))).events).map (fun x => Except.ok x.1) =
      (occurrencesOf stmts).map fun o => o.target.text := by
  obtain ⟨seen, hseen⟩ := places_body stmts declared
  have hperforms := performs_pass id (Set.injOn_id (nodesOf stmts))
    (.withScopes (.withDeclared declared))
  rcases hd : (Draft.ofStmts stmts).result with e | sketch
  · cases h.symm.trans (hperforms.result_of_error hd)
  · rw [events_pass id (Set.injOn_id _)]
    show (assignments (eventsOf (.withDeclared declared) _)).map _ = _
    rw [hseen.flags, placement_eq_mapIdx, ← (hseen.done sketch hd).1, List.map_map]
    apply List.ext_getElem
    · simp
    · intro i hi hi'
      have hlt : i < seen.length := by simpa using hi'
      have htext := (hseen.texts seen[i] (List.getElem_mem hlt)).1
      simp [htext]

/-- **What a script reports.**  There is one assignment event per binding, in order.  Then comes the
    number of statements, the events of the body, and, exactly if the script has a text, the counts
    of the pass.  In the events of the body scopes are properly nested, however the pass ends.  If it
    succeeds, then the events are the trail of the body: a scope for each function, each loop over
    elements and each lambda that is rendered, and an assignment for each target. -/
theorem script_events (m : Module) (bindings : List Binding) :
    let t := Script.run m bindings
    let pass := Renderer.renderStmts (id : Place → Place) m.body
      (.withScopes (.withDeclared (bindings.map Binding.name)))
    (∃ summary, t.events = bindingEvents bindings ++ [.body m.body.length, .enter] ++ pass.events ++
        summary ++ [.exit] ∧
      (∀ text, t.result = .ok text → summary = [.rendered pass.renderer.stats]) ∧
      ∀ e, t.result = .error e → summary = []) ∧
    ((∃ text, t.result = .ok text) ↔ ∃ text, pass.result = .ok text) ∧
    Bracketed 0 pass.events ∧
    ∀ text, t.result = .ok text →
      List.Forall₂ Mark.Shows (m.body.flatMap Stmt.trail) pass.events ∧
      pass.events.countP Event.isEntered =
        (m.body.flatMap Stmt.renderedKinds).countP NodeKind.opensScope ∧
      (assignments pass.events).map (fun x => Except.ok x.1) =
        (occurrencesOf m.body).map fun o => o.target.text := by
  intro t pass
  obtain ⟨preamble, hrun⟩ := Script.run_eq m bindings
  have hresult : t.result = pass.result.map (Script.assemble preamble) := congrArg Traced.result hrun
  have hok : ∀ text, t.result = .ok text → ∃ body, pass.result = .ok body := by
    intro text htext
    rcases hpass : pass.result with e | body
    · rw [hresult, hpass] at htext
      cases htext
    · exact ⟨body, rfl⟩
  refine ⟨⟨pass.result.toOption.toList.map fun _ => .rendered pass.renderer.stats,
    congrArg Traced.events hrun, ?_, ?_⟩, ?_, ?_, ?_⟩
  · intro text htext
    obtain ⟨body, hbody⟩ := hok text htext
    rw [hbody]
    rfl
  · intro e he
    rcases hpass : pass.result with e' | body
    · rfl
    · rw [hresult, hpass] at he
      cases he
  · constructor
    · rintro ⟨text, htext⟩
      exact hok text htext
    · rintro ⟨body, hbody⟩
      rw [hresult, hbody]
      exact ⟨_, rfl⟩
  · have hdepth : (ScopeStack.withDeclared (bindings.map Binding.name)).depth = 1 :=
      ScopeStack.size_declare _ _
    have hbracketed : Bracketed
        ((ScopeStack.withDeclared (bindings.map Binding.name)).depth - 1) pass.events :=
      bracketed_pass id (Set.injOn_id (nodesOf m.body))
        (.withScopes (.withDeclared (bindings.map Binding.name)))
    rwa [hdepth] at hbracketed
  · intro text htext
    obtain ⟨body, hbody⟩ := hok text htext
    have htrail := trail_pass id (Set.injOn_id _) _ hbody
    refine ⟨htrail, ?_, targets_pass hbody⟩
    rw [countP_isEntered htrail, List.countP_flatMap, List.countP_flatMap]
    simp only [Function.comp_def, Stmt.countP_trail]

/-- `f = x => y` -/
def constantFunction : Module :=
  ⟨.synthetic, [⟨.synthetic, .assign [⟨.synthetic, .name "f"⟩]
    ⟨.synthetic, .lambda ⟨.synthetic, [], [⟨.synthetic, "x"⟩], none, [], none, []⟩
      ⟨.synthetic, .name "y"⟩⟩⟩]⟩

theorem script_events_constantFunction :
    (Script.run constantFunction [⟨"y", .null⟩]).events =
      [.assignment "y" true, .body 1, .enter, .enteredScope 2, .exitedScope 1, .assignment "f" true,
        .rendered ⟨4, 0⟩, .exit] ∧
    Bracketed 0 [.enteredScope 2, .exitedScope 1, .assignment "f" true] ∧
    List.Forall₂ Mark.Shows (constantFunction.body.flatMap Stmt.trail)
      [.enteredScope 2, .exitedScope 1, .assignment "f" true] := by
  obtain ⟨-, -, hbracketed, htrail⟩ := script_events constantFunction [⟨"y", .null⟩]
  exact ⟨rfl, hbracketed, (htrail _ rfl).1⟩

end ScriptTree
