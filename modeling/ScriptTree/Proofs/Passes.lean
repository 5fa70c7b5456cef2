/-
  ScriptTree/Proofs/Passes.lean
  =============================
  **Passes compose.**  One pass over two lists of statements does what a pass over the first list
  and then a pass over the second one do.  A list of statements is drafted in one go, and the draft
  of two lists is the draft of the first followed by that of the second (`Draft.joined_ofStmts`);
  a pass performs its draft (`performs_pass`), so what is left is to perform one list of acts after
  another.

  All that a pass leaves behind for later passes is what it declared at the top level.  In a session
  of many calls every call therefore ends like the first call of a renderer that has these names
  from the start.
-/
import ScriptTree.Proofs.Draft
import ScriptTree.Proofs.ScopeDiscipline

namespace ScriptTree

/-! ### Drafts, one after the other -/

/-- What stands between the texts of two lists of statements. -/
def between {α β : Type} (xs : List α) (ys : List β) : String :=
  if xs.isEmpty || ys.isEmpty then "" else ";\n"

/-- A sketch that reads like two others with a separator between them. -/
def Sketch.Joins (separator : String) (a b c : Sketch) : Prop :=
  ∀ flags more : List Bool, flags.length = a.entries.length → more.length = b.entries.length →
    c.fill (flags ++ more) = a.fill flags ++ separator ++ b.fill more

theorem Sketch.Joins.prepend {separator : String} {a b c : Sketch} (h : a.Joins separator b c)
    (front : Sketch) : Sketch.Joins separator (front ++ a) b (front ++ c) := by
  intro flags more hflags hmore
  rw [entries_append, List.length_append] at hflags
  -- the flags of the front come first
  obtain ⟨fore, rest, rfl, hfore⟩ :
      ∃ fore rest, flags = fore ++ rest ∧ fore.length = front.entries.length :=
    ⟨flags.take front.entries.length, flags.drop front.entries.length,
      (List.take_append_drop _ _).symm, by rw [List.length_take]; omega⟩
  have hrest : rest.length = a.entries.length := by
    rw [List.length_append] at hflags
    omega
  rw [List.append_assoc, fill_append front c fore _ hfore, fill_append front a fore rest hfore,
    h rest more hrest hmore]
  simp only [String.append_assoc]

namespace Draft

/-- A draft that is one draft and then another, with a separator between what they sketch. -/
inductive Joined (separator : String) (d e x : Draft Sketch) : Prop
  | failsFirst {err : RenderError} : d.result = .error err → x.result = .error err →
      x.acts = d.acts → Joined separator d e x
  | failsSecond {a : Sketch} {err : RenderError} : d.result = .ok a → e.result = .error err →
      x.result = .error err → x.acts = d.acts ++ e.acts → Joined separator d e x
  | succeeds {a b c : Sketch} : d.result = .ok a → e.result = .ok b → x.result = .ok c →
      x.acts = d.acts ++ e.acts → a.Joins separator b c → Joined separator d e x

variable {d e x : Draft Sketch} {separator : String}

theorem both_of_error {err : RenderError} (h : d.result = .error err) :
    Rendition.both d e = ⟨.error err, d.acts⟩ :=
  bind_of_error h

theorem both_of_ok {a : Sketch} (h : d.result = .ok a) :
    Rendition.both d e = ⟨e.result.map (a ++ ·), d.acts ++ e.acts⟩ := by
  show d >>= (fun a => e >>= fun b => pure (a ++ b)) = _
  rw [bind_of_ok h]
  cases he : e.result with
  | error err =>
    rw [bind_of_error he]
    rfl
  | ok b =>
    rw [bind_of_ok he]
    show Draft.mk _ (d.acts ++ (e.acts ++ [])) = _
    rw [List.append_nil]
    rfl

/-- What comes first fails for both or stands in front of both. -/
theorem Joined.both (h : Joined separator d e x) (w : Draft Sketch) :
    Joined separator (Rendition.both w d) e (Rendition.both w x) := by
  cases hw : w.result with
  | error err =>
    rw [both_of_error hw, both_of_error hw]
    exact .failsFirst rfl rfl rfl
  | ok front =>
    rw [both_of_ok hw, both_of_ok hw]
    cases h with
    | failsFirst hd hx hacts =>
      rw [hd, hx, hacts]
      exact .failsFirst rfl rfl rfl
    | failsSecond hd he hx hacts =>
      rw [hd, hx, hacts, ← List.append_assoc]
      exact .failsSecond rfl he rfl rfl
    | succeeds hd he hx hacts hjoins =>
      rw [hd, hx, hacts, ← List.append_assoc]
      exact .succeeds rfl he rfl rfl (hjoins.prepend front)

theorem wrap_of_error {err : RenderError} (before after : String) (h : d.result = .error err) :
    Rendition.wrap before d after = ⟨.error err, d.acts⟩ := by
  have hfront : (Rendition.both (Rendition.text before) d).result = .error err := by
    rw [both_of_ok (d := Rendition.text before) rfl, h]
    rfl
  rw [Rendition.wrap, both_of_error hfront, both_of_ok (d := Rendition.text before) rfl]
  rfl

theorem wrap_of_ok {a : Sketch} (before after : String) (h : d.result = .ok a) :
    Rendition.wrap before d after = ⟨.ok (.text before :: a ++ [.text after]), d.acts⟩ := by
  have hfront : (Rendition.both (Rendition.text before) d).result = .ok (.text before :: a) := by
    rw [both_of_ok (d := Rendition.text before) rfl, h]
    rfl
  rw [Rendition.wrap, both_of_ok hfront, both_of_ok (d := Rendition.text before) rfl]
  show Draft.mk _ (([] ++ d.acts) ++ []) = _
  rw [List.append_nil]
  rfl

theorem joined_wrap (d e : Draft Sketch) :
    Joined ";\n" d e (Rendition.both (Rendition.wrap "" d ";\n") e) := by
  cases hd : d.result with
  | error err =>
    rw [wrap_of_error _ _ hd, both_of_error rfl]
    exact .failsFirst hd rfl rfl
  | ok a =>
    rw [wrap_of_ok _ _ hd, both_of_ok rfl]
    cases he : e.result with
    | error err => exact .failsSecond hd he rfl rfl
    | ok b =>
      refine .succeeds hd he rfl rfl fun flags more hflags _ => ?_
      have hclosed : flags.length =
          (Sketch.entries (Segment.text "" :: a ++ [Segment.text ";\n"])).length := by
        rw [hflags]
        simp [Sketch.entries]
      have hend : Sketch.fill (a ++ [.text ";\n"]) flags = a.fill flags ++ ";\n" := by
        have hsplit := Sketch.fill_append a [.text ";\n"] flags [] hflags
        rw [List.append_nil] at hsplit
        rw [hsplit]
        simp [Sketch.fill]
      rw [Sketch.fill_append _ _ flags more hclosed, List.cons_append, Sketch.fill, hend]
      simp only [String.empty_append]

/-- The draft of two lists is the draft of the one and then that of the other. -/
theorem joined_lines (ds es : List (Draft Sketch)) :
    Joined (between ds es) (Rendition.lines ds) (Rendition.lines es)
      (Rendition.lines (ds ++ es)) := by
  cases es with
  | nil =>
    have hnone : between ds ([] : List (Draft Sketch)) = "" := by simp [between]
    rw [hnone, List.append_nil]
    cases hd : (Rendition.lines ds).result with
    | error err => exact .failsFirst hd hd rfl
    | ok a =>
      refine .succeeds hd rfl hd (List.append_nil _).symm fun flags more _ hmore => ?_
      obtain rfl : more = [] := List.length_eq_zero_iff.mp hmore
      simp [Sketch.fill]
  | cons e es =>
    induction ds with
    | nil =>
      cases he : (Rendition.lines (e :: es)).result with
      | error err => exact .failsSecond rfl he he rfl
      | ok b =>
        refine .succeeds rfl he he rfl fun flags more hflags _ => ?_
        obtain rfl : flags = [] := List.length_eq_zero_iff.mp hflags
        simp [Sketch.fill, between]
    | cons d ds ih =>
      cases ds with
      | nil => exact joined_wrap d (Rendition.lines (e :: es))
      | cons next rest => exact ih.both (Rendition.wrap "" d ";\n")

theorem joined_ofStmts (xs ys : List Stmt) :
    Joined (between xs ys) (ofStmts xs) (ofStmts ys) (ofStmts (xs ++ ys)) := by
  have hlines := joined_lines (xs.map Stmt.direct) (ys.map Stmt.direct)
  rw [← List.map_append] at hlines
  have hbetween : between (xs.map (Stmt.direct (M := Draft))) (ys.map (Stmt.direct (M := Draft))) =
      between xs ys := by
    simp [between]
  rw [hbetween] at hlines
  exact hlines

end Draft

/-! ### What a pass performs -/

/-- The flags that come of performing acts. -/
def flagsOf (s : ScopeStack) (acts : List Act) : List Bool :=
  (assignments (eventsOf s acts)).map Prod.snd

theorem flagsOf_append (s : ScopeStack) (acts more : List Act) :
    flagsOf s (acts ++ more) = flagsOf s acts ++ flagsOf (scopesAfter s acts) more := by
  rw [flagsOf, eventsOf_append, assignments_append, List.map_append]
  rfl

theorem length_flagsOf (s : ScopeStack) (acts : List Act) :
    (flagsOf s acts).length = (assigned acts).length := by
  rw [flagsOf, ← assignments_eventsOf s acts, List.length_map, List.length_map]

/-- A sketch takes the flags of the acts it was drafted with. -/
theorem length_flagsOf_entries {stmts : List Stmt} {sketch : Sketch} (s : ScopeStack)
    (h : (Draft.ofStmts stmts).result = .ok sketch) :
    (flagsOf s (Draft.ofStmts stmts).acts).length = sketch.entries.length := by
  rw [length_flagsOf, ← Draft.entries_ofStmts h, List.length_map]

section Pass

variable {κ : Type}

/-- How a pass ends that starts with the scopes `s` and performs a draft. -/
structure Performs (s : ScopeStack) (d : Draft Sketch) (o : Outcome κ String) : Prop where
  result : o.result = d.result.map fun sketch => sketch.fill (flagsOf s d.acts)
  scopes : o.renderer.scopes = scopesAfter s d.acts
  stats : o.renderer.stats = statsAfter ⟨0, 0⟩ d.acts

theorem performs_pass [DecidableEq κ] (keyOf : Place → κ) {stmts : List Stmt}
    (hkeys : Set.InjOn keyOf (nodesOf stmts)) (r : Renderer κ) :
    Performs r.scopes (Draft.ofStmts stmts) (Renderer.renderStmts keyOf stmts r) := by
  have hfollows := (drafting keyOf (nodesOf stmts) hkeys).render_all stmts subset_rfl
  obtain ⟨hresult, htracks⟩ := hfollows.1 r.startPass fresh_empty
  refine ⟨?_, htracks.scopes, htracks.stats⟩
  rw [htracks.events] at hresult
  exact hresult

variable {s : ScopeStack} {d : Draft Sketch} {o : Outcome κ String}

theorem Performs.result_of_error {err : RenderError} (h : Performs s d o)
    (hd : d.result = .error err) : o.result = .error err := by
  rw [h.result, hd]
  rfl

theorem Performs.result_of_ok {sketch : Sketch} (h : Performs s d o) (hd : d.result = .ok sketch) :
    o.result = .ok (sketch.fill (flagsOf s d.acts)) := by
  rw [h.result, hd]
  rfl

end Pass

/-! ### The keys of a later list -/

/-- The place of a node when `n` statements are put in front of its own. -/
def laterPlace (n : Nat) : Place → Place
  | [] => []
  | [.field f i] => [.field f (n + i)]
  | step :: rest => step :: laterPlace n rest

theorem laterPlace_cons (n : Nat) (step : Step) {p : Place} (hp : p ≠ []) :
    laterPlace n (step :: p) = step :: laterPlace n p := by
  cases p with
  | nil => exact absurd rfl hp
  | cons next rest => simp [laterPlace]

theorem length_laterPlace (n : Nat) (p : Place) : (laterPlace n p).length = p.length := by
  fun_induction laterPlace n p with
  | case1 => rfl
  | case2 f i => rfl
  | case3 step rest _ ih => rw [List.length_cons, List.length_cons, ih]

theorem laterPlace_injective (n : Nat) : Function.Injective (laterPlace n) := by
  intro p q h
  have hlength : p.length = q.length := by
    rw [← length_laterPlace n p, h, length_laterPlace]
  induction p generalizing q with
  | nil => exact (List.length_eq_zero_iff.mp hlength.symm).symm
  | cons step p ih =>
    obtain ⟨step', q, rfl⟩ := List.exists_cons_of_length_eq_add_one hlength.symm
    have hrest : p.length = q.length := Nat.succ.inj hlength
    cases p with
    | nil =>
      obtain rfl : q = [] := List.length_eq_zero_iff.mp hrest.symm
      cases step <;> cases step' <;> simp_all [laterPlace]
    | cons next p =>
      have hq : q ≠ [] := List.ne_nil_of_length_eq_add_one hrest.symm
      rw [laterPlace_cons n step (List.cons_ne_nil _ _), laterPlace_cons n step' hq] at h
      obtain ⟨rfl, htail⟩ := List.cons.inj h
      rw [ih htail hrest]

theorem Expr.HasNode.later {e : Expr} {p q : Place} (n : Nat) (h : e.HasNode p q) (hp : p ≠ []) :
    e.HasNode (laterPlace n p) (laterPlace n q) := by
  induction h with
  | here e p => exact .here e _
  | child hstep _ ih =>
    have hrest := ih (List.cons_ne_nil _ _)
    rw [laterPlace_cons n _ hp] at hrest
    exact .child hstep hrest

theorem Stmt.HasNode.later {s : Stmt} {p q : Place} (n : Nat) (h : s.HasNode p q) (hp : p ≠ []) :
    s.HasNode (laterPlace n p) (laterPlace n q) := by
  induction h with
  | here s p => exact .here s _
  | inExpr hstep hnode =>
    have hrest := hnode.later n (List.cons_ne_nil _ _)
    rw [laterPlace_cons n _ hp] at hrest
    exact .inExpr hstep hrest
  | child hstep _ ih =>
    have hrest := ih (List.cons_ne_nil _ _)
    rw [laterPlace_cons n _ hp] at hrest
    exact .child hstep hrest

theorem nodesOf_append_left (xs ys : List Stmt) : nodesOf xs ⊆ nodesOf (xs ++ ys) := by
  rintro q ⟨i, s, hs, hq⟩
  refine ⟨i, s, ?_, hq⟩
  rw [List.getElem?_append_left (List.getElem?_eq_some_iff.mp hs).1, hs]

theorem laterPlace_mem_nodesOf (xs : List Stmt) {ys : List Stmt} {q : Place}
    (h : q ∈ nodesOf ys) : laterPlace xs.length q ∈ nodesOf (xs ++ ys) := by
  obtain ⟨i, s, hs, hq⟩ := h
  refine ⟨xs.length + i, s, ?_, Stmt.HasNode.later xs.length hq (List.cons_ne_nil _ _)⟩
  rw [List.getElem?_append_right (Nat.le_add_right _ _), Nat.add_sub_cancel_left, hs]

variable {κ : Type}

/-- The keys of statements that follow `n` others. -/
def laterKeys (keyOf : Place → κ) (n : Nat) : Place → κ := fun p => keyOf (laterPlace n p)

theorem laterKeys_injOn {keyOf : Place → κ} {xs ys : List Stmt}
    (h : Set.InjOn keyOf (nodesOf (xs ++ ys))) :
    Set.InjOn (laterKeys keyOf xs.length) (nodesOf ys) := by
  intro p hp q hq heq
  exact laterPlace_injective xs.length
    (h (laterPlace_mem_nodesOf xs hp) (laterPlace_mem_nodesOf xs hq) heq)

/-! ### Two passes and one -/

/-- One pass over two lists, and a pass over the first followed by one over the second. -/
structure Composes (xs ys : List Stmt) (one first second : Outcome κ String) : Prop where
  succeeds_iff : (∃ text, one.result = .ok text) ↔
    (∃ t, first.result = .ok t) ∧ ∃ u, second.result = .ok u
  text : ∀ t u, first.result = .ok t → second.result = .ok u → xs ≠ [] → ys ≠ [] →
    one.result = .ok (t ++ ";\n" ++ u)
  scopes : ∀ t, first.result = .ok t → one.renderer.scopes = second.renderer.scopes
  computed : ∀ t, first.result = .ok t → one.renderer.stats.computed =
    first.renderer.stats.computed + second.renderer.stats.computed
  hits : ∀ t, first.result = .ok t →
    one.renderer.stats.hits = first.renderer.stats.hits + second.renderer.stats.hits
  fails_first : ∀ err, first.result = .error err →
    one.result = .error err ∧ one.renderer.scopes = first.renderer.scopes
  fails_second : ∀ t err, first.result = .ok t → second.result = .error err →
    one.result = .error err

section Together

variable {s : ScopeStack} {d e x : Draft Sketch} {one first second : Outcome κ String}

/-- Acts performed in two parts leave the scopes of all acts and counts that add up. -/
theorem Performs.append (hx : x.acts = d.acts ++ e.acts) (hone : Performs s x one)
    (hfirst : Performs s d first) (hsecond : Performs first.renderer.scopes e second) :
    one.renderer.scopes = second.renderer.scopes ∧
    one.renderer.stats.computed = first.renderer.stats.computed + second.renderer.stats.computed ∧
    one.renderer.stats.hits = first.renderer.stats.hits + second.renderer.stats.hits := by
  rw [hone.scopes, hone.stats, hsecond.scopes, hsecond.stats, hfirst.scopes, hfirst.stats, hx]
  refine ⟨scopesAfter_append _ _ _, ?_, ?_⟩
  · simp [statsAfter]
  · simp [statsAfter]

theorem Performs.composes {xs ys : List Stmt} (hone : Performs s (Draft.ofStmts (xs ++ ys)) one)
    (hfirst : Performs s (Draft.ofStmts xs) first)
    (hsecond : Performs first.renderer.scopes (Draft.ofStmts ys) second) :
    Composes xs ys one first second := by
  cases Draft.joined_ofStmts xs ys with
  | failsFirst hd hx hacts =>
    have hone' := hone.result_of_error hx
    have hfirst' := hfirst.result_of_error hd
    have hscopes : one.renderer.scopes = first.renderer.scopes := by
      rw [hone.scopes, hfirst.scopes, hacts]
    constructor <;> simp [hone', hfirst', hscopes]
  | failsSecond hd he hx hacts =>
    have hone' := hone.result_of_error hx
    have hfirst' := hfirst.result_of_ok hd
    have hsecond' := hsecond.result_of_error he
    obtain ⟨hscopes, hcomputed, hhits⟩ := hone.append hacts hfirst hsecond
    constructor <;> simp [hone', hfirst', hsecond', hscopes, hcomputed, hhits]
  | succeeds hd he hx hacts hjoins =>
    have hfirst' := hfirst.result_of_ok hd
    have hsecond' := hsecond.result_of_ok he
    have hone' := hone.result_of_ok hx
    rw [hacts, flagsOf_append, ← hfirst.scopes,
      hjoins _ _ (length_flagsOf_entries _ hd) (length_flagsOf_entries _ he)] at hone'
    obtain ⟨hscopes, hcomputed, hhits⟩ := hone.append hacts hfirst hsecond
    have hbetween : xs ≠ [] → ys ≠ [] → between xs ys = ";\n" := by
      intro hxs hys
      simp [between, hxs, hys]
    constructor <;> simp +contextual [hone', hfirst', hsecond', hscopes, hcomputed, hhits, hbetween]

end Together

/-! ### Sessions -/

/-- A call of a renderer, with the keys of the nodes it is given. -/
inductive Call (κ : Type) where
  | stmts (keyOf : Place → κ) (body : List Stmt)
  | expr (keyOf : Place → κ) (e : Expr)

variable [DecidableEq κ]

def Call.run : Call κ → Render κ String
  | .stmts keyOf body => Renderer.renderStmts keyOf body
  | .expr keyOf e => Renderer.renderExpr keyOf e

/-- How the calls of one renderer end, each starting where the one before has ended. -/
def session : Renderer κ → List (Call κ) → List (Outcome κ String)
  | _, [] => []
  | r, c :: rest => c.run r :: session (c.run r).renderer rest

/-- The names that were declared at the top level, by successful and failed calls alike. -/
def declaredBy (os : List (Outcome κ String)) : List String :=
  os.flatMap fun o => declaredAt 0 o.events

/-- A call clears the cache first. -/
theorem Call.run_withScopes (c : Call κ) (r : Renderer κ) :
    c.run r = c.run (Renderer.withScopes r.scopes) := by
  cases c with
  | stmts keyOf body => rfl
  | expr keyOf e => rfl

theorem Call.scopes_run (c : Call κ) (r : Renderer κ) :
    (c.run r).renderer.scopes = r.scopes.declare (declaredAt 0 (c.run r).events) := by
  cases c with
  | stmts keyOf body => exact (declaresHere_all keyOf body r.startPass).1
  | expr keyOf e => exact ((keepsScopes_expr keyOf e []).declaresHere r.startPass).1

/-- A call in a session ends like a first call where all names declared so far are declared. -/
theorem session_getElem? {calls : List (Call κ)} {i : Nat} {c : Call κ} (names : List String)
    (r : Renderer κ) (hr : r.scopes = .withDeclared names) (hc : calls[i]? = some c) :
    (session r calls)[i]? = some (c.run (Renderer.withScopes
      (.withDeclared (names ++ declaredBy ((session r calls).take i))))) := by
  induction calls generalizing r names i with
  | nil => cases hc
  | cons first rest ih =>
    cases i with
    | zero =>
      cases hc
      have hnone : declaredBy ((session r (c :: rest)).take 0) = [] := rfl
      rw [hnone, List.append_nil, ← hr, ← c.run_withScopes r]
      rfl
    | succ i =>
      have hscopes : (first.run r).renderer.scopes =
          .withDeclared (names ++ declaredAt 0 (first.run r).events) := by
        rw [first.scopes_run, hr, ScopeStack.withDeclared, ScopeStack.declare_declare]
        rfl
      have hrest := ih (names ++ declaredAt 0 (first.run r).events) (first.run r).renderer hscopes
        hc
      rw [List.append_assoc] at hrest
      exact hrest

/-- **Passes compose.**  One pass over two lists of statements succeeds exactly when a pass over the
    first and one over the second do, and comes to the same text, scopes and counts.  And each call
    in a session, whatever the cache holds at its start, ends like the only call of a new renderer
    where the initial names and all names declared by the calls before it are declared. -/
theorem passes_compose :
    (∀ (keyOf : Place → κ) (r : Renderer κ) (xs ys : List Stmt),
      Set.InjOn keyOf (nodesOf (xs ++ ys)) →
      let first := Renderer.renderStmts keyOf xs r
      Composes xs ys (Renderer.renderStmts keyOf (xs ++ ys) r) first
        (Renderer.renderStmts (laterKeys keyOf xs.length) ys first.renderer)) ∧
    ∀ (names : List String) (cache : AttrCache κ) (calls : List (Call κ)) (i : Nat) (c : Call κ),
      let outcomes := session ⟨.withDeclared names, cache⟩ calls
      calls[i]? = some c → outcomes[i]? = some
        (c.run (Renderer.withScopes (.withDeclared (names ++ declaredBy (outcomes.take i))))) := by
  constructor
  · intro keyOf r xs ys hkeys first
    have hone := performs_pass keyOf hkeys r
    have hfirst := performs_pass keyOf (hkeys.mono (nodesOf_append_left xs ys)) r
    have hsecond := performs_pass _ (laterKeys_injOn hkeys) first.renderer
    exact hone.composes hfirst hsecond
  · intro names cache calls i c outcomes hc
    exact session_getElem? names _ rfl hc

/-- `x = null` -/
def nullX : Stmt := ⟨.synthetic, .assign [⟨.synthetic, .name "x"⟩] ⟨.synthetic, .constant .null⟩⟩

/-- `x = null`, then an assignment to a slice, which fails after `x` was declared. -/
def failsLate : List Stmt :=
  [nullX, ⟨.synthetic, .assign [⟨.synthetic, .slice none none none⟩] ⟨.synthetic, .constant .null⟩⟩]

theorem passes_compose_nullX :
    Set.InjOn id (nodesOf ([nullX] ++ [nullX])) ∧
    (Renderer.renderStmts id [nullX] Renderer.new).result = .ok "var x = null" ∧
    (Renderer.renderStmts id ([nullX] ++ [nullX]) Renderer.new).result =
      .ok "var x = null;\nx = null" ∧
    (session Renderer.new [.stmts id failsLate, .stmts id [nullX]])[1]? =
      some (Renderer.renderStmts id [nullX] (Renderer.withScopes (.withDeclared ["x"]))) :=
  ⟨Set.injOn_id _, rfl,
    (passes_compose.1 id Renderer.new [nullX] [nullX] (Set.injOn_id _)).text "var x = null" "x = null"
      rfl rfl (List.cons_ne_nil _ _) (List.cons_ne_nil _ _),
    passes_compose.2 [] AttrCache.empty [.stmts id failsLate, .stmts id [nullX]] 1
      (.stmts id [nullX]) rfl⟩

end ScriptTree
