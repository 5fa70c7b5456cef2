/-
  ScriptTree/Proofs/ParameterLists.lean
  =====================================
  **How a parameter list is written.**  A list that is accepted is written as one entry per
  parameter, in order.  `Params.Listed` says what the entries are: the defaults belong to the last
  positional parameters, or to the first of them if there are too many defaults, and each one in
  use is rendered once.

  The names in the text are the names that the list binds.  What is rendered in the scope of the
  list, the body of a function or of a lambda, therefore starts where exactly those are declared
  (`renderParams_listed`).
-/
import ScriptTree.Proofs.FieldCounts
import ScriptTree.Proofs.ScopeDiscipline

namespace ScriptTree

open Rendition

/-! ### Actions in a row -/

namespace Render

variable {κ α β ι : Type}

theorem result_of_bind {m : Render κ α} {f : α → Render κ β} {r : Renderer κ} {b : β}
    (h : ((m >>= f) r).result = .ok b) :
    ∃ a, (m r).result = .ok a ∧ (f a (m r).renderer).result = .ok b := by
  rcases hm : (m r).result with e | a
  · rw [bind_of_error hm] at h
    cases h
  · rw [bind_of_ok hm] at h
    exact ⟨a, rfl, h⟩

theorem all_append (ms ns : List (Render κ α)) :
    all (ms ++ ns) = do
      let as ← all ms
      let bs ← all ns
      return as ++ bs := by
  induction ms with
  | nil => simp [all]
  | cons m ms ih => simp [all, ih]

theorem all_pure (f : ι → α) (xs : List ι) :
    all (xs.map fun x => (pure (f x) : Render κ α)) = pure (xs.map f) := by
  induction xs with
  | nil => rfl
  | cons x xs ih => simp [all, ih]

theorem length_of_all {ms : List (Render κ α)} {r : Renderer κ} {as : List α}
    (h : (all ms r).result = .ok as) : as.length = ms.length := by
  induction ms generalizing r as with
  | nil =>
    cases h
    rfl
  | cons m ms ih =>
    rw [all] at h
    obtain ⟨a, -, h⟩ := result_of_bind h
    obtain ⟨more, hmore, h⟩ := result_of_bind h
    cases h
    exact congrArg Nat.succ (ih hmore)

/-- What is done with each result can be done afterwards. -/
theorem all_zipWith (f : ι → α → β) (xs : List ι) (ms : List (Render κ α))
    (hlength : xs.length = ms.length) :
    all (List.zipWith (fun x m => (do let a ← m; return f x a : Render κ β)) xs ms) = do
      let as ← all ms
      return List.zipWith f xs as := by
  induction xs generalizing ms with
  | nil =>
    obtain rfl : ms = [] := List.length_eq_zero_iff.mp hlength.symm
    simp [all]
  | cons x xs ih =>
    obtain ⟨m, ms, rfl⟩ := List.exists_cons_of_length_eq_add_one hlength.symm
    rw [List.zipWith_cons_cons, all, ih ms (Nat.succ.inj hlength), all]
    simp

end Render

/-! ### Entries -/

/-- A parameter as it is written. -/
inductive ParamEntry where
  | bare (name : String)
  | withDefault (name text : String)
  | rest (name : String)

namespace ParamEntry

def name : ParamEntry → String
  | .bare name | .withDefault name _ | .rest name => name

def default? : ParamEntry → Option String
  | .withDefault _ text => some text
  | .bare _ | .rest _ => none

def text : ParamEntry → String
  | .bare name => name
  | .withDefault name text => name ++ " = " ++ text
  | .rest name => "..." ++ name

end ParamEntry

namespace Params

variable {ε : Type}

/-- The entries of a parameter list, where the defaults in use have the given texts. -/
structure Listed (params : Params ε) (texts : List String) (entries : List ParamEntry) : Prop where
  length : entries.length = params.positional.length + params.rest.toList.length
  /-- The defaults are those of the last parameters. -/
  last : params.defaults.length ≤ params.positional.length →
    ∀ (i : Nat) (param : Param), params.positional[i]? = some param →
      (i < params.positional.length - params.defaults.length →
        entries[i]? = some (ParamEntry.bare param.name)) ∧
      ∀ j, i = params.positional.length - params.defaults.length + j →
        ∃ text, texts[j]? = some text ∧ entries[i]? = some (ParamEntry.withDefault param.name text)
  /-- If there are too many, the parameters take the first of them. -/
  surplus : params.positional.length < params.defaults.length →
    ∀ (i : Nat) (param : Param), params.positional[i]? = some param →
      ∃ text, texts[i]? = some text ∧ entries[i]? = some (ParamEntry.withDefault param.name text)
  rest : entries.drop params.positional.length =
    params.rest.toList.map fun param => ParamEntry.rest param.name
  used : entries.filterMap ParamEntry.default? = texts
  names : entries.map ParamEntry.name = params.boundNames

/-- The number of positional parameters without a default. -/
def undefaulted (params : Params ε) : Nat := params.positional.length - params.defaults.length

def positionalEntries (params : Params ε) (texts : List String) : List ParamEntry :=
  (params.positional.take params.undefaulted).map (fun param => .bare param.name) ++
    ((params.positional.drop params.undefaulted).zip texts).map fun x => .withDefault x.1.name x.2

/-- The entries of a parameter list, where the defaults in use have the given texts. -/
def entries (params : Params ε) (texts : List String) : List ParamEntry :=
  params.positionalEntries texts ++ params.rest.toList.map fun param => .rest param.name

section Entries

variable {params : Params ε} {texts : List String}

theorem length_drop_undefaulted (htexts : texts.length = params.dealt.length) :
    (params.positional.drop params.undefaulted).length = texts.length := by
  rw [htexts, dealt, undefaulted, List.length_drop, List.length_take]
  omega

theorem length_positionalEntries (htexts : texts.length = params.dealt.length) :
    (params.positionalEntries texts).length = params.positional.length := by
  have hlength := length_drop_undefaulted htexts
  simp only [positionalEntries, List.length_append, List.length_map, List.length_zip,
    List.length_take, List.length_drop] at hlength ⊢
  omega

theorem getElem?_entries_bare {i : Nat} {param : Param} (hparam : params.positional[i]? = some param)
    (hi : i < params.undefaulted) : (params.entries texts)[i]? = some (.bare param.name) := by
  obtain ⟨hlt, rfl⟩ := List.getElem?_eq_some_iff.mp hparam
  rw [entries, positionalEntries, List.append_assoc, List.getElem?_append_left (by simp; omega),
    List.getElem?_map, List.getElem?_take_of_lt hi, hparam]
  rfl

theorem getElem?_entries_withDefault {j : Nat} {param : Param} {text : String}
    (hparam : params.positional[params.undefaulted + j]? = some param)
    (htext : texts[j]? = some text) :
    (params.entries texts)[params.undefaulted + j]? = some (.withDefault param.name text) := by
  have hbare : (params.positional.take params.undefaulted).length = params.undefaulted := by
    rw [List.length_take, undefaulted]
    omega
  have hpair : ((params.positional.drop params.undefaulted).zip texts)[j]? = some (param, text) := by
    rw [List.getElem?_zip_eq_some, List.getElem?_drop]
    exact ⟨hparam, htext⟩
  obtain ⟨hj, -⟩ := List.getElem?_eq_some_iff.mp hpair
  rw [entries, positionalEntries, List.append_assoc, List.getElem?_append_right (by simp),
    List.length_map, hbare, Nat.add_sub_cancel_left, List.getElem?_append_left (by simpa using hj),
    List.getElem?_map, hpair]
  rfl

theorem defaults_entries (htexts : texts.length = params.dealt.length) :
    (params.entries texts).filterMap ParamEntry.default? = texts := by
  have hnone : ∀ (f : Param → ParamEntry) (ps : List Param), (∀ param, (f param).default? = none) →
      (ps.map f).filterMap ParamEntry.default? = [] := by
    intro f ps hf
    rw [List.filterMap_map]
    exact List.filterMap_eq_nil_iff.mpr fun param _ => hf param
  have hsome : ((params.positional.drop params.undefaulted).zip texts).filterMap
      (ParamEntry.default? ∘ fun x => .withDefault x.1.name x.2) = texts := by
    show List.filterMap (fun x : Param × String => some x.2) _ = texts
    rw [List.filterMap_eq_map', List.map_snd_zip (length_drop_undefaulted htexts).ge]
  rw [entries, positionalEntries, List.filterMap_append, List.filterMap_append,
    hnone _ _ fun _ => rfl, hnone _ _ fun _ => rfl, List.filterMap_map, hsome]
  simp

theorem names_entries (htexts : texts.length = params.dealt.length) (hkwOnly : params.kwOnly = [])
    (hkwRest : params.kwRest = none) :
    (params.entries texts).map ParamEntry.name = params.boundNames := by
  have hzip : ((params.positional.drop params.undefaulted).zip texts).map
      (ParamEntry.name ∘ fun x => .withDefault x.1.name x.2) =
        (params.positional.drop params.undefaulted).map Param.name := by
    show List.map (Param.name ∘ Prod.fst) _ = _
    rw [← List.map_map, List.map_fst_zip (length_drop_undefaulted htexts).le]
  have hname : ∀ ps : List Param,
      ps.map (ParamEntry.name ∘ fun param => .bare param.name) = ps.map Param.name ∧
      ps.map (ParamEntry.name ∘ fun param => .rest param.name) = ps.map Param.name :=
    fun ps => ⟨rfl, rfl⟩
  rw [entries, positionalEntries, boundNames, hkwOnly, hkwRest, List.map_append, List.map_append,
    List.map_map, List.map_map, List.map_map, hzip, (hname _).1, (hname _).2, ← List.map_append,
    List.take_append_drop]
  simp

theorem listed_entries (htexts : texts.length = params.dealt.length) (hkwOnly : params.kwOnly = [])
    (hkwRest : params.kwRest = none) : params.Listed texts (params.entries texts) := by
  have hlength := length_drop_undefaulted htexts
  have hpositional := length_positionalEntries htexts
  have hdefault : ∀ j param, params.positional[params.undefaulted + j]? = some param →
      ∃ text, texts[j]? = some text ∧
        (params.entries texts)[params.undefaulted + j]? = some (.withDefault param.name text) := by
    intro j param hparam
    obtain ⟨hlt, -⟩ := List.getElem?_eq_some_iff.mp hparam
    have hj : j < texts.length := by
      rw [← hlength, List.length_drop]
      omega
    have htext := List.getElem?_eq_getElem hj
    exact ⟨texts[j], htext, getElem?_entries_withDefault hparam htext⟩
  constructor
  · rw [entries, List.length_append, hpositional, List.length_map]
  · intro _ i param hparam
    refine ⟨getElem?_entries_bare hparam, ?_⟩
    rintro j rfl
    exact hdefault j param hparam
  · intro hlt i param hparam
    have hnone : params.undefaulted = 0 := by
      rw [undefaulted]
      omega
    have hentry := hdefault i param
    rw [hnone, Nat.zero_add] at hentry
    exact hentry hparam
  · rw [entries, List.drop_left' hpositional]
  · exact defaults_entries htexts
  · exact names_entries htexts hkwOnly hkwRest

end Entries

end Params

/-! ### Accepted lists -/

namespace Params

variable {κ : Type} (params : Params (Emit κ)) (p : Place)

/-- The defaults in use, each at its place. -/
def placedDefaults : List (Render κ String) :=
  params.dealt.mapIdx fun j default => default (.default j :: p)

theorem renderParam_bare {i : Nat} (hi : i < params.undefaulted) (param : Param) :
    params.renderParam p i param = pure param.name := by
  have hindex : params.defaultIndex? i = none := if_pos hi
  rw [renderParam, hindex]

theorem renderParam_withDefault {j : Nat} (hj : j < params.defaults.length) (param : Param) :
    params.renderParam p (params.undefaulted + j) param = do
      let text ← params.defaults[j] (.default j :: p)
      return param.name ++ " = " ++ text := by
  have hindex : params.defaultIndex? (params.undefaulted + j) = some j := by
    rw [defaultIndex?]
    show (if params.undefaulted + j < params.undefaulted then none
      else some (params.undefaulted + j - params.undefaulted)) = some j
    rw [if_neg (by omega), Nat.add_sub_cancel_left]
  rw [renderParam, hindex]
  simp only [List.getElem?_eq_getElem hj]

theorem mapIdx_renderParam :
    params.positional.mapIdx (params.renderParam p) =
      (params.positional.take params.undefaulted).map (fun param => pure param.name) ++
      List.zipWith (fun param m => do let text ← m; return param.name ++ " = " ++ text)
        (params.positional.drop params.undefaulted) (params.placedDefaults p) := by
  have hbare : (params.positional.take params.undefaulted).length = params.undefaulted := by
    rw [List.length_take, undefaulted]
    omega
  have hdealt : (params.positional.drop params.undefaulted).length = params.dealt.length := by
    rw [dealt, undefaulted, List.length_drop, List.length_take]
    omega
  conv_lhs => rw [← List.take_append_drop params.undefaulted params.positional, List.mapIdx_append]
  congr 1
  · apply List.ext_getElem
    · simp
    · intro i hi _
      have hi' : i < params.undefaulted := by simpa [hbare] using hi
      rw [List.getElem_mapIdx, List.getElem_map, params.renderParam_bare p hi']
  · rw [hbare]
    apply List.ext_getElem
    · simp [placedDefaults, hdealt]
    · intro j hj _
      have hj' : j < params.defaults.length := by
        rw [List.length_mapIdx, hdealt, dealt, List.length_take] at hj
        omega
      rw [List.getElem_mapIdx, List.getElem_zipWith, Nat.add_comm,
        params.renderParam_withDefault p hj']
      simp [placedDefaults, dealt]

theorem render_eq_entries (hkwOnly : params.kwOnly = []) (hkwRest : params.kwRest = none) :
    params.render p = do
      let texts ← Render.all (params.placedDefaults p)
      return ", ".intercalate ((params.entries texts).map ParamEntry.text) := by
  have hlength : (params.positional.drop params.undefaulted).length =
      (params.placedDefaults p).length := by
    rw [placedDefaults, List.length_mapIdx, dealt, undefaulted, List.length_drop, List.length_take]
    omega
  have hentries : ∀ texts, (params.entries texts).map ParamEntry.text =
      (params.positional.take params.undefaulted).map Param.name ++
        List.zipWith (fun param text => param.name ++ " = " ++ text)
          (params.positional.drop params.undefaulted) texts ++
        params.rest.toList.map fun param => "..." ++ param.name := by
    intro texts
    simp [entries, positionalEntries, ParamEntry.text, Function.comp_def, List.map_zip_eq_zipWith,
      Function.curry]
  have hrender : params.render p = (do
      let positional ← Render.all (params.positional.mapIdx (params.renderParam p))
      return ", ".intercalate
        (positional ++ params.rest.toList.map fun param => "..." ++ param.name)) := by
    rw [render, hkwOnly, hkwRest]
  rw [hrender, mapIdx_renderParam, Render.all_append, Render.all_pure, Render.all_zipWith _ _ _ hlength]
  simp [hentries]

/-- A list that is accepted renders the defaults in use and nothing else. -/
theorem listed_of_render {params : Params (Emit κ)} {p : Place} {r : Renderer κ} {text : String}
    (h : (params.render p r).result = .ok text) :
    ∃ texts, Render.all (params.placedDefaults p) r =
        ⟨.ok texts, (params.render p r).renderer, (params.render p r).events⟩ ∧
      text = ", ".intercalate ((params.entries texts).map ParamEntry.text) ∧
      params.Listed texts (params.entries texts) := by
  obtain ⟨hkwOnly, hkwRest⟩ : params.kwOnly = [] ∧ params.kwRest = none := by
    rw [render] at h
    rcases hkwOnly : params.kwOnly with _ | ⟨param, more⟩
    · rcases hkwRest : params.kwRest with _ | param
      · exact ⟨rfl, rfl⟩
      · rw [hkwOnly, hkwRest] at h
        cases h
    · rw [hkwOnly] at h
      cases h
  rw [render_eq_entries params p hkwOnly hkwRest] at h ⊢
  obtain ⟨texts, htexts, h⟩ := Render.result_of_bind h
  have hlength : texts.length = params.dealt.length := by
    rw [Render.length_of_all htexts, placedDefaults, List.length_mapIdx]
  cases h
  refine ⟨texts, ?_, rfl, listed_entries hlength hkwOnly hkwRest⟩
  rw [Render.bind_of_ok htexts]
  simp [← htexts]

theorem Listed.of_map {ε φ : Type} {params : Params ε} {f : ε → φ} {texts : List String}
    {entries : List ParamEntry} (h : (params.map f).Listed texts entries) :
    params.Listed texts entries := by
  obtain ⟨hlength, hlast, hsurplus, hrest, hused, hnames⟩ := h
  rw [show (params.map f).defaults.length = params.defaults.length from List.length_map _] at hlast hsurplus
  exact ⟨hlength, hlast, hsurplus, hrest, hused, hnames⟩

end Params

/-! ### Inside the scope of a list -/

namespace Plain

variable {α β : Type} {s : ScopeStack}

theorem result_of_bind {d : Plain α} {g : α → Plain β} {b : β} (h : ((d >>= g).run s).1 = .ok b) :
    ∃ a, (d.run s).1 = .ok a ∧ ((g a).run (d.run s).2).1 = .ok b := by
  rcases hd : d.run s with ⟨e | a, s'⟩
  · rw [run_bind_of_error hd] at h
    cases h
  · rw [run_bind_of_ok hd] at h
    exact ⟨a, rfl, h⟩

theorem result_of_around {d : Plain α} {l : Loc} {a : α}
    (h : (run (Rendition.around l d) s).1 = .ok a) : (d.run s).1 = .ok a := by
  rw [run_around] at h
  rcases hd : (d.run s).1 with e | b
  · rw [hd] at h
    cases h
  · rw [hd] at h
    exact h

theorem result_of_wrap {d : Plain String} {before after whole : String}
    (h : (run (wrap before d after) s).1 = .ok whole) :
    ∃ text, (d.run s).1 = .ok text ∧ whole = before ++ text ++ after := by
  obtain ⟨inner, hinner, h⟩ := result_of_bind h
  obtain ⟨front, hfront, hinner⟩ := result_of_bind hinner
  obtain ⟨text, htext, hinner⟩ := result_of_bind hinner
  obtain ⟨back, hback, h⟩ := result_of_bind h
  cases hfront
  cases hinner
  cases hback
  cases h
  exact ⟨text, htext, rfl⟩

end Plain

/-- The plain renderer accepts a list as the renderer does, and leaves the scopes alone. -/
theorem listed_of_plain {params : Params Expr} {s : ScopeStack} {text : String}
    (h : (Plain.run (params.map Expr.direct).direct s).1 = .ok text) :
    (Plain.run (params.map Expr.direct).direct s).2 = s ∧
    ∃ texts entries, text = ", ".intercalate (entries.map ParamEntry.text) ∧
      params.Listed texts entries := by
  let sim := transparency id Set.univ (Set.injOn_id _)
  have hparams : sim.expr (ofDefaults []) ((params.map (Expr.render id)).render [])
      (params.map Expr.direct).direct :=
    sim.expr_params fun j e _ => sim.render_expr e _ (Set.subset_univ _)
  obtain ⟨hagrees, hkeeps⟩ := hparams
  obtain ⟨hsame, -⟩ := hagrees (Renderer.withScopes s) fresh_empty
  have hrender := (congrArg Prod.fst hsame).symm.trans h
  obtain ⟨texts, -, htext, hlisted⟩ := Params.listed_of_render hrender
  exact ⟨hkeeps s, texts, _, htext, hlisted.of_map⟩

section Bodies

variable {params : Params Expr} {s : ScopeStack} {l : Loc} {text : String}

/-- What follows the list in its scope starts where the written names are declared. -/
theorem listed_of_plain_inScope {g : String → Plain String}
    (h : (Plain.run (inScope params.boundNames ((params.map Expr.direct).direct >>= g)) s).1 =
      .ok text) :
    ∃ texts entries, params.Listed texts entries ∧
      ((g (", ".intercalate (entries.map ParamEntry.text))).run
        (s.enter.declare (entries.map ParamEntry.name))).1 = .ok text := by
  rw [Plain.run_inScope] at h
  obtain ⟨written, hwritten, h⟩ := Plain.result_of_bind h
  obtain ⟨hstay, texts, entries, rfl, hlisted⟩ := listed_of_plain hwritten
  rw [hstay] at h
  exact ⟨texts, entries, hlisted, hlisted.names ▸ h⟩

theorem listed_of_plain_function {name : String} {body : List Stmt}
    (h : (Plain.run (Stmt.direct ⟨l, .functionDef name params body []⟩) s).1 = .ok text) :
    ∃ texts entries inner,
      text = "function " ++ name ++ "(" ++ ", ".intercalate (entries.map ParamEntry.text) ++
        ") \x7b\n" ++ inner ++ "\n\x7d" ∧
      params.Listed texts entries ∧
      ((Plain.renderStmts body).run (s.enter.declare (entries.map ParamEntry.name))).1 =
        .ok inner := by
  rw [Stmt.direct_mk] at h
  obtain ⟨_, hname, h⟩ := Plain.result_of_bind (Plain.result_of_around h)
  cases hname
  obtain ⟨texts, entries, hlisted, h⟩ := listed_of_plain_inScope h
  obtain ⟨inner, hinner, rfl⟩ := Plain.result_of_wrap h
  refine ⟨texts, entries, inner, rfl, hlisted, ?_⟩
  rw [List.map_map] at hinner
  exact hinner

theorem listed_of_plain_lambda {body : Expr}
    (h : (Plain.run (Expr.direct ⟨l, .lambda params body⟩) s).1 = .ok text) :
    ∃ texts entries inner,
      text = "((" ++ ", ".intercalate (entries.map ParamEntry.text) ++ ") => (" ++ inner ++ "))" ∧
      params.Listed texts entries ∧
      ((Plain.renderExpr body).run (s.enter.declare (entries.map ParamEntry.name))).1 =
        .ok inner := by
  rw [Expr.direct_mk] at h
  obtain ⟨texts, entries, hlisted, h⟩ := listed_of_plain_inScope (Plain.result_of_around h)
  obtain ⟨inner, hinner, h⟩ := Plain.result_of_bind h
  cases h
  exact ⟨texts, entries, inner, rfl, hlisted, hinner⟩

end Bodies

variable {κ : Type} [DecidableEq κ]

/-- **How a parameter list is written.**  If a list is accepted, then its text joins the entries that
    `Params.Listed` describes, and to render it is to render the defaults in use, each once and in
    order.  The names in the text are what the list binds: in a function and in a lambda the body is
    rendered where exactly the written names are declared. -/
theorem renderParams_listed (keyOf : Place → κ) (r : Renderer κ) (params : Params Expr) :
    (∀ p text, ((params.map (Expr.render keyOf)).render p r).result = .ok text →
      ∃ texts entries,
        Render.all (params.dealt.mapIdx fun j e => e.render keyOf (.default j :: p)) r =
          ⟨.ok texts, ((params.map (Expr.render keyOf)).render p r).renderer,
            ((params.map (Expr.render keyOf)).render p r).events⟩ ∧
        text = ", ".intercalate (entries.map ParamEntry.text) ∧
        params.Listed texts entries) ∧
    (∀ l name body text, Set.InjOn keyOf (nodesOf [⟨l, .functionDef name params body []⟩]) →
      (Renderer.renderStmts keyOf [⟨l, .functionDef name params body []⟩] r).result = .ok text →
      ∃ texts entries inner,
        text = "function " ++ name ++ "(" ++ ", ".intercalate (entries.map ParamEntry.text) ++
          ") \x7b\n" ++ inner ++ "\n\x7d" ∧
        params.Listed texts entries ∧
        (Renderer.renderStmts (id : Place → Place) body
          (.withScopes (r.scopes.enter.declare (entries.map ParamEntry.name)))).result = .ok inner) ∧
    (∀ l body text, Set.InjOn keyOf (Expr.nodes ⟨l, .lambda params body⟩ []) →
      (Renderer.renderExpr keyOf ⟨l, .lambda params body⟩ r).result = .ok text →
      ∃ texts entries inner,
        text = "((" ++ ", ".intercalate (entries.map ParamEntry.text) ++ ") => (" ++ inner ++ "))" ∧
        params.Listed texts entries ∧
        (Renderer.renderExpr (id : Place → Place) body
          (.withScopes (r.scopes.enter.declare (entries.map ParamEntry.name)))).result =
            .ok inner) := by
  refine ⟨?_, ?_, ?_⟩
  · intro p text htext
    obtain ⟨texts, hall, htext, hlisted⟩ := Params.listed_of_render htext
    refine ⟨texts, _, ?_, htext, hlisted.of_map⟩
    rw [← hall, Params.placedDefaults, params.dealt_map]
    congr 1
    exact List.ext_getElem (by simp) (by simp)
  · intro l name body text hkeys htext
    have hfunction := (transparency keyOf _ hkeys).render_all _ subset_rfl r.startPass fresh_empty
    obtain ⟨texts, entries, inner, hwhole, hlisted, hinner⟩ :=
      listed_of_plain_function ((congrArg Prod.fst hfunction.1).trans htext)
    refine ⟨texts, entries, inner, hwhole, hlisted, ?_⟩
    have hbody := (transparency id _ (Set.injOn_id _)).render_all body subset_rfl
      (Renderer.withScopes (r.scopes.enter.declare (entries.map ParamEntry.name))) fresh_empty
    exact (congrArg Prod.fst hbody.1).symm.trans hinner
  · intro l body text hkeys htext
    have hlambda := ((transparency keyOf _ hkeys).render_expr _ [] subset_rfl).1 r.startPass fresh_empty
    obtain ⟨texts, entries, inner, hwhole, hlisted, hinner⟩ :=
      listed_of_plain_lambda ((congrArg Prod.fst hlambda.1).trans htext)
    refine ⟨texts, entries, inner, hwhole, hlisted, ?_⟩
    have hbody := ((transparency id _ (Set.injOn_id _)).render_expr body [] subset_rfl).1
      (Renderer.withScopes (r.scopes.enter.declare (entries.map ParamEntry.name))) fresh_empty
    exact (congrArg Prod.fst hbody.1).symm.trans hinner

/-- `a, /, b = null, *c` -/
def restParams : Params Expr :=
  ⟨.synthetic, [⟨.synthetic, "a"⟩], [⟨.synthetic, "b"⟩], some ⟨.synthetic, "c"⟩, [], none,
    [⟨.synthetic, .constant .null⟩]⟩

/-- The body `b = c`, in which nothing is to be declared. -/
def reassignment : List Stmt :=
  [⟨.synthetic, .assign [⟨.synthetic, .name "b"⟩] ⟨.synthetic, .name "c"⟩⟩]

theorem renderParams_listed_restParams :
    (∃ texts entries, ", ".intercalate (entries.map ParamEntry.text) = "a, b = null, ...c" ∧
      restParams.Listed texts entries) ∧
    ∃ texts entries inner,
      "function " ++ "f" ++ "(" ++ ", ".intercalate (entries.map ParamEntry.text) ++
        ") \x7b\n" ++ inner ++ "\n\x7d" = "function f(a, b = null, ...c) \x7b\nb = c\n\x7d" ∧
      restParams.Listed texts entries ∧
      (Renderer.renderStmts (id : Place → Place) reassignment
        (.withScopes (ScopeStack.new.enter.declare (entries.map ParamEntry.name)))).result =
          .ok inner := by
  obtain ⟨hlist, hfunction, -⟩ := renderParams_listed id Renderer.new restParams
  obtain ⟨texts, entries, -, htext, hlisted⟩ := hlist [] "a, b = null, ...c" rfl
  obtain ⟨texts', entries', inner, hwhole, hlisted', hinner⟩ :=
    hfunction .synthetic "f" reassignment _ (Set.injOn_id _) rfl
  exact ⟨⟨texts, entries, htext.symm, hlisted⟩, texts', entries', inner, hwhole.symm, hlisted', hinner⟩

end ScriptTree
