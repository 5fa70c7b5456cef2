/-
  ScriptTree/Proofs/Simulation.lean
  =================================
  **From the laws of actions to whole trees.**  A `Simulation` relates the actions of the renderer to
  those of a rendition.  It says what is related for the building blocks of rules: doing nothing,
  failing, one action after another, a scope, reading a field, an assignment.  `Simulation.render_expr`
  and `Simulation.render_stmt` conclude that rendering any tree is related to its direct rules, so
  a property of rendering is proved by checking the blocks.

  A relation carries the set of slots that the action on the renderer's side may fill.  Actions that
  follow each other never share a slot: this is the one fact about trees that the cache relies on.
-/
import ScriptTree.Proofs.Places

namespace ScriptTree

variable {κ : Type} [DecidableEq κ] {M : Type → Type} {τ : Type} [Rendition M τ]

/-- A relation between actions of the renderer and of a rendition that is kept by every building
    block of the rules. -/
structure Simulation (keyOf : Place → κ) (M : Type → Type) (τ : Type) [Rendition M τ] where
  /-- The places of the nodes that are rendered. -/
  nodes : Set Place
  /-- What relates actions that render expressions. -/
  expr {α : Type} : Set Slot → Render κ α → M α → Prop
  /-- What relates actions that render statements. -/
  stmt : Set Slot → Render κ String → M τ → Prop
  expr_mono {α : Type} {S S' : Set Slot} {m : Render κ α} {d : M α} :
    S ⊆ S' → expr S m d → expr S' m d
  expr_pure {α : Type} (a : α) : expr ∅ (pure a) (pure a)
  expr_fail {α : Type} (e : RenderError) :
    expr ∅ (Render.fail e : Render κ α) (Rendition.fail e)
  expr_bind {α β : Type} {S S' : Set Slot} {m : Render κ α} {d : M α} {f : α → Render κ β}
    {g : α → M β} :
    Disjoint S S' → expr S m d → (∀ a, expr S' (f a) (g a)) → expr (S ∪ S') (m >>= f) (d >>= g)
  expr_around {α : Type} {S : Set Slot} {m : Render κ α} {d : M α} (l : Loc) :
    expr S m d → expr S (Render.around l m) (Rendition.around l d)
  expr_inScope {α : Type} {S : Set Slot} {m : Render κ α} {d : M α} (names : List String) :
    expr S m d → expr S (Render.inScope names m) (Rendition.inScope names d)
  expr_attr {site : Site κ} {p : Place} {f : Field}
    {v : FieldValue (Render κ String) (Render κ String)} {S : Set Slot} {d : M String} :
    p ∈ nodes → site.key = keyOf p → site.fields.lookup f = some v → ⟨p, f, .rendered⟩ ∉ S →
    expr S v.render d → expr (insert ⟨p, f, .rendered⟩ S) (site.attr f) (Rendition.read d)
  expr_rawAttr {site : Site κ} {p : Place} {f : Field} {t : String} :
    p ∈ nodes → site.key = keyOf p → site.fields.lookup f = some (.ident t) →
    expr {⟨p, f, .raw⟩} (site.rawAttr f) (Rendition.read (pure t))
  expr_attrTwice {site : Site κ} {p : Place} {f : Field}
    {v : FieldValue (Render κ String) (Render κ String)} {S : Set Slot} {d : M String} :
    p ∈ nodes → site.key = keyOf p → site.fields.lookup f = some v → ⟨p, f, .rendered⟩ ∉ S →
    expr S v.render d →
    expr (insert ⟨p, f, .rendered⟩ S)
      (do
        let first ← site.attr f
        let second ← site.attr f
        return (first, second))
      (Rendition.readTwice d)
  stmt_mono {S S' : Set Slot} {m : Render κ String} {d : M τ} : S ⊆ S' → stmt S m d → stmt S' m d
  stmt_text (t : String) : stmt ∅ (pure t) (Rendition.text t)
  stmt_fail (e : RenderError) : stmt ∅ (Render.fail e) (Rendition.fail e)
  stmt_both {S S' : Set Slot} {m n : Render κ String} {d e : M τ} :
    Disjoint S S' → stmt S m d → stmt S' n e →
    stmt (S ∪ S')
      (do
        let a ← m
        let b ← n
        return a ++ b)
      (Rendition.both d e)
  stmt_bind {α : Type} {S S' : Set Slot} {m : Render κ α} {d : M α} {f : α → Render κ String}
    {g : α → M τ} :
    Disjoint S S' → expr S m d → (∀ a, stmt S' (f a) (g a)) → stmt (S ∪ S') (m >>= f) (d >>= g)
  stmt_around {S : Set Slot} {m : Render κ String} {d : M τ} (l : Loc) :
    stmt S m d → stmt S (Render.around l m) (Rendition.around l d)
  stmt_inScope {S : Set Slot} {m : Render κ String} {d : M τ} (names : List String) :
    stmt S m d → stmt S (Render.inScope names m) (Rendition.inScope names d)
  stmt_attr {site : Site κ} {p : Place} {f : Field}
    {v : FieldValue (Render κ String) (Render κ String)} {S : Set Slot} {d : M τ} :
    p ∈ nodes → site.key = keyOf p → site.fields.lookup f = some v → ⟨p, f, .rendered⟩ ∉ S →
    stmt S v.render d → stmt (insert ⟨p, f, .rendered⟩ S) (site.attr f) (Rendition.read d)
  stmt_assign (name value : String) :
    stmt ∅ (assignTo value (pure name)) (Rendition.assign name value)

namespace Simulation

open Rendition

variable {keyOf : Place → κ} (sim : Simulation keyOf M τ)

/-! ### Lists of actions -/

/-- Actions at different places can be run one after the other. -/
theorem expr_all {α : Type} {ms : List (Render κ α)} {ds : List (M α)} (S : Nat → Set Slot)
    (hdisjoint : ∀ i j, i ≠ j → Disjoint (S i) (S j)) (hlength : ms.length = ds.length)
    (h : ∀ (i : Nat) m d, ms[i]? = some m → ds[i]? = some d → sim.expr (S i) m d) :
    sim.expr (⋃ i, S i) (Render.all ms) (all ds) := by
  induction ms generalizing ds S with
  | nil =>
    obtain rfl : ds = [] := List.length_eq_zero_iff.mp hlength.symm
    exact sim.expr_mono (Set.empty_subset _) (sim.expr_pure [])
  | cons m rest ih =>
    obtain ⟨d, ds, rfl⟩ : ∃ d ds', ds = d :: ds' := List.exists_cons_of_length_eq_add_one hlength.symm
    have hfirst : sim.expr (S 0) m d := h 0 m d rfl rfl
    have hrest : sim.expr (⋃ i, S (i + 1)) (Render.all rest) (all ds) := by
      refine ih (fun i => S (i + 1)) (fun i j hij => hdisjoint _ _ (by omega)) (by simpa using hlength) ?_
      intro i m' d' hm' hd'
      exact h (i + 1) m' d' hm' hd'
    have happart : Disjoint (S 0) (⋃ i, S (i + 1)) :=
      Set.disjoint_iUnion_right.mpr fun i => hdisjoint _ _ (by omega)
    refine sim.expr_mono ?_ (sim.expr_bind (Set.disjoint_union_right.mpr ⟨happart, Set.disjoint_empty _⟩)
      hfirst fun a => sim.expr_bind (Set.disjoint_empty _) hrest fun as => sim.expr_pure (a :: as))
    refine Set.union_subset (Set.subset_iUnion S 0) (Set.union_subset ?_ (Set.empty_subset _))
    exact Set.iUnion_subset fun i => Set.subset_iUnion S (i + 1)

theorem expr_map {α β : Type} {S : Set Slot} {m : Render κ α} {d : M α} (h : sim.expr S m d)
    (g : α → β) : sim.expr S (m >>= fun a => pure (g a)) (d >>= fun a => pure (g a)) :=
  sim.expr_mono (Set.union_empty S).subset
    (sim.expr_bind (Set.disjoint_empty S) h fun a => sim.expr_pure (g a))

theorem expr_joined {S : Set Slot} {ms : List (Render κ String)} {ds : List (M String)}
    (separator : String) (h : sim.expr S (Render.all ms) (all ds)) :
    sim.expr S (Render.joined separator ms) (joined separator ds) :=
  sim.expr_map h separator.intercalate

theorem expr_unsupported {α : Type} (what : Construct) :
    sim.expr ∅ (Render.unsupported what : Render κ α) (unsupported what) :=
  sim.expr_fail _

theorem expr_given {α : Type} (x : Except RenderError α) :
    sim.expr ∅ (Render.given x : Render κ α) (given x) := by
  cases x with
  | ok a => exact sim.expr_pure a
  | error e => exact sim.expr_fail e

/-- The children in a field, one after the other. -/
theorem expr_placed {es : List Expr} {p : Place} {f : Field}
    (h : ∀ (i : Nat) e, es[i]? = some e →
      sim.expr (under (.field f i :: p)) (e.render keyOf (.field f i :: p)) e.direct) :
    sim.expr (⋃ i, under (.field f i :: p)) (Render.all (placed p f (es.map (Expr.render keyOf))))
      (all (es.map Expr.direct)) := by
  refine sim.expr_all _ ?_ (by simp [placed]) ?_
  · intro i j hij
    exact under_disjoint p fun heq => hij (Step.field.inj heq).2
  · intro i m d hm hd
    simp only [placed, List.getElem?_mapIdx, List.getElem?_map, Option.map_map,
      Option.map_eq_some_iff] at hm hd
    obtain ⟨e, he, rfl⟩ := hm
    obtain ⟨e', he', rfl⟩ := hd
    obtain rfl : e = e' := Option.some.inj (he.symm.trans he')
    exact h i e he

/-! ### Reading fields -/

theorem iUnion_under_subset_ofField (p : Place) (f : Field) :
    (⋃ i, under (.field f i :: p)) ⊆ ofField p f :=
  Set.iUnion_subset (under_subset_ofField p f)

theorem own_not_mem_iUnion_under (p : Place) (f : Field) (a : Access) :
    (⟨p, f, a⟩ : Slot) ∉ ⋃ i, under (.field f i :: p) := by
  intro h
  obtain ⟨i, hi⟩ := Set.mem_iUnion.mp h
  exact own_not_mem_under p f a _ hi

section Fields

variable {site : Site κ} {p : Place} {f : Field}

/-- A field whose children are rendered below it. -/
theorem expr_field {v : FieldValue (Render κ String) (Render κ String)} {S : Set Slot} {d : M String}
    (hp : p ∈ sim.nodes) (hkey : site.key = keyOf p) (hv : site.fields.lookup f = some v)
    (hS : S ⊆ ⋃ i, under (.field f i :: p)) (h : sim.expr S v.render d) :
    sim.expr (ofField p f) (site.attr f) (read d) := by
  have hfresh : (⟨p, f, .rendered⟩ : Slot) ∉ S := fun hmem => own_not_mem_iUnion_under p f _ (hS hmem)
  refine sim.expr_mono ?_ (sim.expr_attr hp hkey hv hfresh h)
  exact Set.insert_subset (Or.inl ⟨rfl, rfl⟩) (hS.trans (iUnion_under_subset_ofField p f))

/-- A field that holds one expression. -/
theorem expr_fieldOne {m : Render κ String} {d : M String} (hp : p ∈ sim.nodes)
    (hkey : site.key = keyOf p) (hv : site.fields.lookup f = some (.expr m))
    (h : sim.expr (under (.field f 0 :: p)) m d) :
    sim.expr (ofField p f) (site.attr f) (read d) :=
  sim.expr_field hp hkey hv (Set.subset_iUnion (fun i => under (.field f i :: p)) 0) h

/-- A field that holds a list of expressions. -/
theorem expr_fieldList {es : List Expr} (hp : p ∈ sim.nodes) (hkey : site.key = keyOf p)
    (hv : site.fields.lookup f = some (.exprs (placed p f (es.map (Expr.render keyOf)))))
    (h : ∀ (i : Nat) e, es[i]? = some e →
      sim.expr (under (.field f i :: p)) (e.render keyOf (.field f i :: p)) e.direct) :
    sim.expr (ofField p f) (site.attr f) (read (joined ", " (es.map Expr.direct))) :=
  sim.expr_field hp hkey hv subset_rfl (sim.expr_joined ", " (sim.expr_placed h))

/-- A field that holds an expression or nothing. -/
theorem expr_fieldOption {e : Option Expr} (hp : p ∈ sim.nodes) (hkey : site.key = keyOf p)
    (hv : site.fields.lookup f =
      some (.optExpr (e.map fun e => e.render keyOf (.field f 0 :: p))))
    (h : ∀ e' ∈ e, sim.expr (under (.field f 0 :: p)) (e'.render keyOf (.field f 0 :: p)) e'.direct) :
    sim.expr (ofField p f) (site.attr f) (read (optional (e.map Expr.direct))) := by
  cases e with
  | none =>
    exact sim.expr_field hp hkey hv (Set.empty_subset _) (sim.expr_pure "null")
  | some e =>
    exact sim.expr_field hp hkey hv (Set.subset_iUnion (fun i => under (.field f i :: p)) 0)
      (h e rfl)

/-- A field that holds an operator between operands. -/
theorem expr_fieldBinary {op : BinaryOperator} (hp : p ∈ sim.nodes) (hkey : site.key = keyOf p)
    (hv : site.fields.lookup f = some (.binaryOp op)) :
    sim.expr (ofField p f) (site.attr f) (read (given op.spell)) := by
  have hrender : (FieldValue.binaryOp op : FieldValue (Render κ String) (Render κ String)).render =
      Render.given op.spell := by
    rw [FieldValue.render]
    cases op.spell <;> rfl
  exact sim.expr_field hp hkey hv (Set.empty_subset _) (hrender ▸ sim.expr_given op.spell)

/-- A field that holds an operator before an operand. -/
theorem expr_fieldUnary {op : UnaryOperator} (hp : p ∈ sim.nodes) (hkey : site.key = keyOf p)
    (hv : site.fields.lookup f = some (.unaryOp op)) :
    sim.expr (ofField p f) (site.attr f) (read (pure op.spelling)) :=
  sim.expr_field hp hkey hv (Set.empty_subset _) (sim.expr_pure op.spelling)

/-- The bare text of a field that holds a name. -/
theorem expr_fieldName {t : String} (hp : p ∈ sim.nodes) (hkey : site.key = keyOf p)
    (hv : site.fields.lookup f = some (.ident t)) :
    sim.expr (ofField p f) (site.rawAttr f) (read (pure t)) :=
  sim.expr_mono (Set.singleton_subset_iff.mpr (Or.inl ⟨rfl, rfl⟩)) (sim.expr_rawAttr hp hkey hv)

end Fields

/-- Reads of different fields, one after the other. -/
theorem expr_fields {α β : Type} {p : Place} {f : Field} {fs : List Field} {m : Render κ α} {d : M α}
    {g : α → Render κ β} {g' : α → M β} (hf : f ∉ fs) (h : sim.expr (ofField p f) m d)
    (hrest : ∀ a, sim.expr (ofFields p fs) (g a) (g' a)) :
    sim.expr (ofFields p (f :: fs)) (m >>= g) (d >>= g') := by
  rw [ofFields_cons]
  exact sim.expr_bind (ofField_disjoint_ofFields p hf) h hrest

theorem expr_noFields {α : Type} (p : Place) (a : α) : sim.expr (ofFields p []) (pure a) (pure a) :=
  sim.expr_mono (Set.empty_subset _) (sim.expr_pure a)

theorem expr_ofFields {α : Type} {p : Place} {m : Render κ α} {d : M α} (fs : List Field)
    (h : sim.expr (ofFields p fs) m d) : sim.expr (under p) m d :=
  sim.expr_mono (ofFields_subset_under p fs) h

/-! ### Parameters and dictionary entries -/

/-- Two parameters never share a default. -/
theorem defaultIndex?_inj {ε : Type} {params : Params ε} {i i' j : Nat}
    (h : params.defaultIndex? i = some j) (h' : params.defaultIndex? i' = some j) : i = i' := by
  simp only [Params.defaultIndex?] at h h'
  split at h
  · cases h
  · split at h'
    · cases h'
    · simp only [Option.some.injEq] at h h'
      omega

theorem expr_param {params : Params Expr} {p : Place} (i : Nat) (param : Param)
    (h : ∀ (j : Nat) e, params.defaults[j]? = some e →
      sim.expr (under (.default j :: p)) (e.render keyOf (.default j :: p)) e.direct) :
    sim.expr {k | ∃ j, params.defaultIndex? i = some j ∧ k ∈ under (.default j :: p)}
      ((params.map (Expr.render keyOf)).renderParam p i param)
      ((params.map Expr.direct).directParam i param) := by
  have hindex : ∀ {φ : Type} (g : Expr → φ), (params.map g).defaultIndex? i = params.defaultIndex? i := by
    intro φ g
    simp [Params.defaultIndex?, Params.map, Params.positional]
  have hdefaults : ∀ {φ : Type} (g : Expr → φ) (j : Nat),
      (params.map g).defaults[j]? = params.defaults[j]?.map g := by
    intro φ g j
    simp [Params.map]
  simp only [Params.renderParam, Params.directParam, hindex, hdefaults]
  cases hj : params.defaultIndex? i with
  | none => exact sim.expr_mono (Set.empty_subset _) (sim.expr_pure param.name)
  | some j =>
    cases he : params.defaults[j]? with
    | none => simpa [he] using sim.expr_mono (Set.empty_subset _) (sim.expr_pure param.name)
    | some e =>
      simp only [he, Option.map_some]
      refine sim.expr_mono ?_ (sim.expr_map (h j e he) fun text => param.name ++ " = " ++ text)
      exact fun k hk => ⟨j, rfl, hk⟩

/-- A parameter list fills no slots but those of its defaults. -/
theorem expr_params {params : Params Expr} {p : Place}
    (h : ∀ (j : Nat) e, params.defaults[j]? = some e →
      sim.expr (under (.default j :: p)) (e.render keyOf (.default j :: p)) e.direct) :
    sim.expr (ofDefaults p) ((params.map (Expr.render keyOf)).render p)
      (params.map Expr.direct).direct := by
  have hall : sim.expr (ofDefaults p)
      (Render.all (params.positional.mapIdx ((params.map (Expr.render keyOf)).renderParam p)))
      (all (params.positional.mapIdx (params.map Expr.direct).directParam)) := by
    refine sim.expr_mono ?_ (sim.expr_all
      (fun i => {k | ∃ j, params.defaultIndex? i = some j ∧ k ∈ under (.default j :: p)}) ?_ (by simp) ?_)
    · refine Set.iUnion_subset fun i => ?_
      rintro k ⟨j, _, hk⟩
      exact ⟨j, hk⟩
    · intro i i' hne
      refine Set.disjoint_left.mpr ?_
      rintro k ⟨j, hj, hk⟩ ⟨j', hj', hk'⟩
      have hstep := Step.default.inj (step_unique hk hk')
      exact hne (defaultIndex?_inj hj (hstep ▸ hj'))
    · intro i m d hm hd
      simp only [List.getElem?_mapIdx, Option.map_eq_some_iff] at hm hd
      obtain ⟨param, hparam, rfl⟩ := hm
      obtain ⟨param', hparam', rfl⟩ := hd
      obtain rfl : param = param' := Option.some.inj (hparam.symm.trans hparam')
      exact sim.expr_param i param h
  obtain ⟨loc, posOnly, args, rest, kwOnly, kwRest, defaults⟩ := params
  cases kwOnly with
  | cons param rest =>
    exact sim.expr_mono (Set.empty_subset _) (sim.expr_around _ (sim.expr_unsupported _))
  | nil =>
    cases kwRest with
    | some param =>
      exact sim.expr_mono (Set.empty_subset _) (sim.expr_around _ (sim.expr_unsupported _))
    | none => exact sim.expr_map hall _

/-- The slots of an entry of a dictionary. -/
def ofEntry (p : Place) (i : Nat) : Set Slot := under (.field .values i :: p) ∪ under (.key i :: p)

theorem ofEntry_disjoint (p : Place) {i j : Nat} (h : i ≠ j) : Disjoint (ofEntry p i) (ofEntry p j) := by
  refine Set.disjoint_left.mpr ?_
  rintro k (hi | hi) (hj | hj)
  · exact h (Step.field.inj (step_unique hi hj)).2
  · exact Step.noConfusion (step_unique hi hj)
  · exact Step.noConfusion (step_unique hi hj)
  · exact h (Step.key.inj (step_unique hi hj))

theorem expr_entry {p : Place} {i : Nat} {key : Option Expr} {value : Expr}
    (hvalue : sim.expr (under (.field .values i :: p)) (value.render keyOf (.field .values i :: p))
      value.direct)
    (hkey : ∀ k ∈ key, sim.expr (under (.key i :: p)) (k.render keyOf (.key i :: p)) k.direct) :
    sim.expr (ofEntry p i)
      (ExprForm.renderEntry p i (key.map (Expr.render keyOf), value.render keyOf))
      (ExprForm.directEntry (key.map Expr.direct, value.direct)) := by
  refine sim.expr_bind (under_disjoint p Step.noConfusion) hvalue fun text => ?_
  cases key with
  | none => exact sim.expr_mono (Set.empty_subset _) (sim.expr_pure ("..." ++ text))
  | some k => exact sim.expr_map (hkey k rfl) fun keyText => keyText ++ ": " ++ text

theorem expr_dict {keys : List (Option Expr)} {values : List Expr} {p : Place}
    (hkeys : ∀ (i : Nat) k, keys[i]? = some (some k) →
      sim.expr (under (.key i :: p)) (k.render keyOf (.key i :: p)) k.direct)
    (hvalues : ∀ (i : Nat) v, values[i]? = some v → sim.expr (under (.field .values i :: p))
      (v.render keyOf (.field .values i :: p)) v.direct) :
    sim.expr (under p)
      (((ExprForm.dict keys values).map (Expr.render keyOf)).rule keyOf p)
      ((ExprForm.dict keys values).map Expr.direct).direct := by
  refine sim.expr_mono ?_ (sim.expr_map (sim.expr_all (ofEntry p) (fun i j => ofEntry_disjoint p)
    ?_ ?_) _)
  · refine Set.iUnion_subset fun i => Set.union_subset ?_ ?_
    · exact under_step_subset _ p
    · exact under_step_subset _ p
  · simp
  · intro i m d hm hd
    simp only [List.getElem?_mapIdx, List.getElem?_map, List.zip_map, Option.map_map,
      Option.map_eq_some_iff] at hm hd
    obtain ⟨⟨key, value⟩, hentry, rfl⟩ := hm
    obtain ⟨entry', hentry', rfl⟩ := hd
    obtain rfl : (key, value) = entry' := Option.some.inj (hentry.symm.trans hentry')
    obtain ⟨hkey, hvalue⟩ := List.getElem?_zip_eq_some.mp hentry
    refine sim.expr_entry (hvalues i value hvalue) ?_
    rintro k rfl
    exact hkeys i k hkey

theorem rule_compare {left : Emit κ} {ops : List CmpOperator} {comparators : List (Emit κ)} {p : Place}
    (h : ¬ (ops.isEmpty || ops.length != comparators.length) = true) :
    (ExprForm.compare left ops comparators).rule keyOf p = (do
      let left ← ((ExprForm.compare left ops comparators).site keyOf p).attr .left
      let others ← Render.all (placed p .comparators comparators)
      let pairs ← Render.given (ExprForm.comparisons (left :: others) ops)
      return ExprForm.conjunction pairs) := by
  rw [ExprForm.rule, if_neg h]
  refine bind_congr fun first => bind_congr fun others => ?_
  -- the pairs are known once the operands are, and may still name a missing operator
  cases ExprForm.comparisons (first :: others) ops <;> rfl

theorem expr_compare {left : Expr} {ops : List CmpOperator} {comparators : List Expr} {p : Place}
    (hp : p ∈ sim.nodes)
    (hleft : sim.expr (under (.field .left 0 :: p)) (left.render keyOf (.field .left 0 :: p)) left.direct)
    (hcomparators : ∀ (i : Nat) c, comparators[i]? = some c →
      sim.expr (under (.field .comparators i :: p)) (c.render keyOf (.field .comparators i :: p))
        c.direct) :
    sim.expr (under p)
      (((ExprForm.compare left ops comparators).map (Expr.render keyOf)).rule keyOf p)
      ((ExprForm.compare left ops comparators).map Expr.direct).direct := by
  by_cases hops : (ops.isEmpty || ops.length != comparators.length) = true
  · simp only [ExprForm.map, ExprForm.rule, ExprForm.direct, List.length_map, if_pos hops]
    exact sim.expr_mono (Set.empty_subset _) (sim.expr_fail _)
  · rw [ExprForm.map, rule_compare (by simpa using hops)]
    simp only [ExprForm.map, ExprForm.direct, List.length_map, if_neg hops]
    exact sim.expr_ofFields [.left, .comparators]
      (sim.expr_fields (by decide) (sim.expr_fieldOne hp rfl rfl hleft) fun first =>
      sim.expr_fields (by decide)
        (sim.expr_mono (iUnion_under_subset_ofField p _) (sim.expr_placed hcomparators)) fun others =>
      sim.expr_mono (Set.empty_subset _)
        (sim.expr_map (sim.expr_given (ExprForm.comparisons (first :: others) ops)) _))

/-! ### Expressions -/

theorem rule_binOp {left right : Emit κ} {op : BinaryOperator} (h : op ≠ .floorDiv) (p : Place) :
    (ExprForm.binOp left op right).rule keyOf p =
      ((ExprForm.binOp left op right).site keyOf p).template Template.binOp := by
  cases op <;> first | rfl | exact absurd rfl h

theorem direct_binOp {left right : M String} {op : BinaryOperator} (h : op ≠ .floorDiv) :
    (ExprForm.binOp left op right).direct = (do
      let left ← read left
      let op ← read (given op.spell)
      let right ← read right
      return "(" ++ left ++ " " ++ op ++ " " ++ right ++ ")") := by
  cases op <;> first | rfl | exact absurd rfl h

/-- The rule of every form is related to what comes of it, if that is so for the children. -/
theorem expr_rule (form : ExprForm Expr) {p : Place} (hp : p ∈ sim.nodes)
    (h : ∀ s c, (s, c) ∈ form.steps →
      sim.expr (under (s :: p)) (c.render keyOf (s :: p)) c.direct) :
    sim.expr (under p) ((form.map (Expr.render keyOf)).rule keyOf p)
      (form.map Expr.direct).direct := by
  have one : ∀ f c, (f, FieldValue.expr c) ∈ form.table?.getD [] →
      sim.expr (under (.field f 0 :: p)) (c.render keyOf (.field f 0 :: p)) c.direct :=
    fun f c hc => h _ _ (ExprForm.mem_steps_of_table hc (List.mem_singleton.mpr rfl))
  have many : ∀ f cs, (f, FieldValue.exprs cs) ∈ form.table?.getD [] → ∀ (i : Nat) c,
      cs[i]? = some c →
      sim.expr (under (.field f i :: p)) (c.render keyOf (.field f i :: p)) c.direct :=
    fun f cs hcs i c hc => h _ _ (ExprForm.mem_steps_of_table hcs (FieldValue.exprStep_mem hc))
  cases form with
  | boolOp op values =>
    have hvalues := many .values values (by simp [ExprForm.table?])
    refine sim.expr_mono ?_ (sim.expr_map (sim.expr_placed hvalues) _)
    exact (iUnion_under_subset_ofField p .values).trans (ofField_subset_under p .values)
  | binOp left op right =>
    have hleft := one .left left (by simp [ExprForm.table?])
    have hright := one .right right (by simp [ExprForm.table?])
    by_cases hop : op = .floorDiv
    · subst hop
      show sim.expr _ (Site.template _ Template.binOpFloorDiv) _
      rw [Site.template_binOpFloorDiv]
      exact sim.expr_ofFields [.left, .right]
        (sim.expr_fields (by decide) (sim.expr_fieldOne hp rfl rfl hleft) fun _ =>
        sim.expr_fields (by decide) (sim.expr_fieldOne hp rfl rfl hright) fun _ =>
        sim.expr_noFields p _)
    · show sim.expr _ ((ExprForm.binOp _ op _).rule keyOf p) (ExprForm.binOp _ op _).direct
      rw [rule_binOp hop, direct_binOp hop, Site.template_binOp]
      exact sim.expr_ofFields [.left, .op, .right]
        (sim.expr_fields (by decide) (sim.expr_fieldOne hp rfl rfl hleft) fun _ =>
        sim.expr_fields (by decide) (sim.expr_fieldBinary hp rfl rfl) fun _ =>
        sim.expr_fields (by decide) (sim.expr_fieldOne hp rfl rfl hright) fun _ =>
        sim.expr_noFields p _)
  | unaryOp op operand =>
    have hoperand := one .operand operand (by simp [ExprForm.table?])
    show sim.expr _ (Site.template _ Template.unaryOp) _
    rw [Site.template_unaryOp]
    exact sim.expr_ofFields [.op, .operand]
      (sim.expr_fields (by decide) (sim.expr_fieldUnary hp rfl rfl) fun _ =>
      sim.expr_fields (by decide) (sim.expr_fieldOne hp rfl rfl hoperand) fun _ =>
      sim.expr_noFields p _)
  | lambda params body =>
    have hbody := one .body body (by simp [ExprForm.table?])
    have hparams : sim.expr (ofDefaults p) ((params.map (Expr.render keyOf)).render p)
        (params.map Expr.direct).direct :=
      sim.expr_params fun j e he => h _ _ (List.mem_append_right _ (Params.step_mem he))
    refine sim.expr_mono ?_ (sim.expr_inScope params.boundNames
      (sim.expr_bind (ofDefaults_disjoint p .body) hparams fun _ =>
        sim.expr_map (sim.expr_fieldOne hp rfl rfl hbody) _))
    exact Set.union_subset (ofDefaults_subset_under p) (ofField_subset_under p .body)
  | ifExp test body orelse =>
    have htest := one .test test (by simp [ExprForm.table?])
    have hbody := one .body body (by simp [ExprForm.table?])
    have horelse := one .orelse orelse (by simp [ExprForm.table?])
    show sim.expr _ (Site.template _ Template.ifExp) _
    rw [Site.template_ifExp]
    exact sim.expr_ofFields [.test, .body, .orelse]
      (sim.expr_fields (by decide) (sim.expr_fieldOne hp rfl rfl htest) fun _ =>
      sim.expr_fields (by decide) (sim.expr_fieldOne hp rfl rfl hbody) fun _ =>
      sim.expr_fields (by decide) (sim.expr_fieldOne hp rfl rfl horelse) fun _ =>
      sim.expr_noFields p _)
  | dict keys values =>
    have hvalues := many .values values (by simp [ExprForm.table?])
    have hkeys : ∀ (i : Nat) k, keys[i]? = some (some k) →
        sim.expr (under (.key i :: p)) (k.render keyOf (.key i :: p)) k.direct :=
      fun i k hk => h _ _ (List.mem_append_right _ (keyStep_mem hk))
    exact sim.expr_dict hkeys hvalues
  | compare left ops comparators =>
    have hleft := one .left left (by simp [ExprForm.table?])
    have hcomparators := many .comparators comparators (by simp [ExprForm.table?])
    exact sim.expr_compare hp hleft hcomparators
  | call func args keywords =>
    have hfunc := one .func func (by simp [ExprForm.table?])
    have hargs := many .args args (by simp [ExprForm.table?])
    cases keywords with
    | cons keyword rest =>
      exact sim.expr_mono (Set.empty_subset _) (sim.expr_around _ (sim.expr_unsupported _))
    | nil =>
      exact sim.expr_ofFields [.func, .args]
        (sim.expr_fields (by decide) (sim.expr_fieldOne hp rfl rfl hfunc) fun _ =>
        sim.expr_fields (by decide) (sim.expr_fieldList hp rfl rfl hargs) fun _ =>
        sim.expr_noFields p _)
  | constant value => exact sim.expr_mono (Set.empty_subset _) (sim.expr_pure value.spelling)
  | «attribute» value attr =>
    have hvalue := one .value value (by simp [ExprForm.table?])
    show sim.expr _ (Site.template _ Template.member) _
    rw [Site.template_member]
    exact sim.expr_ofFields [.value, .attr]
      (sim.expr_fields (by decide) (sim.expr_fieldOne hp rfl rfl hvalue) fun _ =>
      sim.expr_fields (by decide) (sim.expr_fieldName hp rfl rfl) fun _ =>
      sim.expr_noFields p _)
  | subscript value index =>
    have hvalue := one .value value (by simp [ExprForm.table?])
    have hindex := one .slice index (by simp [ExprForm.table?])
    show sim.expr _ (Site.template _ Template.subscript) _
    rw [Site.template_subscript]
    exact sim.expr_ofFields [.value, .slice]
      (sim.expr_fields (by decide) (sim.expr_fieldOne hp rfl rfl hvalue) fun _ =>
      sim.expr_fields (by decide) (sim.expr_fieldOne hp rfl rfl hindex) fun _ =>
      sim.expr_noFields p _)
  | name id =>
    show sim.expr _ (Site.template _ Template.name) _
    rw [Site.template_name]
    exact sim.expr_mono (ofField_subset_under p .id) (sim.expr_fieldName hp rfl rfl)
  | list elts =>
    have helts := many .elts elts (by simp [ExprForm.table?])
    show sim.expr _ (Site.template _ Template.list) _
    rw [Site.template_list]
    exact sim.expr_ofFields [.elts]
      (sim.expr_fields (by decide) (sim.expr_fieldList hp rfl rfl helts) fun _ =>
      sim.expr_noFields p _)
  | starred value =>
    have hvalue := one .value value (by simp [ExprForm.table?])
    show sim.expr _ (Site.template _ Template.starred) _
    rw [Site.template_starred]
    exact sim.expr_ofFields [.value]
      (sim.expr_fields (by decide) (sim.expr_fieldOne hp rfl rfl hvalue) fun _ =>
      sim.expr_noFields p _)
  | tuple | set | listComp | dictComp | generatorExp | await | yield | namedExpr | slice
  | joinedStr => exact sim.expr_mono (Set.empty_subset _) (sim.expr_unsupported _)

/-- **Rendering an expression** is related to its direct rules. -/
theorem render_expr (e : Expr) :
    ∀ p, e.nodes p ⊆ sim.nodes → sim.expr (under p) (e.render keyOf p) e.direct := by
  induction e with
  | mk loc form ih =>
    intro p hnodes
    rw [Expr.render_mk, Expr.direct_mk]
    refine sim.expr_around loc (sim.expr_rule form (hnodes (.here _ p)) ?_)
    intro s c hc
    exact ih c (ExprForm.mem_children_of_step hc) (s :: p) ((Expr.nodes_child hc).trans hnodes)

/-! ### Lists of statements -/

theorem stmt_unsupported (what : Construct) :
    sim.stmt ∅ (Render.unsupported what) (unsupported what) :=
  sim.stmt_fail _

/-- A statement whose text is made from texts of expressions. -/
theorem stmt_ofExpr {α : Type} {S : Set Slot} {m : Render κ α} {d : M α} (h : sim.expr S m d)
    (g : α → String) : sim.stmt S (m >>= fun a => pure (g a)) (d >>= fun a => text (g a)) :=
  sim.stmt_mono (Set.union_empty S).subset
    (sim.stmt_bind (Set.disjoint_empty S) h fun a => sim.stmt_text (g a))

theorem stmt_wrap {S : Set Slot} {m : Render κ String} {d : M τ} (before after : String)
    (h : sim.stmt S m d) :
    sim.stmt S (do
      let t ← m
      return before ++ t ++ after) (wrap before d after) := by
  have hboth := sim.stmt_both (Set.disjoint_empty _)
    (sim.stmt_both (Set.empty_disjoint S) (sim.stmt_text before) h) (sim.stmt_text after)
  simp only [pure_bind, bind_assoc] at hboth
  exact sim.stmt_mono (by simp) hboth

/-- Statements at different places can be rendered one after the other. -/
theorem stmt_lines {ms : List (Render κ String)} {ds : List (M τ)} (S : Nat → Set Slot)
    (hdisjoint : ∀ i j, i ≠ j → Disjoint (S i) (S j)) (hlength : ms.length = ds.length)
    (h : ∀ (i : Nat) m d, ms[i]? = some m → ds[i]? = some d → sim.stmt (S i) m d) :
    sim.stmt (⋃ i, S i) (Render.joined ";\n" ms) (lines ds) := by
  induction ms generalizing ds S with
  | nil =>
    obtain rfl : ds = [] := List.length_eq_zero_iff.mp hlength.symm
    rw [Render.joined_nil]
    exact sim.stmt_mono (Set.empty_subset _) (sim.stmt_text "")
  | cons m rest ih =>
    obtain ⟨d, ds, rfl⟩ : ∃ d ds', ds = d :: ds' := List.exists_cons_of_length_eq_add_one hlength.symm
    have hfirst : sim.stmt (S 0) m d := h 0 m d rfl rfl
    cases rest with
    | nil =>
      obtain rfl : ds = [] := by simpa using hlength.symm
      rw [Render.joined_singleton]
      exact sim.stmt_mono (Set.subset_iUnion S 0) hfirst
    | cons next rest =>
      obtain ⟨d', ds, rfl⟩ : ∃ d' ds', ds = d' :: ds' :=
        List.exists_cons_of_length_eq_add_one (by simpa using hlength.symm)
      have hrest : sim.stmt (⋃ i, S (i + 1)) (Render.joined ";\n" (next :: rest)) (lines (d' :: ds)) := by
        refine ih (fun i => S (i + 1)) (fun i j hij => hdisjoint _ _ (by omega)) (by simpa using hlength) ?_
        intro i m' d' hm' hd'
        exact h (i + 1) m' d' hm' hd'
      have happart : Disjoint (S 0) (⋃ i, S (i + 1)) :=
        Set.disjoint_iUnion_right.mpr fun i => hdisjoint _ _ (by omega)
      have hboth := sim.stmt_both happart (sim.stmt_wrap "" ";\n" hfirst) hrest
      simp only [pure_bind, bind_assoc, String.empty_append] at hboth
      rw [Render.joined_cons_cons]
      refine sim.stmt_mono (Set.union_subset (Set.subset_iUnion S 0) ?_) hboth
      exact Set.iUnion_subset fun i => Set.subset_iUnion S (i + 1)

/-- The statements in a field, or at the top of a tree. -/
theorem stmt_placed {ss : List Stmt} {p : Place} {f : Field}
    (h : ∀ (i : Nat) s, ss[i]? = some s →
      sim.stmt (under (.field f i :: p)) (s.render keyOf (.field f i :: p)) s.direct) :
    sim.stmt (⋃ i, under (.field f i :: p))
      (Render.joined ";\n" (placed p f (ss.map (Stmt.render keyOf)))) (lines (ss.map Stmt.direct)) := by
  refine sim.stmt_lines _ ?_ (by simp [placed]) ?_
  · intro i j hij
    exact under_disjoint p fun heq => hij (Step.field.inj heq).2
  · intro i m d hm hd
    simp only [placed, List.getElem?_mapIdx, List.getElem?_map, Option.map_map,
      Option.map_eq_some_iff] at hm hd
    obtain ⟨s, hs, rfl⟩ := hm
    obtain ⟨s', hs', rfl⟩ := hd
    obtain rfl : s = s' := Option.some.inj (hs.symm.trans hs')
    exact h i s hs

/-- A field that holds a list of statements. -/
theorem stmt_fieldLines {site : Site κ} {p : Place} {f : Field} {ss : List Stmt}
    (hp : p ∈ sim.nodes) (hkey : site.key = keyOf p)
    (hv : site.fields.lookup f =
      some (.stmts ((ss.map (Stmt.emitter keyOf)).mapIdx fun i s => s.emit (.field f i :: p))))
    (h : ∀ (i : Nat) s, ss[i]? = some s →
      sim.stmt (under (.field f i :: p)) (s.render keyOf (.field f i :: p)) s.direct) :
    sim.stmt (ofField p f) (site.attr f)
      (read (lines ((ss.map fun s => (s.loc, (s.direct : M τ))).map Prod.snd))) := by
  have hplaced : ((ss.map (Stmt.emitter keyOf)).mapIdx fun i s => s.emit (.field f i :: p)) =
      placed p f (ss.map (Stmt.render keyOf)) := by
    apply List.ext_getElem? 
    intro i
    simp only [placed, List.getElem?_mapIdx, List.getElem?_map, Option.map_map]
    rfl
  have htold : (ss.map fun s => (s.loc, (s.direct : M τ))).map Prod.snd = ss.map Stmt.direct := by
    simp
  rw [hplaced] at hv
  rw [htold]
  refine sim.stmt_mono ?_ (sim.stmt_attr hp hkey hv (own_not_mem_iUnion_under p f _)
    (sim.stmt_placed h))
  exact Set.insert_subset (Or.inl ⟨rfl, rfl⟩) (iUnion_under_subset_ofField p f)

theorem stmt_fields {α : Type} {p : Place} {f : Field} {fs : List Field} {m : Render κ α} {d : M α}
    {g : α → Render κ String} {g' : α → M τ} (hf : f ∉ fs) (h : sim.expr (ofField p f) m d)
    (hrest : ∀ a, sim.stmt (ofFields p fs) (g a) (g' a)) :
    sim.stmt (ofFields p (f :: fs)) (m >>= g) (d >>= g') := by
  rw [ofFields_cons]
  exact sim.stmt_bind (ofField_disjoint_ofFields p hf) h hrest

theorem stmt_noFields (p : Place) (t : String) : sim.stmt (ofFields p []) (pure t) (text t) :=
  sim.stmt_mono (Set.empty_subset _) (sim.stmt_text t)

theorem stmt_ofFields {p : Place} {m : Render κ String} {d : M τ} (fs : List Field)
    (h : sim.stmt (ofFields p fs) m d) : sim.stmt (under p) m d :=
  sim.stmt_mono (ofFields_subset_under p fs) h

theorem ofField_subset_singleton (p : Place) (f : Field) : ofField p f ⊆ ofFields p [f] :=
  fun _ hk => ⟨f, List.mem_singleton.mpr rfl, hk⟩

/-! ### Statements -/

/-- What stands in the scope of a function. -/
theorem stmt_functionBody {site : Site κ} {p : Place} {params : Params Expr} {body : List Stmt}
    (name : String) (hp : p ∈ sim.nodes) (hkey : site.key = keyOf p)
    (hv : site.fields.lookup .body =
      some (.stmts ((body.map (Stmt.emitter keyOf)).mapIdx fun i s => s.emit (.field .body i :: p))))
    (hparams : ∀ (j : Nat) e, params.defaults[j]? = some e →
      sim.expr (under (.default j :: p)) (e.render keyOf (.default j :: p)) e.direct)
    (hbody : ∀ (i : Nat) s, body[i]? = some s →
      sim.stmt (under (.field .body i :: p)) (s.render keyOf (.field .body i :: p)) s.direct) :
    sim.stmt (ofDefaults p ∪ ofField p .body)
      (do
        let paramsText ← (params.map (Expr.render keyOf)).render p
        let text ← site.attr .body
        return "function " ++ name ++ "(" ++ paramsText ++ ") \x7b\n" ++ text ++ "\n\x7d")
      (do
        let paramsText ← (params.map Expr.direct).direct
        wrap ("function " ++ name ++ "(" ++ paramsText ++ ") \x7b\n")
          (read (lines ((body.map fun s => (s.loc, (s.direct : M τ))).map Prod.snd))) "\n\x7d") :=
  sim.stmt_bind (ofDefaults_disjoint p .body) (sim.expr_params hparams) fun _ =>
    sim.stmt_wrap _ _ (sim.stmt_fieldLines hp hkey hv hbody)

/-- The targets of an assignment, one after the other. -/
theorem stmt_targets {targets : List Expr} {p : Place} (value : String)
    (h : ∀ (i : Nat) e, targets[i]? = some e →
      sim.expr (under (.field .targets i :: p)) (e.render keyOf (.field .targets i :: p)) e.direct) :
    sim.stmt (⋃ i, under (.field .targets i :: p))
      (Render.joined ";\n" ((StmtForm.placedExprs keyOf p .targets targets).map (assignTo value)))
      (lines (targets.map fun target => do
        let name ← target.direct
        Rendition.assign name value)) := by
  refine sim.stmt_lines _ ?_ (by simp [StmtForm.placedExprs, placed]) ?_
  · intro i j hij
    exact under_disjoint p fun heq => hij (Step.field.inj heq).2
  · intro i m d hm hd
    simp only [StmtForm.placedExprs, placed, List.getElem?_mapIdx, List.getElem?_map,
      Option.map_map, Option.map_eq_some_iff] at hm hd
    obtain ⟨e, he, rfl⟩ := hm
    obtain ⟨e', he', rfl⟩ := hd
    obtain rfl : e = e' := Option.some.inj (he.symm.trans he')
    simp only [Function.comp_apply]
    rw [assignTo_eq_bind]
    exact sim.stmt_mono (Set.union_empty _).subset
      (sim.stmt_bind (Set.disjoint_empty _) (h i e he) fun name => sim.stmt_assign name value)

theorem rule_augAssign {target value : Expr} {op : BinaryOperator} (h : op ≠ .floorDiv) (p : Place) :
    StmtForm.rule keyOf (.augAssign target op value) p =
      (StmtForm.site keyOf (.augAssign target op value) p).template Template.augAssign := by
  cases op <;> first | rfl | exact absurd rfl h

theorem direct_augAssign {target value : Expr} {op : BinaryOperator} (h : op ≠ .floorDiv) :
    (StmtForm.augAssign target op value : StmtForm (Loc × M τ) Expr).direct = (do
      let target ← read target.direct
      let op ← read (given op.spell)
      let value ← read value.direct
      text (target ++ " " ++ op ++ "= " ++ value)) := by
  cases op <;> first | rfl | exact absurd rfl h

theorem stmt_augAssign {target value : Expr} {op : BinaryOperator} {p : Place} (hp : p ∈ sim.nodes)
    (htarget : sim.expr (under (.field .target 0 :: p)) (target.render keyOf (.field .target 0 :: p))
      target.direct)
    (hvalue : sim.expr (under (.field .value 0 :: p)) (value.render keyOf (.field .value 0 :: p))
      value.direct) :
    sim.stmt (under p) (StmtForm.rule keyOf (.augAssign target op value) p)
      (StmtForm.augAssign target op value : StmtForm (Loc × M τ) Expr).direct := by
  by_cases hop : op = .floorDiv
  · subst hop
    let site := StmtForm.site keyOf (.augAssign target .floorDiv value) p
    -- the two reads of the target belong together
    have htwice : sim.expr (ofField p .target) (do
        let first ← site.attr .target
        let second ← site.attr .target
        return (first, second)) (readTwice target.direct) :=
      sim.expr_mono (Set.insert_subset (Or.inl ⟨rfl, rfl⟩) (under_subset_ofField p _ 0))
        (sim.expr_attrTwice hp rfl rfl (own_not_mem_under p .target .rendered _) htarget)
    have hvalue' : sim.expr (ofField p .value) (site.attr .value) (read value.direct) :=
      sim.expr_fieldOne hp rfl rfl hvalue
    have hrule := sim.stmt_ofFields [.target, .value]
      (sim.stmt_fields (by decide) htwice fun pair =>
      sim.stmt_fields (by decide) hvalue' fun value =>
      sim.stmt_noFields p (pair.1 ++ " = Math.floor(" ++ pair.2 ++ " / " ++ value ++ ")"))
    simp only [bind_assoc, pure_bind] at hrule
    show sim.stmt _ (Site.template _ Template.augAssignFloorDiv) _
    rw [Site.template_augAssignFloorDiv]
    exact hrule
  · rw [rule_augAssign hop, direct_augAssign hop, Site.template_augAssign]
    exact sim.stmt_ofFields [.target, .op, .value]
      (sim.stmt_fields (by decide) (sim.expr_fieldOne hp rfl rfl htarget) fun _ =>
      sim.stmt_fields (by decide) (sim.expr_fieldBinary hp rfl rfl) fun _ =>
      sim.stmt_fields (by decide) (sim.expr_fieldOne hp rfl rfl hvalue) fun _ =>
      sim.stmt_noFields p _)

/-- The two branches of a conditional share the scope around it. -/
theorem stmt_branches {p : Place} {m n : Render κ String} {d e : M τ} (before between after : String)
    (hm : sim.stmt (ofField p .body) m d) (hn : sim.stmt (ofField p .orelse) n e) :
    sim.stmt (ofFields p [.body, .orelse])
      (do
        let a ← m
        let b ← n
        return before ++ a ++ between ++ b ++ after)
      (both (wrap before d between) (wrap "" e after)) := by
  have hboth := sim.stmt_both (ofField_disjoint p (by decide : Field.body ≠ .orelse))
    (sim.stmt_wrap before between hm) (sim.stmt_wrap "" after hn)
  simp only [bind_assoc, pure_bind, String.empty_append, ← String.append_assoc] at hboth
  refine sim.stmt_mono (Set.union_subset ?_ ?_) hboth
  · exact fun _ hk => ⟨.body, by simp, hk⟩
  · exact fun _ hk => ⟨.orelse, by simp, hk⟩

/-- The rule of every form is related to what comes of it, if that is so for what is below it. -/
theorem stmt_rule (form : StmtForm Stmt Expr) {p : Place} (hp : p ∈ sim.nodes)
    (hexpr : ∀ s c, (s, c) ∈ form.exprSteps →
      sim.expr (under (s :: p)) (c.render keyOf (s :: p)) c.direct)
    (hstmt : ∀ s c, (s, c) ∈ form.stmtSteps →
      sim.stmt (under (s :: p)) (c.render keyOf (s :: p)) c.direct) :
    sim.stmt (under p) (StmtForm.rule keyOf (form.map (Stmt.emitter keyOf)) p)
      (form.map fun s => (s.loc, (s.direct : M τ))).direct := by
  have one : ∀ f c, (f, FieldValue.expr c) ∈ form.table?.getD [] →
      sim.expr (under (.field f 0 :: p)) (c.render keyOf (.field f 0 :: p)) c.direct :=
    fun f c hc => hexpr _ _ (StmtForm.mem_exprSteps_of_table hc (List.mem_singleton.mpr rfl))
  have option : ∀ f c, (f, FieldValue.optExpr c) ∈ form.table?.getD [] → ∀ e ∈ c,
      sim.expr (under (.field f 0 :: p)) (e.render keyOf (.field f 0 :: p)) e.direct := by
    rintro f c hc e rfl
    exact hexpr _ _ (StmtForm.mem_exprSteps_of_table hc (List.mem_singleton.mpr rfl))
  have many : ∀ f cs, (f, FieldValue.exprs cs) ∈ form.table?.getD [] → ∀ (i : Nat) c,
      cs[i]? = some c →
      sim.expr (under (.field f i :: p)) (c.render keyOf (.field f i :: p)) c.direct :=
    fun f cs hcs i c hc => hexpr _ _ (StmtForm.mem_exprSteps_of_table hcs (FieldValue.exprStep_mem hc))
  have block : ∀ f ss, (f, FieldValue.stmts ss) ∈ form.table?.getD [] → ∀ (i : Nat) s,
      ss[i]? = some s →
      sim.stmt (under (.field f i :: p)) (s.render keyOf (.field f i :: p)) s.direct :=
    fun f ss hss i s hs => hstmt _ _ (StmtForm.mem_stmtSteps_of_table hss (FieldValue.stmtStep_mem hs))
  have nothing : ∀ {m : Render κ String} {d : M τ}, sim.stmt ∅ m d → sim.stmt (under p) m d :=
    sim.stmt_mono (Set.empty_subset _)
  cases form with
  | functionDef name params body decorators =>
    have hbody := block .body body (by simp [StmtForm.table?])
    have hparams : ∀ (j : Nat) e, params.defaults[j]? = some e →
        sim.expr (under (.default j :: p)) (e.render keyOf (.default j :: p)) e.direct :=
      fun j e he => hexpr _ _ (List.mem_append_right _ (Params.step_mem he))
    cases decorators with
    | cons decorator rest => exact nothing (sim.stmt_around _ (sim.stmt_unsupported _))
    | nil =>
      have happart : Disjoint (ofField p .name) (ofDefaults p ∪ ofField p .body) :=
        Set.disjoint_union_right.mpr
          ⟨(ofDefaults_disjoint p .name).symm, ofField_disjoint p (by decide)⟩
      refine sim.stmt_mono ?_ (sim.stmt_bind happart (sim.expr_fieldName hp rfl rfl) fun name =>
        sim.stmt_inScope params.boundNames (sim.stmt_functionBody name hp rfl rfl hparams hbody))
      exact Set.union_subset (ofField_subset_under p _)
        (Set.union_subset (ofDefaults_subset_under p) (ofField_subset_under p _))
  | ret value =>
    have hvalue := option .value value (by simp [StmtForm.table?])
    show sim.stmt _ (Site.template _ Template.ret) _
    rw [Site.template_ret]
    exact sim.stmt_mono (ofField_subset_under p _)
      (sim.stmt_ofExpr (sim.expr_fieldOption hp rfl rfl hvalue) _)
  | delete targets =>
    have htargets := many .targets targets (by simp [StmtForm.table?])
    refine sim.stmt_mono ?_ (sim.stmt_ofExpr (sim.expr_placed htargets) _)
    exact (iUnion_under_subset_ofField p _).trans (ofField_subset_under p _)
  | assign targets value =>
    have hvalue := one .value value (by simp [StmtForm.table?])
    have htargets := many .targets targets (by simp [StmtForm.table?])
    refine sim.stmt_ofFields [.value, .targets] (sim.stmt_fields (by decide)
      (sim.expr_fieldOne hp rfl rfl hvalue) fun text => ?_)
    exact sim.stmt_mono ((iUnion_under_subset_ofField p _).trans (ofField_subset_singleton p _))
      (sim.stmt_targets text htargets)
  | augAssign target op value =>
    have htarget := one .target target (by simp [StmtForm.table?])
    have hvalue := one .value value (by simp [StmtForm.table?])
    exact sim.stmt_augAssign hp htarget hvalue
  | forLoop target iter body orelse =>
    have hiter := one .iter iter (by simp [StmtForm.table?])
    have hbody := block .body body (by simp [StmtForm.table?])
    cases orelse with
    | cons stmt rest =>
      show sim.stmt _ (Render.around (stmt.emitter keyOf).loc _) (around stmt.loc _)
      rw [Stmt.emitter_loc]
      exact nothing (sim.stmt_around _ (sim.stmt_unsupported _))
    | nil =>
      obtain ⟨loc, form⟩ := target
      cases form with
      | name id =>
        exact sim.stmt_ofFields [.iter, .body] (sim.stmt_fields (by decide)
          (sim.expr_fieldOne hp rfl rfl hiter) fun text =>
          sim.stmt_inScope [id] (sim.stmt_mono (ofField_subset_singleton p _)
            (sim.stmt_wrap _ _ (sim.stmt_fieldLines hp rfl rfl hbody))))
      | _ => exact nothing (sim.stmt_around _ (sim.stmt_unsupported _))
  | whileLoop test body orelse =>
    have htest := one .test test (by simp [StmtForm.table?])
    have hbody := block .body body (by simp [StmtForm.table?])
    cases orelse with
    | cons stmt rest =>
      show sim.stmt _ (Render.around (stmt.emitter keyOf).loc _) (around stmt.loc _)
      rw [Stmt.emitter_loc]
      exact nothing (sim.stmt_around _ (sim.stmt_unsupported _))
    | nil =>
      show sim.stmt _ (Site.template _ Template.whileLoop) _
      rw [Site.template_whileLoop]
      exact sim.stmt_ofFields [.test, .body] (sim.stmt_fields (by decide)
        (sim.expr_fieldOne hp rfl rfl htest) fun text =>
        sim.stmt_mono (ofField_subset_singleton p _)
          (sim.stmt_wrap _ _ (sim.stmt_fieldLines hp rfl rfl hbody)))
  | cond test body orelse =>
    have htest := one .test test (by simp [StmtForm.table?])
    have hbody := block .body body (by simp [StmtForm.table?])
    have horelse := block .orelse orelse (by simp [StmtForm.table?])
    show sim.stmt _ (Site.template _ Template.cond) _
    rw [Site.template_cond]
    refine sim.stmt_ofFields [.test, .body, .orelse] (sim.stmt_fields (by decide)
      (sim.expr_fieldOne hp rfl rfl htest) fun text => ?_)
    exact sim.stmt_branches _ _ _ (sim.stmt_fieldLines hp rfl rfl hbody)
      (sim.stmt_fieldLines hp rfl rfl horelse)
  | raise exc cause =>
    have hexc := option .exc exc (by simp [StmtForm.table?])
    cases cause with
    | some cause => exact nothing (sim.stmt_around _ (sim.stmt_unsupported _))
    | none =>
      show sim.stmt _ (Site.template _ Template.raise) _
      rw [Site.template_raise]
      exact sim.stmt_mono (ofField_subset_under p _)
        (sim.stmt_ofExpr (sim.expr_fieldOption hp rfl rfl hexc) _)
  | expr value =>
    have hvalue := one .value value (by simp [StmtForm.table?])
    show sim.stmt _ (Site.template _ Template.expr) _
    rw [Site.template_expr, ← bind_pure (Site.attr _ _)]
    exact sim.stmt_mono (ofField_subset_under p _)
      (sim.stmt_ofExpr (sim.expr_fieldOne hp rfl rfl hvalue) id)
  | pass =>
    show sim.stmt _ (Site.template _ Template.pass) _
    rw [Site.template_pass]
    exact nothing (sim.stmt_text "")
  | breakLoop =>
    show sim.stmt _ (Site.template _ Template.breakLoop) _
    rw [Site.template_breakLoop]
    exact nothing (sim.stmt_text "break")
  | continueLoop =>
    show sim.stmt _ (Site.template _ Template.continueLoop) _
    rw [Site.template_continueLoop]
    exact nothing (sim.stmt_text "continue")
  | classDef | tryStmt | withStmt | assert | importStmt | globalStmt | nonlocalStmt =>
    exact nothing (sim.stmt_unsupported _)

/-- **Rendering a statement** is related to its direct rules. -/
theorem render_stmt (s : Stmt) :
    ∀ p, s.nodes p ⊆ sim.nodes → sim.stmt (under p) (s.render keyOf p) s.direct := by
  induction s with
  | mk loc form ih =>
    intro p hnodes
    rw [Stmt.render_mk, Stmt.direct_mk]
    refine sim.stmt_around loc (sim.stmt_rule form (hnodes (.here _ p)) ?_ ?_)
    · intro step e he
      exact sim.render_expr e (step :: p) ((Stmt.nodes_inExpr he).trans hnodes)
    · intro step c hc
      exact ih c (StmtForm.mem_children_of_step hc) (step :: p) ((Stmt.nodes_child hc).trans hnodes)

/-- **Rendering the statements at the top of a tree** is related to their direct rules. -/
theorem render_all (stmts : List Stmt) (hnodes : nodesOf stmts ⊆ sim.nodes) :
    sim.stmt (⋃ i, under [.field .body i]) (renderAll keyOf stmts) (directAll stmts) :=
  sim.stmt_placed fun i s hs =>
    sim.render_stmt s _ fun _ hq => hnodes ⟨i, s, hs, hq⟩

end Simulation

end ScriptTree
