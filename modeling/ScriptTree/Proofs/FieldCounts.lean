/-
  ScriptTree/Proofs/FieldCounts.lean
  ==================================
  **What a pass stores and what it finds again.**  In a tree whose nodes have different keys no text
  is stored twice: at the end of every pass, also of a failed one, the count of stored texts is the
  number of texts in the cache (`Accounts`, carried through the tree by the simulation `accounting`).

  After a successful pass the counts can be read off the tree.  Each rule reads a fixed number of
  fields of its node (`fieldsRead`) and renders its children in reach.  Only one rule reads a field
  twice, floor division in place, so the texts found again count those statements.
-/
import ScriptTree.Proofs.Passes
import ScriptTree.Proofs.Refusals
import Mathlib.Algebra.GroupWithZero.Nat

namespace ScriptTree

open Rendition

variable {κ : Type} [DecidableEq κ] {α β : Type}

/-! ### Every text is stored once -/

/-- As many texts were stored as there are, each under a key of its own. -/
structure AttrCache.Balanced (c : AttrCache κ) : Prop where
  computed : c.stats.computed = c.size
  nodup : (c.entries.map Prod.fst).Nodup

omit [DecidableEq κ] in
theorem AttrCache.balanced_empty : (AttrCache.empty : AttrCache κ).Balanced := ⟨rfl, List.nodup_nil⟩

omit [DecidableEq κ] in
theorem AttrCache.Balanced.hit {c : AttrCache κ} (h : c.Balanced) : c.hit.Balanced :=
  ⟨h.computed, h.nodup⟩

theorem AttrCache.Balanced.add {c : AttrCache κ} {key : AttrKey κ} (h : c.Balanced)
    (hmiss : c.get? key = none) (text : String) : (c.add key text).Balanced := by
  constructor
  · show c.stats.computed + 1 = c.entries.length + 1
    rw [h.computed]
    rfl
  · exact List.nodup_cons.mpr ⟨lookup_eq_none_iff_not_mem.mp hmiss, h.nodup⟩

section Accounting

variable (keyOf : Place → κ) (nodes : Set Place)

/-- An action that fills no slots but the given ones and keeps the cache balanced, if nothing is
    stored for them yet. -/
def Accounts (S : Set Slot) (m : Render κ α) : Prop :=
  ∀ r, Fresh keyOf nodes S r.cache → r.cache.Balanced →
    Untouched keyOf nodes S r.cache (m r).renderer.cache ∧ (m r).renderer.cache.Balanced

variable {keyOf nodes} {S S' : Set Slot} {m : Render κ α}

theorem Accounts.mono (hS : S ⊆ S') (h : Accounts keyOf nodes S m) : Accounts keyOf nodes S' m := by
  intro r hfresh hbalanced
  obtain ⟨hkept, hafter⟩ := h r (hfresh.mono hS) hbalanced
  exact ⟨hkept.mono hS, hafter⟩

/-- An action that does not touch the cache. -/
theorem accounts_of_cache_eq (h : ∀ r, (m r).renderer.cache = r.cache) :
    Accounts keyOf nodes ∅ m := by
  intro r _ hbalanced
  rw [h r]
  exact ⟨Untouched.refl, hbalanced⟩

theorem Accounts.bind {f : α → Render κ β} (hdisjoint : Disjoint S S')
    (hm : Accounts keyOf nodes S m) (hf : ∀ a, Accounts keyOf nodes S' (f a)) :
    Accounts keyOf nodes (S ∪ S') (m >>= f) := by
  intro r hfresh hbalanced
  obtain ⟨hkept, hafter⟩ := hm r (hfresh.mono Set.subset_union_left) hbalanced
  cases hresult : (m r).result with
  | error e =>
    rw [Render.bind_of_error hresult]
    exact ⟨hkept.mono Set.subset_union_left, hafter⟩
  | ok a =>
    rw [Render.bind_of_ok hresult]
    have hfresh' := hkept.fresh hdisjoint (hfresh.mono Set.subset_union_right)
    obtain ⟨hkept', hafter'⟩ := hf a (m r).renderer hfresh' hafter
    exact ⟨hkept.trans hkept', hafter'⟩

theorem Accounts.inScope (names : List String) (h : Accounts keyOf nodes S m) :
    Accounts keyOf nodes S (Render.inScope names m) :=
  fun r => h ⟨r.scopes.enter.declare names, r.cache⟩

theorem balanced_stored {o : Outcome κ String} {key : AttrKey κ} (h : o.renderer.cache.Balanced)
    (hmiss : o.renderer.cache.get? key = none) : (o.stored key).renderer.cache.Balanced := by
  unfold Outcome.stored
  split
  · exact h
  · exact h.add hmiss _

variable {site : Site κ} {p : Place} {f : Field}
  {v : FieldValue (Render κ String) (Render κ String)}

theorem Accounts.attr (hinj : Set.InjOn keyOf nodes) (hp : p ∈ nodes) (hkey : site.key = keyOf p)
    (hv : site.fields.lookup f = some v) (hnot : ⟨p, f, .rendered⟩ ∉ S)
    (h : Accounts keyOf nodes S v.render) :
    Accounts keyOf nodes (insert ⟨p, f, .rendered⟩ S) (site.attr f) := by
  intro r hfresh hbalanced
  obtain ⟨hkept, hafter⟩ := h r (hfresh.mono (Set.subset_insert _ _)) hbalanced
  rw [Site.attr_of_fresh hp hkey hv hnot hfresh hkept]
  refine ⟨Site.untouched_attr hinj hp hkey hkept, balanced_stored hafter ?_⟩
  rw [hkey]
  exact (hkept ⟨p, f, .rendered⟩ hnot hp).trans (hfresh _ (Set.mem_insert _ _) hp)

theorem accounts_rawAttr {t : String} (hinj : Set.InjOn keyOf nodes) (hp : p ∈ nodes)
    (hkey : site.key = keyOf p) (hv : site.fields.lookup f = some (.ident t)) :
    Accounts keyOf nodes {⟨p, f, .raw⟩} (site.rawAttr f) := by
  intro r hfresh hbalanced
  rw [Site.rawAttr_of_fresh hp hkey hv hfresh]
  refine ⟨Outcome.untouched_stored ⟨.ok t, r, []⟩ hinj hp, balanced_stored hbalanced ?_⟩
  exact hfresh ⟨p, f, .raw⟩ rfl hp

theorem Accounts.attrTwice (hinj : Set.InjOn keyOf nodes) (hp : p ∈ nodes)
    (hkey : site.key = keyOf p) (hv : site.fields.lookup f = some v)
    (hnot : ⟨p, f, .rendered⟩ ∉ S) (h : Accounts keyOf nodes S v.render) :
    Accounts keyOf nodes (insert ⟨p, f, .rendered⟩ S)
      (do
        let first ← site.attr f
        let second ← site.attr f
        return (first, second)) := by
  intro r hfresh hbalanced
  obtain ⟨hinner, -⟩ := h r (hfresh.mono (Set.subset_insert _ _)) hbalanced
  have hattr := Site.attr_of_fresh hp hkey hv hnot hfresh hinner
  obtain ⟨hkept, hafter⟩ := h.attr hinj hp hkey hv hnot r hfresh hbalanced
  cases hresult : (site.attr f r).result with
  | error e =>
    rw [Render.bind_of_error hresult]
    exact ⟨hkept, hafter⟩
  | ok text =>
    rw [Site.attrTwice_of_ok hresult (Site.get?_of_attr hattr hresult)]
    exact ⟨hkept, hafter.hit⟩

theorem accounts_assign (name value : String) :
    Accounts keyOf nodes ∅ (assignTo value (pure name) : Render κ String) := by
  apply accounts_of_cache_eq
  intro r
  rw [assignTo_apply]
  split
  · rfl
  · rfl

/-- Rendering keeps the cache balanced.  What it is compared with plays no part. -/
def accounting (keyOf : Place → κ) (nodes : Set Place) (hinj : Set.InjOn keyOf nodes) :
    Simulation keyOf Draft Sketch where
  nodes := nodes
  expr S m _ := Accounts keyOf nodes S m
  stmt S m _ := Accounts keyOf nodes S m
  expr_mono hS h := h.mono hS
  expr_pure _ := accounts_of_cache_eq fun _ => rfl
  expr_fail _ := accounts_of_cache_eq fun _ => rfl
  expr_bind hdisjoint hm hf := hm.bind hdisjoint hf
  expr_around _ h := h
  expr_inScope names h := h.inScope names
  expr_attr hp hkey hv hnot h := h.attr hinj hp hkey hv hnot
  expr_rawAttr hp hkey hv := accounts_rawAttr hinj hp hkey hv
  expr_attrTwice hp hkey hv hnot h := h.attrTwice hinj hp hkey hv hnot
  stmt_mono hS h := h.mono hS
  stmt_text _ := accounts_of_cache_eq fun _ => rfl
  stmt_fail _ := accounts_of_cache_eq fun _ => rfl
  stmt_both hdisjoint hm hn := by
    have hrest := fun a : String => hn.bind (Set.disjoint_empty _) fun b =>
      accounts_of_cache_eq (m := pure (a ++ b)) fun _ => rfl
    simp only [Set.union_empty] at hrest
    exact hm.bind hdisjoint hrest
  stmt_bind hdisjoint hm hf := hm.bind hdisjoint hf
  stmt_around _ h := h
  stmt_inScope names h := h.inScope names
  stmt_attr hp hkey hv hnot h := h.attr hinj hp hkey hv hnot
  stmt_assign name value := accounts_assign name value

theorem balanced_pass (keyOf : Place → κ) {stmts : List Stmt}
    (hkeys : Set.InjOn keyOf (nodesOf stmts)) (r : Renderer κ) :
    (Renderer.renderStmts keyOf stmts r).renderer.cache.Balanced :=
  ((accounting keyOf (nodesOf stmts) hkeys).render_all stmts subset_rfl r.startPass fresh_empty
    AttrCache.balanced_empty).2

end Accounting

/-! ### How many fields a tree reads -/

/-- The number of fields that the rule of a form reads. -/
def ExprForm.fieldsRead {ε : Type} : ExprForm ε → Nat
  | .binOp _ .floorDiv _ => 2
  | .binOp .. | .ifExp .. => 3
  | .unaryOp .. | .call .. | .attribute .. | .subscript .. => 2
  | .lambda .. | .compare .. | .name _ | .list _ | .starred _ => 1
  | .boolOp .. | .dict .. | .constant _ | .tuple _ | .set _ | .listComp .. | .dictComp ..
  | .generatorExp .. | .await _ | .yield _ | .namedExpr .. | .slice .. | .joinedStr _ => 0

def StmtForm.fieldsRead {σ ε : Type} : StmtForm σ ε → Nat
  | .augAssign _ .floorDiv _ => 2
  | .augAssign .. | .cond .. => 3
  | .functionDef .. | .forLoop .. | .whileLoop .. => 2
  | .ret _ | .assign .. | .raise .. | .expr _ => 1
  | .delete _ | .pass | .breakLoop | .continueLoop | .classDef .. | .tryStmt .. | .withStmt ..
  | .assert .. | .importStmt _ | .globalStmt _ | .nonlocalStmt _ => 0

/-- The expressions of a form that its rule renders: the target of a loop is not among them. -/
def StmtForm.rendered {σ ε : Type} : StmtForm σ ε → List ε
  | .forLoop _ iter _ _ => [iter]
  | form => form.reached

/-- The number of fields read in all nodes of an expression that are rendered. -/
def Expr.fieldsRead : Expr → Nat :=
  Expr.fold fun _ form => form.fieldsRead + form.reached.sum

/-- The number of fields read in all nodes of a statement that are rendered. -/
def Stmt.fieldsRead : Stmt → Nat :=
  Stmt.fold fun _ form =>
    form.fieldsRead + (form.rendered.map Expr.fieldsRead).sum + form.children.sum

def StmtForm.floorDivs {σ ε : Type} : StmtForm σ ε → Nat
  | .augAssign _ .floorDiv _ => 1
  | _ => 0

/-- The number of floor divisions in place that stand anywhere in a statement. -/
def Stmt.floorDivs : Stmt → Nat :=
  Stmt.fold fun _ form => form.floorDivs + form.children.sum

theorem Expr.fieldsRead_mk (l : Loc) (form : ExprForm Expr) :
    Expr.fieldsRead ⟨l, form⟩ =
      (form.map Expr.fieldsRead).fieldsRead + (form.map Expr.fieldsRead).reached.sum :=
  Expr.fold_mk _ l form

theorem Stmt.fieldsRead_mk (l : Loc) (form : StmtForm Stmt Expr) :
    Stmt.fieldsRead ⟨l, form⟩ =
      (form.map Stmt.fieldsRead).fieldsRead +
        ((form.map Stmt.fieldsRead).rendered.map Expr.fieldsRead).sum +
          (form.map Stmt.fieldsRead).children.sum :=
  Stmt.fold_mk _ l form

theorem Stmt.floorDivs_mk (l : Loc) (form : StmtForm Stmt Expr) :
    Stmt.floorDivs ⟨l, form⟩ =
      (form.map Stmt.floorDivs).floorDivs + (form.map Stmt.floorDivs).children.sum :=
  Stmt.fold_mk _ l form

/-! ### What a draft costs -/

namespace Draft

/-- If the draft succeeds, then so many fields were read and so many were found again. -/
def Costs (d : Draft α) (reads hits : Nat) : Prop :=
  ∀ a, d.result = .ok a → d.acts.count .compute = reads ∧ d.acts.count .reuse = hits

variable {d : Draft α} {n k n' k' : Nat}

theorem Costs.of_eq (h : d.Costs n k) (hn : n = n') (hk : k = k') : d.Costs n' k' := by
  rw [← hn, ← hk]
  exact h

theorem costs_pure (a : α) : (pure a : Draft α).Costs 0 0 := fun _ _ => ⟨rfl, rfl⟩

theorem costs_fail (e : RenderError) : (fail e : Draft α).Costs n k := by
  rintro a ⟨⟩

theorem costs_text (t : String) : (text t : Draft Sketch).Costs 0 0 := fun _ _ => ⟨rfl, rfl⟩

theorem costs_assign (name value : String) :
    (Rendition.assign name value : Draft Sketch).Costs 0 0 := fun _ _ => ⟨rfl, rfl⟩

theorem Costs.bind {f : α → Draft β} (hd : d.Costs n k) (hf : ∀ a, (f a).Costs n' k') :
    (d >>= f).Costs (n + n') (k + k') := by
  intro b hb
  obtain ⟨a, ha, hfa⟩ := result_of_bind hb
  obtain ⟨hreads, hhits⟩ := hd a ha
  obtain ⟨hreads', hhits'⟩ := hf a b hfa
  rw [bind_of_ok ha]
  simp only [List.count_append, hreads, hhits, hreads', hhits', and_self]

theorem Costs.map {f : α → β} (hd : d.Costs n k) : (d >>= fun a => pure (f a)).Costs n k :=
  hd.bind fun a => costs_pure (f a)

theorem Costs.thenText {f : α → String} (hd : d.Costs n k) :
    (d >>= fun a => text (f a) : Draft Sketch).Costs n k :=
  hd.bind fun a => costs_text (f a)

theorem Costs.around (l : Loc) (hd : d.Costs n k) : (Rendition.around l d).Costs n k :=
  fun a ha => hd a (result_of_around ha)

theorem Costs.inScope (names : List String) (hd : d.Costs n k) :
    (Rendition.inScope names d).Costs n k := by
  intro a ha
  obtain ⟨hreads, hhits⟩ := hd a ha
  have hacts : (Rendition.inScope names d).acts = .enter names :: d.acts ++ [.leave] := rfl
  rw [hacts]
  simp [hreads, hhits]

theorem Costs.read (hd : d.Costs n k) : (Rendition.read d).Costs (n + 1) k := by
  intro a ha
  have hok : d.result = .ok a := (d.andThen_result _).symm.trans ha
  obtain ⟨hreads, hhits⟩ := hd a hok
  show (d.andThen [.compute]).acts.count .compute = n + 1 ∧
    (d.andThen [.compute]).acts.count .reuse = k
  rw [andThen_of_ok _ hok]
  simp [hreads, hhits]

theorem Costs.readTwice {d : Draft String} (hd : d.Costs n k) :
    (Rendition.readTwice d).Costs (n + 1) (k + 1) := by
  intro pair hpair
  replace hpair : d.result.map _ = .ok pair := hpair
  show (d.andThen [.compute, .reuse]).acts.count .compute = n + 1 ∧
    (d.andThen [.compute, .reuse]).acts.count .reuse = k + 1
  cases hok : d.result with
  | error e =>
    rw [hok] at hpair
    cases hpair
  | ok a =>
    obtain ⟨hreads, hhits⟩ := hd a hok
    rw [andThen_of_ok _ hok]
    simp [hreads, hhits]

theorem costs_given (x : Except RenderError α) : (given x : Draft α).Costs 0 0 := by
  cases x with
  | error e => exact costs_fail e
  | ok a => exact costs_pure a

theorem Costs.both {d e : Draft Sketch} (hd : d.Costs n k) (he : e.Costs n' k') :
    (Rendition.both d e).Costs (n + n') (k + k') :=
  hd.bind fun _ => he.map

theorem Costs.wrap {d : Draft Sketch} (before after : String) (hd : d.Costs n k) :
    (Rendition.wrap before d after).Costs n k :=
  (((costs_text before).both hd).both (costs_text after)).of_eq (by omega) (by omega)

theorem costs_all {γ : Type} {f : γ → Draft α} {cost : γ → Nat} {xs : List γ}
    (h : ∀ x ∈ xs, (f x).Costs (cost x) 0) : (all (xs.map f)).Costs (xs.map cost).sum 0 := by
  induction xs with
  | nil => exact costs_pure []
  | cons x rest ih =>
    rw [List.forall_mem_cons] at h
    exact h.1.bind fun _ => (ih h.2).map

theorem costs_lines {γ : Type} {f : γ → Draft Sketch} {cost hits : γ → Nat} {xs : List γ}
    (h : ∀ x ∈ xs, (f x).Costs (cost x) (hits x)) :
    (lines (xs.map f)).Costs (xs.map cost).sum (xs.map hits).sum := by
  induction xs with
  | nil => exact costs_text ""
  | cons x rest ih =>
    rw [List.forall_mem_cons] at h
    cases rest with
    | nil => exact h.1.of_eq (by simp) (by simp)
    | cons next rest => exact (h.1.wrap "" ";\n").both (ih h.2)

end Draft

/-! ### The rules for expressions -/

theorem Params.dealt_map {ε φ : Type} (f : ε → φ) (params : Params ε) :
    (params.map f).dealt = params.dealt.map f := by
  simp [dealt, Params.map, positional, List.map_take]

/-- The default of the `i`-th positional parameter. -/
def Params.default? {ε : Type} (params : Params ε) (i : Nat) : Option ε :=
  (params.defaultIndex? i).bind (params.defaults[·]?)

/-- Parameters without a default come first, the others take the defaults in order. -/
theorem Params.defaults_dealt {ε : Type} (params : Params ε) :
    (List.range params.positional.length).map params.default? =
      List.replicate (params.positional.length - params.defaults.length) none ++
        params.dealt.map some := by
  have hlength : (params.positional.length - params.defaults.length) +
      min params.positional.length params.defaults.length = params.positional.length := by
    omega
  refine List.ext_getElem (by simp [dealt, hlength]) fun i hi _ => ?_
  rw [List.length_map, List.length_range] at hi
  rw [List.getElem_map, List.getElem_range]
  by_cases hfirst : i < params.positional.length - params.defaults.length
  · rw [List.getElem_append_left (by simpa using hfirst), List.getElem_replicate]
    simp [default?, defaultIndex?, hfirst]
  · rw [List.getElem_append_right (by simpa using hfirst)]
    have hj : i - (params.positional.length - params.defaults.length) < params.defaults.length := by
      omega
    simp [default?, defaultIndex?, hfirst, dealt, List.getElem?_eq_getElem hj]

namespace Draft

theorem costs_param {params : Params Expr} (i : Nat) (param : Param)
    (h : ∀ e ∈ params.defaults, (e.direct : Draft String).Costs e.fieldsRead 0) :
    ((params.map Expr.direct).directParam i param : Draft String).Costs
      ((params.default? i).elim 0 Expr.fieldsRead) 0 := by
  have hindex : (params.map (Expr.direct (M := Draft))).defaultIndex? i = params.defaultIndex? i := by
    simp [Params.defaultIndex?, Params.map, Params.positional]
  rw [Params.directParam, Params.default?, hindex]
  cases params.defaultIndex? i with
  | none => exact costs_pure _
  | some j =>
    have hdefault : (params.map (Expr.direct (M := Draft))).defaults[j]? =
        params.defaults[j]?.map Expr.direct := List.getElem?_map
    simp only [hdefault, Option.bind_some]
    cases hj : params.defaults[j]? with
    | none => exact costs_pure _
    | some e => exact (h e (List.mem_of_getElem? hj)).map

theorem costs_params (params : Params Expr)
    (h : ∀ e ∈ params.defaults, (e.direct : Draft String).Costs e.fieldsRead 0) :
    ((params.map Expr.direct).direct : Draft String).Costs
      (params.map Expr.fieldsRead).dealt.sum 0 := by
  have hall : (all (params.positional.mapIdx (params.map Expr.direct).directParam) :
      Draft (List String)).Costs (params.map Expr.fieldsRead).dealt.sum 0 := by
    rw [List.mapIdx_eq_zipIdx_map]
    refine (costs_all fun x _ => costs_param x.2 x.1 h).of_eq ?_ rfl
    have hindices : params.positional.zipIdx.map (fun x => (params.default? x.2).elim 0
        Expr.fieldsRead) = ((List.range params.positional.length).map params.default?).map
          fun e => e.elim 0 Expr.fieldsRead := by
      rw [List.range_eq_range', ← List.zipIdx_map_snd, List.map_map, List.map_map]
      rfl
    rw [hindices, params.defaults_dealt, params.dealt_map]
    simp [Function.comp_def]
  obtain ⟨loc, posOnly, args, rest, kwOnly, kwRest, defaults⟩ := params
  cases kwOnly with
  | cons param more => exact (costs_fail _).around _
  | nil =>
    cases kwRest with
    | some param => exact (costs_fail _).around _
    | none => exact hall.map

theorem costs_entry {key : Option Expr} {value : Expr}
    (hkey : ∀ e ∈ key, (e.direct : Draft String).Costs e.fieldsRead 0)
    (hvalue : (value.direct : Draft String).Costs value.fieldsRead 0) :
    (ExprForm.directEntry (key.map Expr.direct, value.direct) : Draft String).Costs
      (value.fieldsRead + (key.map Expr.fieldsRead).toList.sum) 0 := by
  rw [ExprForm.directEntry]
  cases key with
  | none => exact hvalue.map
  | some e => exact (hvalue.bind fun _ => (hkey e rfl).map).of_eq (by simp) rfl

end Draft

theorem ExprForm.sum_entries (entries : List (Option Nat × Nat)) :
    (entries.flatMap fun entry => entry.2 :: entry.1.toList).sum =
      (entries.map fun entry => entry.2 + entry.1.toList.sum).sum := by
  induction entries with
  | nil => rfl
  | cons entry rest ih => simp [ih, Nat.add_assoc]

/-- A form costs the fields that its rule reads and what its children in reach cost. -/
theorem ExprForm.draft_costs {form : ExprForm Expr}
    (ih : ∀ e ∈ form.children, (e.direct : Draft String).Costs e.fieldsRead 0) :
    ((form.map Expr.direct).direct : Draft String).Costs
      ((form.map Expr.fieldsRead).fieldsRead + (form.map Expr.fieldsRead).reached.sum) 0 := by
  cases form with
  | boolOp op values =>
    have hvalues := Draft.costs_all ih
    exact hvalues.map.of_eq (by simp [fieldsRead, reached, children, ExprForm.map]) rfl
  | binOp left op right =>
    have hleft := (ih left (by simp [children])).read
    have hright := (ih right (by simp [children])).read
    by_cases hop : op = .floorDiv
    · subst hop
      refine (hleft.bind fun _ => hright.map).of_eq ?_ rfl
      simp only [fieldsRead, reached, children, ExprForm.map, List.sum_cons, List.sum_nil]
      omega
    · have hsign := (Draft.costs_given op.spell).read
      have hown : (ExprForm.binOp left.fieldsRead op right.fieldsRead).fieldsRead = 3 := by
        cases op <;> first | rfl | exact absurd rfl hop
      simp only [ExprForm.map]
      rw [Simulation.direct_binOp hop, hown]
      refine (hleft.bind fun _ => hsign.bind fun _ => hright.map).of_eq ?_ rfl
      simp only [reached, children, List.sum_cons, List.sum_nil]
      omega
  | unaryOp op operand =>
    have hop := (Draft.costs_pure op.spelling).read
    have hoperand := (ih operand (by simp [children])).read
    refine (hop.bind fun _ => hoperand.map).of_eq ?_ rfl
    simp only [fieldsRead, reached, children, ExprForm.map, List.sum_cons, List.sum_nil]
    omega
  | lambda params body =>
    have hparams := Draft.costs_params params fun e he => ih e (by simp [children, he])
    have hbody := (ih body (by simp [children])).read
    refine ((hparams.bind fun _ => hbody.map).inScope _).of_eq ?_ rfl
    simp only [fieldsRead, reached, ExprForm.map, List.sum_append, List.sum_cons, List.sum_nil]
    omega
  | ifExp test body orelse =>
    have htest := (ih test (by simp [children])).read
    have hbody := (ih body (by simp [children])).read
    have horelse := (ih orelse (by simp [children])).read
    refine (htest.bind fun _ => hbody.bind fun _ => horelse.map).of_eq ?_ rfl
    simp only [fieldsRead, reached, children, ExprForm.map, List.sum_cons, List.sum_nil]
    omega
  | dict keys values =>
    have hentries : ∀ entry ∈ keys.zip values,
        (directEntry (entry.1.map Expr.direct, entry.2.direct) : Draft String).Costs
          (entry.2.fieldsRead + (entry.1.map Expr.fieldsRead).toList.sum) 0 := by
      rintro ⟨key, value⟩ hentry
      obtain ⟨hkey, hvalue⟩ := List.of_mem_zip hentry
      refine Draft.costs_entry (fun e he => ih e ?_) (ih value (by simp [children, hvalue]))
      refine List.mem_append_left _ (List.mem_flatMap.mpr ⟨key, hkey, ?_⟩)
      simpa using he
    simp only [ExprForm.map, ExprForm.direct, List.zip_map, List.map_map, fieldsRead, reached]
    refine (Draft.costs_all hentries).map.of_eq ?_ rfl
    rw [sum_entries, List.map_map, Nat.zero_add]
    rfl
  | compare left ops comparators =>
    have hleft := (ih left (by simp [children])).read
    have hothers := Draft.costs_all fun e (he : e ∈ comparators) => ih e (by simp [children, he])
    simp only [ExprForm.map, ExprForm.direct]
    split
    · exact Draft.costs_fail _
    · refine (hleft.bind fun _ => hothers.bind fun _ => (Draft.costs_given _).map).of_eq ?_ rfl
      simp only [fieldsRead, reached, children, List.sum_cons]
      omega
  | call func args keywords =>
    have hfunc := (ih func (by simp [children])).read
    have hargs := (Draft.costs_all fun e (he : e ∈ args) => ih e (by simp [children, he])).map
      (f := ", ".intercalate)
    cases keywords with
    | cons keyword rest => exact (Draft.costs_fail _).around _
    | nil =>
      refine (hfunc.bind fun _ => hargs.read.map).of_eq ?_ rfl
      simp [fieldsRead, reached, children, ExprForm.map]
      omega
  | constant value => exact Draft.costs_pure _
  | «attribute» value attr =>
    have hvalue := (ih value (by simp [children])).read
    have hattr := (Draft.costs_pure attr).read
    refine (hvalue.bind fun _ => hattr.map).of_eq ?_ rfl
    simp only [fieldsRead, reached, children, ExprForm.map, List.sum_cons, List.sum_nil]
    omega
  | subscript value index =>
    have hvalue := (ih value (by simp [children])).read
    have hindex := (ih index (by simp [children])).read
    refine (hvalue.bind fun _ => hindex.map).of_eq ?_ rfl
    simp only [fieldsRead, reached, children, ExprForm.map, List.sum_cons, List.sum_nil]
    omega
  | name id => exact (Draft.costs_pure id).read
  | list elts =>
    have helts := (Draft.costs_all ih).map (f := ", ".intercalate)
    refine helts.read.map.of_eq ?_ rfl
    simp only [fieldsRead, reached, children, ExprForm.map]
    omega
  | starred value =>
    have hvalue := (ih value (by simp [children])).read
    refine hvalue.map.of_eq ?_ rfl
    simp only [fieldsRead, reached, children, ExprForm.map, List.sum_cons, List.sum_nil]
    omega
  | _ => exact Draft.costs_fail _

theorem Expr.draft_costs (e : Expr) : (e.direct : Draft String).Costs e.fieldsRead 0 := by
  induction e with
  | mk l form ih =>
    rw [Expr.direct_mk, Expr.fieldsRead_mk]
    exact (ExprForm.draft_costs ih).around l

/-! ### The rules for statements -/

theorem Draft.costs_optional (e : Option Expr) :
    (optional (e.map Expr.direct) : Draft String).Costs (e.toList.map Expr.fieldsRead).sum 0 := by
  cases e with
  | none => exact costs_pure _
  | some e => exact e.draft_costs.of_eq (by simp) rfl

theorem StmtForm.draft_costs {form : StmtForm Stmt Expr}
    (ih : ∀ s ∈ form.children, (s.direct : Draft Sketch).Costs s.fieldsRead s.floorDivs) :
    ((form.map fun s => (s.loc, (s.direct : Draft Sketch))).direct).Costs
      ((form.map Stmt.fieldsRead).fieldsRead +
        ((form.map Stmt.fieldsRead).rendered.map Expr.fieldsRead).sum +
          (form.map Stmt.fieldsRead).children.sum)
      ((form.map Stmt.floorDivs).floorDivs + (form.map Stmt.floorDivs).children.sum) := by
  have hblock : ∀ ss : List Stmt, (∀ s ∈ ss, s ∈ form.children) →
      (read (lines ((ss.map fun s => (s.loc, (s.direct : Draft Sketch))).map Prod.snd))).Costs
        ((ss.map Stmt.fieldsRead).sum + 1) (ss.map Stmt.floorDivs).sum := by
    intro ss hss
    rw [List.map_map]
    exact (Draft.costs_lines fun s hs => ih s (hss s hs)).read
  have hexprs := fun es : List Expr => Draft.costs_all fun e (_ : e ∈ es) => e.draft_costs
  cases form with
  | functionDef name params body decorators =>
    have hname := (Draft.costs_pure name).read
    have hparams := Draft.costs_params params fun e _ => e.draft_costs
    have hbody := hblock body fun s hs => hs
    cases decorators with
    | cons decorator rest => exact (Draft.costs_fail _).around _
    | nil =>
      refine (hname.bind fun _ => (hparams.bind fun _ => hbody.wrap _ _).inScope _).of_eq ?_ ?_
      · rw [params.dealt_map]
        simp [StmtForm.map, fieldsRead, rendered, reached, children]
        omega
      · simp [StmtForm.map, floorDivs, children]
  | ret value =>
    refine (Draft.costs_optional value).read.thenText.of_eq ?_ rfl
    simp only [StmtForm.map, fieldsRead, rendered, reached, exprs, children, List.sum_nil]
    omega
  | delete targets =>
    refine (hexprs targets).thenText.of_eq ?_ rfl
    simp only [StmtForm.map, fieldsRead, rendered, reached, exprs, children, List.sum_nil]
    omega
  | assign targets value =>
    have hvalue := value.draft_costs.read
    have htargets : ∀ v : String, (lines (targets.map fun target => do
        let name ← target.direct
        Rendition.assign name v : List (Draft Sketch))).Costs
          (targets.map Expr.fieldsRead).sum (targets.map fun _ => 0).sum :=
      fun v => Draft.costs_lines fun target _ =>
        target.draft_costs.bind fun name => Draft.costs_assign name v
    refine (hvalue.bind htargets).of_eq ?_ ?_
    · simp [StmtForm.map, fieldsRead, rendered, reached, exprs, children]
      omega
    · simp [StmtForm.map, floorDivs, children]
  | augAssign target op value =>
    have htarget := target.draft_costs
    have hvalue := value.draft_costs.read
    by_cases hop : op = .floorDiv
    · subst hop
      refine (htarget.readTwice.bind fun _ => hvalue.thenText).of_eq ?_ rfl
      simp only [StmtForm.map, fieldsRead, rendered, reached, exprs, children, List.map_cons,
        List.map_nil, List.sum_cons, List.sum_nil]
      omega
    · have hsign := (Draft.costs_given op.spell).read
      have hown : (StmtForm.augAssign target op value : StmtForm Nat Expr).fieldsRead = 3 ∧
          (StmtForm.augAssign target op value : StmtForm Nat Expr).floorDivs = 0 := by
        cases op <;> first | exact ⟨rfl, rfl⟩ | exact absurd rfl hop
      simp only [StmtForm.map]
      rw [Simulation.direct_augAssign hop, hown.1, hown.2]
      refine (htarget.read.bind fun _ => hsign.bind fun _ => hvalue.thenText).of_eq ?_ rfl
      simp only [rendered, reached, exprs, children, List.map_cons, List.map_nil, List.sum_cons,
        List.sum_nil]
      omega
  | forLoop target iter body orelse =>
    have hiter := iter.draft_costs.read
    have hbody := hblock body fun s hs => by simp [children, hs]
    cases orelse with
    | cons stmt rest => exact (Draft.costs_fail _).around _
    | nil =>
      obtain ⟨loc, form⟩ := target
      cases form with
      | name id =>
        refine (hiter.bind fun _ => (hbody.wrap _ _).inScope _).of_eq ?_ ?_
        · simp [StmtForm.map, fieldsRead, rendered, children]
          omega
        · simp [StmtForm.map, floorDivs, children]
      | _ => exact (Draft.costs_fail _).around _
  | whileLoop test body orelse =>
    have htest := test.draft_costs.read
    have hbody := hblock body fun s hs => by simp [children, hs]
    cases orelse with
    | cons stmt rest => exact (Draft.costs_fail _).around _
    | nil =>
      refine (htest.bind fun _ => hbody.wrap _ _).of_eq ?_ ?_
      · simp [StmtForm.map, fieldsRead, rendered, reached, exprs, children]
        omega
      · simp [StmtForm.map, floorDivs, children]
  | cond test body orelse =>
    have htest := test.draft_costs.read
    have hbody := hblock body fun s hs => by simp [children, hs]
    have horelse := hblock orelse fun s hs => by simp [children, hs]
    refine (htest.bind fun _ => (hbody.wrap _ _).both (horelse.wrap _ _)).of_eq ?_ ?_
    · simp [StmtForm.map, fieldsRead, rendered, reached, exprs, children]
      omega
    · simp [StmtForm.map, floorDivs, children]
  | raise exc cause =>
    cases cause with
    | some cause => exact (Draft.costs_fail _).around _
    | none =>
      refine (Draft.costs_optional exc).read.thenText.of_eq ?_ rfl
      simp [StmtForm.map, fieldsRead, rendered, reached, exprs, children]
      omega
  | expr value =>
    refine value.draft_costs.read.thenText.of_eq ?_ rfl
    simp only [StmtForm.map, fieldsRead, rendered, reached, exprs, children, List.map_cons,
      List.map_nil, List.sum_cons, List.sum_nil]
    omega
  | pass => exact Draft.costs_text _
  | breakLoop => exact Draft.costs_text _
  | continueLoop => exact Draft.costs_text _
  | _ => exact Draft.costs_fail _

theorem Stmt.draft_costs (s : Stmt) :
    (s.direct : Draft Sketch).Costs s.fieldsRead s.floorDivs := by
  induction s with
  | mk l form ih =>
    rw [Stmt.direct_mk, Stmt.fieldsRead_mk, Stmt.floorDivs_mk]
    exact (StmtForm.draft_costs ih).around l

/-! ### Passes -/

/-- **What a pass stores and finds again.**  However a pass ends, each key has one text and as many
    texts were stored as there are.  If it succeeds, then a text was found again once per floor
    division in place, and one was stored for each field that a rendered node reads. -/
theorem pass_counts (keyOf : Place → κ) (r : Renderer κ) (stmts : List Stmt)
    (hkeys : Set.InjOn keyOf (nodesOf stmts)) :
    let o := Renderer.renderStmts keyOf stmts r
    o.renderer.stats.computed = o.renderer.cache.size ∧
    (o.renderer.cache.entries.map Prod.fst).Nodup ∧
    ∀ text, o.result = .ok text →
      o.renderer.stats.hits = (stmts.map Stmt.floorDivs).sum ∧
      o.renderer.stats.computed = (stmts.map Stmt.fieldsRead).sum := by
  intro o
  obtain ⟨hcomputed, hnodup⟩ := balanced_pass keyOf hkeys r
  refine ⟨hcomputed, hnodup, ?_⟩
  intro text htext
  have hperforms := performs_pass keyOf hkeys r
  have hcosts : (Draft.ofStmts stmts).Costs _ _ :=
    Draft.costs_lines fun s (_ : s ∈ stmts) => s.draft_costs
  obtain ⟨sketch, hsketch⟩ : (Draft.ofStmts stmts).Succeeds := by
    cases hd : (Draft.ofStmts stmts).result with
    | error err => cases htext.symm.trans (hperforms.result_of_error hd)
    | ok sketch => exact ⟨sketch, hd⟩
  obtain ⟨hreads, hhits⟩ := hcosts sketch hsketch
  rw [hperforms.stats, statsAfter, hreads, hhits]
  exact ⟨Nat.zero_add _, Nat.zero_add _⟩

/-- `x //= y + null` -/
def floorDivSum : List Stmt :=
  [⟨.synthetic, .augAssign ⟨.synthetic, .name "x"⟩ .floorDiv
    ⟨.synthetic, .binOp ⟨.synthetic, .name "y"⟩ .add ⟨.synthetic, .constant .null⟩⟩⟩]

theorem pass_counts_floorDivSum :
    Set.InjOn id (nodesOf floorDivSum) ∧
    (Renderer.renderStmts id floorDivSum Renderer.new).result =
      .ok "x = Math.floor(x / (y + null))" ∧
    (Renderer.renderStmts id floorDivSum Renderer.new).renderer.stats.hits = 1 ∧
    (Renderer.renderStmts id floorDivSum Renderer.new).renderer.stats.computed = 7 ∧
    (Renderer.renderStmts id floorDivSum Renderer.new).renderer.cache.size = 7 := by
  have hkeys : Set.InjOn id (nodesOf floorDivSum) := Set.injOn_id _
  have htext : (Renderer.renderStmts id floorDivSum Renderer.new).result =
      .ok "x = Math.floor(x / (y + null))" := rfl
  obtain ⟨hsize, -, hcounts⟩ := pass_counts id Renderer.new floorDivSum hkeys
  obtain ⟨hhits, hcomputed⟩ := hcounts _ htext
  exact ⟨hkeys, htext, hhits, hcomputed, hsize.symm.trans hcomputed⟩

end ScriptTree
