/-
  ScriptTree/Proofs/CacheTransparency.lean
  ========================================
  **The cache does not show.**  The plain renderer (`Plain`) follows the rules with nothing but a
  stack of scopes: a field is rendered again each time it is read.  Rendering with a cache gives the
  same text or the same error and leaves the same scopes, whatever an earlier pass has left in the
  cache, as long as the nodes of the tree have different keys.

  The one field that is read twice in a row is the target of `//=`.  Its second text comes from the
  cache; it is the first text again because rendering an expression leaves the scopes as they were,
  which is the part of the invariant that only expressions have.
-/
import ScriptTree.Proofs.ScopeLaws
import ScriptTree.Proofs.Slots

namespace ScriptTree

/-! ### The plain renderer -/

/-- An action that has scopes and no cache.  The scopes are known also when it fails. -/
def Plain (α : Type) := ScopeStack → Except RenderError α × ScopeStack

namespace Plain

variable {α β : Type}

instance : Monad Plain where
  pure a := fun s => (.ok a, s)
  bind m f := fun s =>
    match m s with
    | (.error e, s') => (.error e, s')
    | (.ok a, s') => f a s'

instance : Rendition Plain String where
  fail e := fun s => (.error e, s)
  around l m := fun s => ((m s).1.mapError fun e => e.around l, (m s).2)
  inScope names m := fun s =>
    let (result, left) := m (s.enter.declare names)
    (result, left.exit)
  read m := m
  readTwice m := do
    let first ← m
    let second ← m
    return (first, second)
  text t := pure t
  both m n := do
    let a ← m
    let b ← n
    return a ++ b
  assign name value := fun s =>
    if isReference name || s.contains name then (.ok (name ++ " = " ++ value), s)
    else (.ok ("var " ++ name ++ " = " ++ value), s.declare [name])

def renderStmts (stmts : List Stmt) : Plain String := directAll stmts

def renderExpr (e : Expr) : Plain String := e.direct

/-- What an action makes of a stack of scopes. -/
def run (d : Plain α) (s : ScopeStack) : Except RenderError α × ScopeStack := d s

/-- An action that ends with the scopes it started from. -/
def KeepsScopes (d : Plain α) : Prop := ∀ s, (d.run s).2 = s

variable {d : Plain α} {g : α → Plain β} {s s' : ScopeStack}

theorem run_bind (d : Plain α) (g : α → Plain β) (s : ScopeStack) :
    (d >>= g).run s =
      match d.run s with
      | (Except.error e, s') => (Except.error e, s')
      | (Except.ok a, s') => (g a).run s' := rfl

theorem run_bind_of_error {e : RenderError} (h : d.run s = (.error e, s')) :
    (d >>= g).run s = (.error e, s') := by
  rw [run_bind, h]

theorem run_bind_of_ok {a : α} (h : d.run s = (.ok a, s')) : (d >>= g).run s = (g a).run s' := by
  rw [run_bind, h]

theorem run_around (l : Loc) (d : Plain α) (s : ScopeStack) :
    (run (Rendition.around l d) s) = ((d.run s).1.mapError fun e => e.around l, (d.run s).2) := rfl

theorem run_inScope (names : List String) (d : Plain α) (s : ScopeStack) :
    run (Rendition.inScope names d) s =
      ((d.run (s.enter.declare names)).1, (d.run (s.enter.declare names)).2.exit) := rfl

theorem run_readTwice_of_error {d : Plain String} {e : RenderError} (h : d.run s = (.error e, s')) :
    run (Rendition.readTwice d) s = (.error e, s') :=
  run_bind_of_error h

theorem run_readTwice_of_ok {d : Plain String} {text : String} (h : d.run s = (.ok text, s)) :
    run (Rendition.readTwice d) s = (.ok (text, text), s) :=
  (run_bind_of_ok h).trans (run_bind_of_ok h)

theorem KeepsScopes.bind (hd : d.KeepsScopes) (hg : ∀ a, (g a).KeepsScopes) :
    (d >>= g).KeepsScopes := by
  intro s
  have hs := hd s
  rw [run_bind]
  split
  · rename_i e s' heq
    rw [heq] at hs
    exact hs
  · rename_i a s' heq
    rw [heq] at hs
    rw [hg a s']
    exact hs

theorem KeepsScopes.around (hd : d.KeepsScopes) (l : Loc) :
    KeepsScopes (Rendition.around l d) := hd

theorem KeepsScopes.inScope (hd : d.KeepsScopes) (names : List String) :
    KeepsScopes (Rendition.inScope names d) := by
  intro s
  rw [run_inScope, hd]
  exact s.exit_declare_enter names

theorem KeepsScopes.readTwice {d : Plain String} (hd : d.KeepsScopes) :
    KeepsScopes (Rendition.readTwice d) :=
  hd.bind fun _ => hd.bind fun _ _ => rfl

end Plain

/-! ### Actions that agree -/

section Agreement

variable {κ : Type} [DecidableEq κ] {α β : Type} (keyOf : Place → κ) (nodes : Set Place)

/-- From a renderer in which the slots are fresh, an action ends like the plain one, and it stores
    texts for these slots only. -/
def Agrees (S : Set Slot) (m : Render κ α) (d : Plain α) : Prop :=
  ∀ r : Renderer κ, Fresh keyOf nodes S r.cache →
    d.run r.scopes = ((m r).result, (m r).renderer.scopes) ∧
    Untouched keyOf nodes S r.cache (m r).renderer.cache

variable {keyOf nodes} {S S' : Set Slot} {m : Render κ α} {d : Plain α}

theorem Agrees.mono (hS : S ⊆ S') (h : Agrees keyOf nodes S m d) : Agrees keyOf nodes S' m d := by
  intro r hfresh
  obtain ⟨hsame, hkept⟩ := h r (hfresh.mono hS)
  exact ⟨hsame, hkept.mono hS⟩

theorem agrees_pure (a : α) : Agrees keyOf nodes ∅ (pure a) (pure a) :=
  fun _ _ => ⟨rfl, Untouched.refl⟩

theorem agrees_fail (e : RenderError) :
    Agrees keyOf nodes ∅ (Render.fail e : Render κ α) (Rendition.fail e) :=
  fun _ _ => ⟨rfl, Untouched.refl⟩

theorem Agrees.bind {f : α → Render κ β} {g : α → Plain β} (hdisjoint : Disjoint S S')
    (hm : Agrees keyOf nodes S m d) (hf : ∀ a, Agrees keyOf nodes S' (f a) (g a)) :
    Agrees keyOf nodes (S ∪ S') (m >>= f) (d >>= g) := by
  intro r hfresh
  obtain ⟨hsame, hkept⟩ := hm r (hfresh.mono Set.subset_union_left)
  cases hresult : (m r).result with
  | error e =>
    rw [hresult] at hsame
    rw [Render.bind_of_error hresult, Plain.run_bind_of_error hsame]
    exact ⟨rfl, hkept.mono Set.subset_union_left⟩
  | ok a =>
    rw [hresult] at hsame
    rw [Render.bind_of_ok hresult, Plain.run_bind_of_ok hsame]
    have hfresh' := hkept.fresh hdisjoint (hfresh.mono Set.subset_union_right)
    obtain ⟨hsame', hkept'⟩ := hf a (m r).renderer hfresh'
    exact ⟨hsame', hkept.trans hkept'⟩

theorem Agrees.around (l : Loc) (h : Agrees keyOf nodes S m d) :
    Agrees keyOf nodes S (Render.around l m) (Rendition.around l d) := by
  intro r hfresh
  obtain ⟨hsame, hkept⟩ := h r hfresh
  rw [Plain.run_around, hsame]
  exact ⟨rfl, hkept⟩

theorem Agrees.inScope (names : List String) (h : Agrees keyOf nodes S m d) :
    Agrees keyOf nodes S (Render.inScope names m) (Rendition.inScope names d) := by
  intro r hfresh
  obtain ⟨hsame, hkept⟩ := h ⟨r.scopes.enter.declare names, r.cache⟩ hfresh
  rw [Plain.run_inScope, hsame]
  exact ⟨rfl, hkept⟩

theorem agrees_assign (name value : String) :
    Agrees keyOf nodes ∅ (assignTo value (pure name)) (Rendition.assign name value) := by
  intro r _
  have hplain : Plain.run (Rendition.assign name value) r.scopes =
      if isReference name || r.scopes.contains name then (.ok (name ++ " = " ++ value), r.scopes)
      else (.ok ("var " ++ name ++ " = " ++ value), r.scopes.declare [name]) := rfl
  rw [hplain, assignTo_apply]
  split
  · exact ⟨rfl, Untouched.refl⟩
  · exact ⟨rfl, Untouched.refl⟩

/-! ### Fields -/

section Fields

variable {site : Site κ} {p : Place} {f : Field} {d : Plain String}
  {v : FieldValue (Render κ String) (Render κ String)}

theorem Agrees.attr (hinj : Set.InjOn keyOf nodes) (hp : p ∈ nodes) (hkey : site.key = keyOf p)
    (hv : site.fields.lookup f = some v) (hnot : ⟨p, f, .rendered⟩ ∉ S)
    (h : Agrees keyOf nodes S v.render d) :
    Agrees keyOf nodes (insert ⟨p, f, .rendered⟩ S) (site.attr f) (Rendition.read d) := by
  intro r hfresh
  obtain ⟨hsame, hkept⟩ := h r (hfresh.mono (Set.subset_insert _ _))
  rw [Site.attr_of_fresh hp hkey hv hnot hfresh hkept]
  refine ⟨?_, Site.untouched_attr hinj hp hkey hkept⟩
  rw [Outcome.stored_result, Outcome.stored_scopes]
  exact hsame

theorem agrees_rawAttr {t : String} (hinj : Set.InjOn keyOf nodes) (hp : p ∈ nodes)
    (hkey : site.key = keyOf p) (hv : site.fields.lookup f = some (.ident t)) :
    Agrees keyOf nodes {⟨p, f, .raw⟩} (site.rawAttr f) (Rendition.read (pure t)) := by
  intro r hfresh
  rw [Site.rawAttr_of_fresh hp hkey hv hfresh]
  exact ⟨rfl, Outcome.untouched_stored ⟨.ok t, r, []⟩ hinj hp⟩

/-- Reading a field once more finds its text.  The plain action renders it once more, from the same
    scopes. -/
theorem Agrees.attrTwice (hinj : Set.InjOn keyOf nodes) (hp : p ∈ nodes)
    (hkey : site.key = keyOf p) (hv : site.fields.lookup f = some v)
    (hnot : ⟨p, f, .rendered⟩ ∉ S) (h : Agrees keyOf nodes S v.render d) (hkeeps : d.KeepsScopes) :
    Agrees keyOf nodes (insert ⟨p, f, .rendered⟩ S)
      (do
        let first ← site.attr f
        let second ← site.attr f
        return (first, second))
      (Rendition.readTwice d) := by
  intro r hfresh
  obtain ⟨-, hinner⟩ := h r (hfresh.mono (Set.subset_insert _ _))
  have hattr := Site.attr_of_fresh hp hkey hv hnot hfresh hinner
  obtain ⟨hsame, hkept⟩ := h.attr hinj hp hkey hv hnot r hfresh
  replace hsame : d.run r.scopes = _ := hsame
  have hstay : (site.attr f r).renderer.scopes = r.scopes := by
    have hd := hkeeps r.scopes
    rwa [hsame] at hd
  cases hresult : (site.attr f r).result with
  | error e =>
    rw [hresult] at hsame
    rw [Render.bind_of_error hresult, Plain.run_readTwice_of_error hsame]
    exact ⟨rfl, hkept⟩
  | ok text =>
    have hfound := Site.get?_of_attr hattr hresult
    rw [hresult, hstay] at hsame
    rw [Site.attrTwice_of_ok hresult hfound, Plain.run_readTwice_of_ok hsame]
    exact ⟨by rw [hstay], hkept⟩

end Fields

/-- The renderer agrees with the plain one.  On expressions the plain one also keeps the scopes. -/
def transparency (keyOf : Place → κ) (nodes : Set Place) (hinj : Set.InjOn keyOf nodes) :
    Simulation keyOf Plain String where
  nodes := nodes
  expr S m d := Agrees keyOf nodes S m d ∧ d.KeepsScopes
  stmt S m d := Agrees keyOf nodes S m d
  expr_mono hS h := ⟨h.1.mono hS, h.2⟩
  expr_pure a := ⟨agrees_pure a, fun _ => rfl⟩
  expr_fail e := ⟨agrees_fail e, fun _ => rfl⟩
  expr_bind hdisjoint hm hf :=
    ⟨hm.1.bind hdisjoint fun a => (hf a).1, hm.2.bind fun a => (hf a).2⟩
  expr_around l h := ⟨h.1.around l, h.2.around l⟩
  expr_inScope names h := ⟨h.1.inScope names, h.2.inScope names⟩
  expr_attr hp hkey hv hnot h := ⟨h.1.attr hinj hp hkey hv hnot, h.2⟩
  expr_rawAttr hp hkey hv := ⟨agrees_rawAttr hinj hp hkey hv, fun _ => rfl⟩
  expr_attrTwice hp hkey hv hnot h := ⟨h.1.attrTwice hinj hp hkey hv hnot h.2, h.2.readTwice⟩
  stmt_mono hS h := h.mono hS
  stmt_text t := agrees_pure t
  stmt_fail e := agrees_fail e
  stmt_both hdisjoint hm hn := by
    refine (hm.bind (Set.disjoint_union_right.mpr ⟨hdisjoint, Set.disjoint_empty _⟩) fun a =>
      hn.bind (Set.disjoint_empty _) fun b => agrees_pure (a ++ b)).mono ?_
    rw [Set.union_empty]
  stmt_bind hdisjoint hm hf := hm.1.bind hdisjoint hf
  stmt_around l h := h.around l
  stmt_inScope names h := h.inScope names
  stmt_attr hp hkey hv hnot h := h.attr hinj hp hkey hv hnot
  stmt_assign name value := agrees_assign name value

end Agreement

/-! ### Passes -/

variable {κ : Type} [DecidableEq κ]

/-- **The cache is transparent.**  Take a tree whose nodes have different keys.  From any scopes, and
    with any texts left in the cache, a pass over it has the result of the plain renderer, which has
    no cache, and leaves the scopes that the plain renderer leaves. -/
theorem pass_eq_plain (keyOf : Place → κ) (r : Renderer κ) :
    (∀ stmts : List Stmt, Set.InjOn keyOf (nodesOf stmts) →
      ((Renderer.renderStmts keyOf stmts r).result,
        (Renderer.renderStmts keyOf stmts r).renderer.scopes) =
      (Plain.renderStmts stmts).run r.scopes) ∧
    (∀ e : Expr, Set.InjOn keyOf (e.nodes []) →
      ((Renderer.renderExpr keyOf e r).result,
        (Renderer.renderExpr keyOf e r).renderer.scopes) =
      (Plain.renderExpr e).run r.scopes) := by
  constructor
  · intro stmts hinj
    have hall := (transparency keyOf (nodesOf stmts) hinj).render_all stmts subset_rfl
    exact (hall r.startPass fresh_empty).1.symm
  · intro e hinj
    have hexpr := (transparency keyOf (e.nodes []) hinj).render_expr e [] subset_rfl
    exact (hexpr.1 r.startPass fresh_empty).1.symm

/-- `x //= null`, whose target is read twice. -/
def halving : List Stmt :=
  [⟨.synthetic, .augAssign ⟨.synthetic, .name "x"⟩ .floorDiv ⟨.synthetic, .constant .null⟩⟩]

/-- A renderer that still holds another text for that target. -/
def staleRenderer : Renderer Place :=
  ⟨.new, ⟨[(⟨[.field .body 0], .target, .rendered⟩, "y")], ⟨1, 0⟩⟩⟩

theorem pass_eq_plain_halving :
    Set.InjOn id (nodesOf halving) ∧
    ((Renderer.renderStmts id halving staleRenderer).result,
        (Renderer.renderStmts id halving staleRenderer).renderer.scopes) =
      (Plain.renderStmts halving).run staleRenderer.scopes ∧
    (Plain.renderStmts halving).run staleRenderer.scopes =
      (.ok "x = Math.floor(x / null)", .new) ∧
    ((Renderer.renderExpr id ⟨.synthetic, .name "x"⟩ staleRenderer).result,
        (Renderer.renderExpr id ⟨.synthetic, .name "x"⟩ staleRenderer).renderer.scopes) =
      (Plain.renderExpr ⟨.synthetic, .name "x"⟩).run staleRenderer.scopes :=
  ⟨Set.injOn_id _, (pass_eq_plain id staleRenderer).1 halving (Set.injOn_id _), rfl,
    (pass_eq_plain id staleRenderer).2 ⟨.synthetic, .name "x"⟩ (Set.injOn_id _)⟩

end ScriptTree
