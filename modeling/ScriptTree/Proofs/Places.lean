/-
  ScriptTree/Proofs/Places.lean
  =============================
  **Where the nodes of a tree are.**  Every child that a rule can render is one step away from its
  node; a tree at a place has its nodes at the places that such steps lead to.  The cache keeps
  texts in *slots*: a place, the field read there and the way it was read.  What is stored while a
  node is rendered goes to slots at or below its place, and different children never share one.
-/
import Mathlib.Data.Set.Lattice
import Mathlib.Order.CompletePartialOrder
import ScriptTree.Proofs.ActionLaws

namespace ScriptTree

/-! ### Steps to the children -/

section Steps

variable {σ ε : Type}

/-- The expressions in a field, each with the step that leads to it. -/
def FieldValue.exprSteps (f : Field) : FieldValue σ ε → List (Step × ε)
  | .expr e => [(.field f 0, e)]
  | .optExpr e => e.toList.map fun e => (.field f 0, e)
  | .exprs es => es.mapIdx fun i e => (.field f i, e)
  | .stmts _ | .ident _ | .boolOp _ | .binaryOp _ | .unaryOp _ => []

/-- The statements in a field, each with the step that leads to it. -/
def FieldValue.stmtSteps (f : Field) : FieldValue σ ε → List (Step × σ)
  | .stmts ss => ss.mapIdx fun i s => (.field f i, s)
  | .expr _ | .optExpr _ | .exprs _ | .ident _ | .boolOp _ | .binaryOp _ | .unaryOp _ => []

/-- The defaults of a parameter list, each with the step that leads to it. -/
def Params.steps (params : Params ε) : List (Step × ε) :=
  params.defaults.mapIdx fun i e => (.default i, e)

/-- The keys of a dictionary, each with the step that leads to it. -/
def keySteps (keys : List (Option ε)) : List (Step × ε) :=
  (keys.mapIdx fun i key => key.toList.map fun e => (Step.key i, e)).flatten

/-- The children of a form that have a place, each with the step that leads to it. -/
def ExprForm.steps (form : ExprForm ε) : List (Step × ε) :=
  ((form.table? (σ := Empty)).getD []).flatMap (fun entry => entry.2.exprSteps entry.1) ++
    match form with
    | .lambda params _ => params.steps
    | .dict keys _ => keySteps keys
    | _ => []

/-- The expressions of a form that have a place, each with the step that leads to it. -/
def StmtForm.exprSteps (form : StmtForm σ ε) : List (Step × ε) :=
  (form.table?.getD []).flatMap (fun entry => entry.2.exprSteps entry.1) ++
    match form with
    | .functionDef _ params _ _ => params.steps
    | _ => []

/-- The statements of a form that have a place, each with the step that leads to it. -/
def StmtForm.stmtSteps (form : StmtForm σ ε) : List (Step × σ) :=
  (form.table?.getD []).flatMap fun entry => entry.2.stmtSteps entry.1

theorem Params.step_mem {params : Params ε} {i : Nat} {e : ε} (h : params.defaults[i]? = some e) :
    (.default i, e) ∈ params.steps := by
  obtain ⟨hi, rfl⟩ := List.getElem?_eq_some_iff.mp h
  exact List.mem_mapIdx.mpr ⟨i, hi, rfl⟩

theorem keyStep_mem {keys : List (Option ε)} {i : Nat} {e : ε} (h : keys[i]? = some (some e)) :
    (.key i, e) ∈ keySteps keys := by
  obtain ⟨hi, hkey⟩ := List.getElem?_eq_some_iff.mp h
  refine List.mem_flatten.mpr ⟨_, List.mem_mapIdx.mpr ⟨i, hi, rfl⟩, ?_⟩
  simp [hkey]

theorem FieldValue.exprStep_mem {f : Field} {es : List ε} {i : Nat} {e : ε} (h : es[i]? = some e) :
    (.field f i, e) ∈ (FieldValue.exprs es : FieldValue σ ε).exprSteps f := by
  obtain ⟨hi, rfl⟩ := List.getElem?_eq_some_iff.mp h
  exact List.mem_mapIdx.mpr ⟨i, hi, rfl⟩

theorem FieldValue.stmtStep_mem {f : Field} {ss : List σ} {i : Nat} {s : σ} (h : ss[i]? = some s) :
    (.field f i, s) ∈ (FieldValue.stmts ss : FieldValue σ ε).stmtSteps f := by
  obtain ⟨hi, rfl⟩ := List.getElem?_eq_some_iff.mp h
  exact List.mem_mapIdx.mpr ⟨i, hi, rfl⟩

theorem ExprForm.mem_steps_of_table {form : ExprForm ε} {f : Field} {v : FieldValue Empty ε}
    {x : Step × ε} (hv : (f, v) ∈ form.table?.getD []) (hx : x ∈ v.exprSteps f) :
    x ∈ form.steps :=
  List.mem_append_left _ (List.mem_flatMap.mpr ⟨(f, v), hv, hx⟩)

/-- What a step leads to is a child. -/
theorem ExprForm.mem_children_of_step {form : ExprForm ε} {s : Step} {c : ε}
    (h : (s, c) ∈ form.steps) : c ∈ form.children := by
  cases form <;>
    simp only [steps, table?, FieldValue.exprSteps, Params.steps, keySteps, children,
      Option.getD_some, Option.getD_none, List.flatMap_cons, List.flatMap_nil, List.append_nil,
      List.nil_append, List.mem_append, List.mem_cons, List.mem_mapIdx, List.mem_flatten,
      List.mem_flatMap, List.mem_map, List.not_mem_nil, Option.mem_toList, Prod.mk.injEq,
      or_false] at h ⊢
  all_goals grind

theorem StmtForm.mem_exprSteps_of_table {form : StmtForm σ ε} {f : Field} {v : FieldValue σ ε}
    {x : Step × ε} (hv : (f, v) ∈ form.table?.getD []) (hx : x ∈ v.exprSteps f) :
    x ∈ form.exprSteps :=
  List.mem_append_left _ (List.mem_flatMap.mpr ⟨(f, v), hv, hx⟩)

theorem StmtForm.mem_children_of_step {form : StmtForm σ ε} {s : Step} {c : σ}
    (h : (s, c) ∈ form.stmtSteps) : c ∈ form.children := by
  cases form <;>
    simp only [stmtSteps, table?, FieldValue.stmtSteps, children, Option.getD_some,
      Option.getD_none, List.flatMap_cons, List.flatMap_nil, List.append_nil, List.nil_append,
      List.mem_append, List.mem_mapIdx, List.not_mem_nil, Prod.mk.injEq] at h ⊢
  all_goals grind

theorem StmtForm.mem_stmtSteps_of_table {form : StmtForm σ ε} {f : Field} {v : FieldValue σ ε}
    {x : Step × σ} (hv : (f, v) ∈ form.table?.getD []) (hx : x ∈ v.stmtSteps f) :
    x ∈ form.stmtSteps :=
  List.mem_flatMap.mpr ⟨(f, v), hv, hx⟩

end Steps

/-! ### Nodes -/

/-- The expression at the first place has a node at the second one. -/
inductive Expr.HasNode : Expr → Place → Place → Prop
  | here (e : Expr) (p : Place) : HasNode e p p
  | child {e c : Expr} {s : Step} {p q : Place} :
      (s, c) ∈ e.form.steps → HasNode c (s :: p) q → HasNode e p q

/-- The statement at the first place has a node at the second one. -/
inductive Stmt.HasNode : Stmt → Place → Place → Prop
  | here (s : Stmt) (p : Place) : HasNode s p p
  | inExpr {s : Stmt} {e : Expr} {step : Step} {p q : Place} :
      (step, e) ∈ s.form.exprSteps → e.HasNode (step :: p) q → HasNode s p q
  | child {s c : Stmt} {step : Step} {p q : Place} :
      (step, c) ∈ s.form.stmtSteps → HasNode c (step :: p) q → HasNode s p q

/-- The places of the nodes of an expression at a place. -/
def Expr.nodes (e : Expr) (p : Place) : Set Place := {q | e.HasNode p q}

/-- The places of the nodes of a statement at a place. -/
def Stmt.nodes (s : Stmt) (p : Place) : Set Place := {q | s.HasNode p q}

/-- The places of the nodes of the statements at the top of a tree. -/
def nodesOf (stmts : List Stmt) : Set Place :=
  {q | ∃ (i : Nat) (s : Stmt), stmts[i]? = some s ∧ q ∈ s.nodes [.field .body i]}

theorem Expr.nodes_child {e c : Expr} {s : Step} {p : Place} (h : (s, c) ∈ e.form.steps) :
    c.nodes (s :: p) ⊆ e.nodes p :=
  fun _ hq => .child h hq

theorem Stmt.nodes_inExpr {s : Stmt} {e : Expr} {step : Step} {p : Place}
    (h : (step, e) ∈ s.form.exprSteps) : e.nodes (step :: p) ⊆ s.nodes p :=
  fun _ hq => .inExpr h hq

theorem Stmt.nodes_child {s c : Stmt} {step : Step} {p : Place}
    (h : (step, c) ∈ s.form.stmtSteps) : c.nodes (step :: p) ⊆ s.nodes p :=
  fun _ hq => .child h hq

/-! ### Slots -/

/-- What the cache can keep for a place: a text per field and way of reading it. -/
abbrev Slot := AttrKey Place

/-- The slots at a place and at all places below it. -/
def under (p : Place) : Set Slot := {k | p <:+ k.node}

/-- The slots of a field of the node at a place: its own, and those of the children in it. -/
def ofField (p : Place) (f : Field) : Set Slot :=
  {k | (k.node = p ∧ k.field = f) ∨ ∃ i, k ∈ under (.field f i :: p)}

/-- The slots of some fields of the node at a place. -/
def ofFields (p : Place) (fs : List Field) : Set Slot := {k | ∃ f ∈ fs, k ∈ ofField p f}

/-- The slots of the defaults of the node at a place. -/
def ofDefaults (p : Place) : Set Slot := {k | ∃ i, k ∈ under (.default i :: p)}

theorem under_step_subset (s : Step) (p : Place) : under (s :: p) ⊆ under p :=
  fun _ hk => (List.suffix_cons s p).trans hk

theorem ofField_subset_under (p : Place) (f : Field) : ofField p f ⊆ under p := by
  rintro k (⟨rfl, _⟩ | ⟨i, hk⟩)
  · exact List.suffix_refl _
  · exact under_step_subset _ _ hk

theorem ofDefaults_subset_under (p : Place) : ofDefaults p ⊆ under p := by
  rintro k ⟨i, hk⟩
  exact under_step_subset _ _ hk

theorem under_subset_ofField (p : Place) (f : Field) (i : Nat) :
    under (.field f i :: p) ⊆ ofField p f :=
  fun _ hk => Or.inr ⟨i, hk⟩

/-- A place is under one child only. -/
theorem step_unique {s s' : Step} {p q : Place} (h : s :: p <:+ q) (h' : s' :: p <:+ q) :
    s = s' := by
  have hsuffix := List.suffix_of_suffix_length_le h h' (by simp)
  have heq := hsuffix.eq_of_length (by simp)
  exact (List.cons.inj heq).1

/-- No child is at the place of its node. -/
theorem not_step_suffix_self (s : Step) (p : Place) : ¬ s :: p <:+ p := by
  intro h
  have hlength := h.length_le
  rw [List.length_cons] at hlength
  omega

theorem under_disjoint {s s' : Step} (p : Place) (h : s ≠ s') :
    Disjoint (under (s :: p)) (under (s' :: p)) :=
  Set.disjoint_left.mpr fun _ hk hk' => h (step_unique hk hk')

theorem own_not_mem_under (p : Place) (f : Field) (a : Access) (s : Step) :
    (⟨p, f, a⟩ : Slot) ∉ under (s :: p) :=
  not_step_suffix_self s p

theorem ofField_disjoint (p : Place) {f g : Field} (h : f ≠ g) :
    Disjoint (ofField p f) (ofField p g) := by
  refine Set.disjoint_left.mpr ?_
  rintro k (⟨hp, hf⟩ | ⟨i, hi⟩) (⟨hp', hg⟩ | ⟨j, hj⟩)
  · exact h (hf.symm.trans hg)
  · exact not_step_suffix_self _ _ (hp ▸ hj)
  · exact not_step_suffix_self _ _ (hp' ▸ hi)
  · have hstep := step_unique hi hj
    exact h (Step.field.inj hstep).1

theorem ofFields_subset_under (p : Place) (fs : List Field) : ofFields p fs ⊆ under p := by
  rintro k ⟨f, _, hk⟩
  exact ofField_subset_under p f hk

theorem ofFields_cons (p : Place) (f : Field) (fs : List Field) :
    ofFields p (f :: fs) = ofField p f ∪ ofFields p fs := by
  ext k
  simp [ofFields]

theorem ofField_disjoint_ofFields (p : Place) {f : Field} {fs : List Field} (h : f ∉ fs) :
    Disjoint (ofField p f) (ofFields p fs) := by
  refine Set.disjoint_left.mpr ?_
  rintro k hk ⟨g, hg, hk'⟩
  have hne : f ≠ g := fun heq => h (heq ▸ hg)
  exact Set.disjoint_left.mp (ofField_disjoint p hne) hk hk'

theorem ofDefaults_disjoint (p : Place) (f : Field) : Disjoint (ofDefaults p) (ofField p f) := by
  refine Set.disjoint_left.mpr ?_
  rintro k ⟨i, hi⟩ (⟨hp, _⟩ | ⟨j, hj⟩)
  · exact not_step_suffix_self _ _ (hp ▸ hi)
  · exact Step.noConfusion (step_unique hi hj)

end ScriptTree
