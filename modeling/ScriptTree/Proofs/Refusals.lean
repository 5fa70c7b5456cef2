/-
  ScriptTree/Proofs/Refusals.lean
  ===============================
  **Nothing without a rendering is passed over, unless it is left over.**  Some constructs are refused
  wherever they are met (`ExprForm.refused`, `StmtForm.refused`).  If one stands anywhere in a body, at
  any depth and in any child, rendering the body fails: this is `renderBody_refuses`.

  It has one exception.  The keys and values of a dictionary are paired up, and defaults are dealt
  out to parameters; what remains of the longer list is never rendered, so nothing in it is noticed
  (`renderBody_passes_over_surplus`).  A child that is not such a remainder is in reach.  In a
  statement whose lists pair up, all children are.
-/
import ScriptTree.Proofs.Subtrees
import ScriptTree.Proofs.Supported

namespace ScriptTree

/-! ### Refused constructs -/

def Params.refused {ε : Type} (params : Params ε) : Bool :=
  !params.kwOnly.isEmpty || params.kwRest.isSome

/-- Whether a form by itself has no rendering, whatever its children are. -/
def ExprForm.refused {ε : Type} : ExprForm ε → Bool
  | .binOp _ op _ => op == .matMult
  | .lambda params _ => params.refused
  | .compare _ ops _ => ops.any fun op => op == .isIn || op == .notIn
  | .call _ _ keywords => !keywords.isEmpty
  | .tuple _ | .set _ | .listComp .. | .dictComp .. | .generatorExp .. | .await _ | .yield _
  | .namedExpr .. | .slice .. | .joinedStr _ => true
  | .boolOp .. | .unaryOp .. | .ifExp .. | .dict .. | .constant _ | .attribute .. | .subscript ..
  | .name _ | .list _ | .starred _ => false

/-- Whether a form by itself has no rendering, whatever its children are. -/
def StmtForm.refused {σ : Type} : StmtForm σ Expr → Bool
  | .functionDef _ params _ decorators => params.refused || !decorators.isEmpty
  | .augAssign _ op _ => op == .matMult
  | .forLoop target _ _ orelse => !orelse.isEmpty || target.kind != .name
  | .whileLoop _ _ orelse => !orelse.isEmpty
  | .raise _ cause => cause.isSome
  | .classDef .. | .tryStmt .. | .withStmt .. | .assert .. | .importStmt _ | .globalStmt _
  | .nonlocalStmt _ => true
  | .ret _ | .delete _ | .assign .. | .cond .. | .expr _ | .pass | .breakLoop | .continueLoop => false

/-- A refused construct stands somewhere in the statement. -/
def Stmt.Offends (s : Stmt) : Prop :=
  (∃ t : Stmt, t.Within s ∧ t.form.refused = true) ∨
    ∃ e : Expr, e.WithinStmt s ∧ e.form.refused = true

/-! ### Children in reach -/

/-- The defaults that a parameter is there for. -/
def Params.dealt {ε : Type} (params : Params ε) : List ε :=
  params.defaults.take params.positional.length

/-- The children of a form but for keys, values and defaults that are left over. -/
def ExprForm.reached {ε : Type} : ExprForm ε → List ε
  | .lambda params body => params.dealt ++ [body]
  | .dict keys values => (keys.zip values).flatMap fun (key, value) => value :: key.toList
  | form => form.children

/-- The expressions of a form but for defaults that are left over. -/
def StmtForm.reached {σ ε : Type} : StmtForm σ ε → List ε
  | .functionDef _ params _ decorators => params.dealt ++ decorators
  | form => form.exprs

/-- The first expression stands in the second one, in reach. -/
inductive Expr.Reached : Expr → Expr → Prop
  | here (e : Expr) : Reached e e
  | child {d c e : Expr} : c ∈ e.form.reached → Reached d c → Reached d e

/-- A refused construct stands in the statement, in reach. -/
def Stmt.OffendsInReach (s : Stmt) : Prop :=
  (∃ t : Stmt, t.Within s ∧ t.form.refused = true) ∨
    ∃ t : Stmt, t.Within s ∧ ∃ d ∈ t.form.reached, ∃ e : Expr, e.Reached d ∧ e.form.refused = true

/-! ### What is supported is supported all the way down -/

theorem Params.supported_dealt {params : Params Expr}
    (h : (params.map Expr.supported).supported = true) :
    ∀ e ∈ params.dealt, e.supported = true := by
  simp only [Params.supported, Params.map, Params.positional, Bool.and_eq_true, ← List.map_take,
    List.all_map, List.all_eq_true, Function.comp_apply, id_eq] at h
  exact h.2

theorem Params.not_refused_of_supported {params : Params Expr}
    (h : (params.map Expr.supported).supported = true) : params.refused = false := by
  simp only [Params.supported, Params.map, Bool.and_eq_true] at h
  obtain ⟨⟨hkwOnly, hkwRest⟩, -⟩ := h
  simp [Params.refused, hkwOnly, Option.isNone_iff_eq_none.mp hkwRest]

theorem ExprForm.not_refused_of_supported {form : ExprForm Expr}
    (h : (form.map Expr.supported).supported = true) : form.refused = false := by
  cases form with
  | lambda params body =>
    simp only [ExprForm.map, ExprForm.supported, Bool.and_eq_true] at h
    exact Params.not_refused_of_supported h.1
  | _ => simp_all [ExprForm.map, ExprForm.supported, ExprForm.refused, CmpOperator.supported]

theorem ExprForm.supported_reached {form : ExprForm Expr}
    (h : (form.map Expr.supported).supported = true) :
    ∀ c ∈ form.reached, c.supported = true := by
  cases form with
  | lambda params body =>
    simp only [ExprForm.map, ExprForm.supported, Bool.and_eq_true] at h
    intro c hc
    rcases List.mem_append.mp hc with hc | hc
    · exact Params.supported_dealt h.1 c hc
    · rw [List.mem_singleton.mp hc]
      exact h.2
  | dict keys values =>
    simp only [ExprForm.map, ExprForm.supported, List.zip_map, List.all_map, List.all_eq_true,
      Function.comp_apply, Bool.and_eq_true] at h
    intro c hc
    obtain ⟨⟨key, value⟩, hentry, hc⟩ := List.mem_flatMap.mp hc
    obtain ⟨hkey, hvalue⟩ := h _ hentry
    rcases List.mem_cons.mp hc with rfl | hc
    · exact hvalue
    · obtain rfl : key = some c := by simpa using hc
      simpa using hkey
  | _ => simp_all [ExprForm.map, ExprForm.supported, ExprForm.reached, ExprForm.children]

theorem StmtForm.not_refused_of_supported {form : StmtForm Stmt Expr}
    (h : (form.map Stmt.supported).supported = true) : form.refused = false := by
  cases form with
  | functionDef name params body decorators =>
    simp only [StmtForm.map, StmtForm.supported, Bool.and_eq_true] at h
    simp [StmtForm.refused, Params.not_refused_of_supported h.1.2, h.1.1]
  | _ => simp_all [StmtForm.map, StmtForm.supported, StmtForm.refused]

theorem StmtForm.supported_child {form : StmtForm Stmt Expr}
    (h : (form.map Stmt.supported).supported = true) :
    ∀ c ∈ form.children, c.supported = true := by
  cases form with
  | cond test body orelse =>
    simp only [StmtForm.map, StmtForm.supported, Bool.and_eq_true, List.all_map, List.all_eq_true,
      Function.comp_apply, id_eq] at h
    intro c hc
    rcases List.mem_append.mp hc with hc | hc
    · exact h.1.2 c hc
    · exact h.2 c hc
  | _ => simp_all [StmtForm.map, StmtForm.supported, StmtForm.children]

theorem StmtForm.supported_reached {form : StmtForm Stmt Expr}
    (h : (form.map Stmt.supported).supported = true) :
    ∀ e ∈ form.reached, e.supported = true := by
  have hoption : ∀ {o : Option Expr}, o.all Expr.supported = true →
      ∀ e ∈ o.toList, e.supported = true := by
    intro o ho e he
    obtain rfl : o = some e := by simpa using he
    exact ho
  cases form with
  | functionDef name params body decorators =>
    simp only [StmtForm.map, StmtForm.supported, Bool.and_eq_true] at h
    intro e he
    simp only [StmtForm.reached, List.isEmpty_iff.mp h.1.1, List.append_nil] at he
    exact Params.supported_dealt h.1.2 e he
  | ret value => exact hoption h
  | assign targets value =>
    simp only [StmtForm.map, StmtForm.supported, Bool.and_eq_true, List.all_eq_true] at h
    intro e he
    rcases List.mem_append.mp he with he | he
    · exact h.2 e he
    · rw [List.mem_singleton.mp he]
      exact h.1
  | forLoop target iter body orelse =>
    simp only [StmtForm.map, StmtForm.supported, Bool.and_eq_true] at h
    obtain ⟨⟨⟨-, hkind⟩, hiter⟩, -⟩ := h
    -- a target that is a name is never rendered as an expression, but it could be
    have htarget : target.supported = true := by
      obtain ⟨l, form⟩ := target
      rw [Expr.supported_mk]
      cases form <;> simp_all [Expr.kind, ExprForm.kind, ExprForm.map, ExprForm.supported]
    intro e he
    rcases List.mem_cons.mp he with rfl | he
    · exact htarget
    · rw [List.mem_singleton.mp he]
      exact hiter
  | raise exc cause =>
    simp only [StmtForm.map, StmtForm.supported, Bool.and_eq_true] at h
    simp only [StmtForm.reached, StmtForm.exprs, Option.isNone_iff_eq_none.mp h.1,
      Option.toList_none, List.append_nil]
    exact hoption h.2
  | _ => simp_all [StmtForm.map, StmtForm.supported, StmtForm.reached, StmtForm.exprs]

theorem Expr.supported_of_reached {d e : Expr} (h : d.Reached e) (he : e.supported = true) :
    d.supported = true := by
  induction h with
  | here => exact he
  | @child c e hc _ ih =>
    obtain ⟨l, form⟩ := e
    rw [Expr.supported_mk] at he
    exact ih (ExprForm.supported_reached he c hc)

theorem Stmt.supported_of_within {t s : Stmt} (h : t.Within s) (hs : s.supported = true) :
    t.supported = true := by
  induction h with
  | here => exact hs
  | @child c s hc _ ih =>
    obtain ⟨l, form⟩ := s
    rw [Stmt.supported_mk] at hs
    exact ih (StmtForm.supported_child hs c hc)

theorem Stmt.not_offendsInReach_of_supported {s : Stmt} (hs : s.supported = true) :
    ¬s.OffendsInReach := by
  rintro (⟨⟨l, form⟩, ht, hrefused⟩ | ⟨⟨l, form⟩, ht, d, hd, ⟨l', form'⟩, he, hrefused⟩)
  · have hform := Stmt.supported_of_within ht hs
    rw [Stmt.supported_mk] at hform
    simp [StmtForm.not_refused_of_supported hform] at hrefused
  · have hform := Stmt.supported_of_within ht hs
    rw [Stmt.supported_mk] at hform
    have hexpr := Expr.supported_of_reached he (StmtForm.supported_reached hform d hd)
    rw [Expr.supported_mk] at hexpr
    simp [ExprForm.not_refused_of_supported hexpr] at hrefused

/-! ### Lists that pair up -/

def Params.paired {ε : Type} (params : Params ε) : Bool :=
  params.defaults.length ≤ params.positional.length

def ExprForm.paired {ε : Type} : ExprForm ε → Bool
  | .lambda params _ => params.paired
  | .dict keys values => keys.length == values.length
  | _ => true

def StmtForm.paired {σ ε : Type} : StmtForm σ ε → Bool
  | .functionDef _ params _ _ => params.paired
  | _ => true

/-- No list in the statement has something left over. -/
def Stmt.Paired (s : Stmt) : Prop :=
  (∀ t : Stmt, t.Within s → t.form.paired = true) ∧
    ∀ e : Expr, e.WithinStmt s → e.form.paired = true

theorem Params.dealt_of_paired {ε : Type} {params : Params ε} (h : params.paired = true) :
    params.dealt = params.defaults :=
  List.take_of_length_le (by simpa [Params.paired] using h)

theorem ExprForm.reached_of_paired {ε : Type} {form : ExprForm ε} (h : form.paired = true) :
    ∀ c ∈ form.children, c ∈ form.reached := by
  cases form with
  | lambda params body =>
    intro c hc
    rwa [ExprForm.reached, Params.dealt_of_paired h]
  | dict keys values =>
    have hlength : keys.length = values.length := by simpa [ExprForm.paired] using h
    intro c hc
    rcases List.mem_append.mp hc with hc | hc
    · obtain ⟨key, hkey, hc⟩ := List.mem_flatMap.mp hc
      obtain ⟨i, hi, rfl⟩ := List.getElem_of_mem hkey
      have hentry : (keys[i], values[i]) ∈ keys.zip values :=
        List.mem_iff_getElem.mpr ⟨i, by simpa using ⟨hi, hlength ▸ hi⟩, List.getElem_zip⟩
      exact List.mem_flatMap.mpr ⟨_, hentry, List.mem_cons_of_mem _ hc⟩
    · obtain ⟨i, hi, rfl⟩ := List.getElem_of_mem hc
      have hentry : (keys[i], values[i]) ∈ keys.zip values :=
        List.mem_iff_getElem.mpr ⟨i, by simpa using ⟨hlength ▸ hi, hi⟩, List.getElem_zip⟩
      exact List.mem_flatMap.mpr ⟨_, hentry, List.mem_cons_self⟩
  | _ => exact fun c hc => hc

theorem StmtForm.reached_of_paired {σ ε : Type} {form : StmtForm σ ε} (h : form.paired = true) :
    form.reached = form.exprs := by
  cases form with
  | functionDef name params body decorators =>
    rw [StmtForm.reached, StmtForm.exprs, Params.dealt_of_paired h]
  | _ => rfl

theorem Expr.Within.reached {d e : Expr} (h : d.Within e)
    (hpaired : ∀ c : Expr, c.Within e → c.form.paired = true) : d.Reached e := by
  induction h with
  | here => exact .here _
  | @child c e hc _ ih =>
    have hreached := ExprForm.reached_of_paired (hpaired e (.here e)) c hc
    exact .child hreached (ih fun b hb => hpaired b (.child hc hb))

theorem Stmt.Offends.inReach {s : Stmt} (hpaired : s.Paired) (h : s.Offends) : s.OffendsInReach := by
  rcases h with hstmt | ⟨e, ⟨t, ht, d, hd, he⟩, hrefused⟩
  · exact Or.inl hstmt
  · rw [← StmtForm.reached_of_paired (hpaired.1 t ht)] at hd
    refine Or.inr ⟨t, ht, d, hd, e, he.reached fun c hc => ?_, hrefused⟩
    rw [StmtForm.reached_of_paired (hpaired.1 t ht)] at hd
    exact hpaired.2 c ⟨t, ht, d, hd, hc⟩

/-! ### Bodies -/

/-- **A refused construct is never passed over** if it is in reach, and in a statement whose lists pair
    up it always is. -/
theorem renderBody_refuses (stmts : List Stmt) (declared : List String)
    (h : ∃ s ∈ stmts, s.OffendsInReach ∨ s.Paired ∧ s.Offends) :
    ∃ e, (renderBody stmts declared).result = .error e := by
  obtain ⟨s, hs, h⟩ := h
  have hreach : s.OffendsInReach := by
    rcases h with hreach | ⟨hpaired, hoffends⟩
    · exact hreach
    · exact hoffends.inReach hpaired
  cases hresult : (renderBody stmts declared).result with
  | error e => exact ⟨e, rfl⟩
  | ok text =>
    have hdraft := (renderBody_ok_iff_draft stmts declared).mp ⟨text, hresult⟩
    have hsupported := (Draft.ofStmts_succeeds_iff stmts).mp hdraft s hs
    exact absurd hreach (Stmt.not_offendsInReach_of_supported hsupported)

/-- An expression as a statement, at no place of the source. -/
def bareStmt (form : ExprForm Expr) : Stmt := ⟨.synthetic, .expr ⟨.synthetic, form⟩⟩

def emptyTuple : Expr := ⟨.synthetic, .tuple []⟩

/-- A lambda without parameters. -/
def thunk (defaults : List Expr) : ExprForm Expr :=
  .lambda ⟨.synthetic, [], [], none, [], none, defaults⟩ ⟨.synthetic, .constant .null⟩

theorem bareStmt_offends {form : ExprForm Expr} (h : emptyTuple ∈ form.children) :
    (bareStmt form).Offends :=
  Or.inr ⟨emptyTuple, ⟨_, .here _, _, List.mem_singleton_self _, .child h (.here _)⟩, rfl⟩

theorem bareStmt_spread_paired : (bareStmt (.dict [none] [emptyTuple])).Paired := by
  constructor
  · intro t ht
    cases ht with
    | here => rfl
    | child hc _ => exact absurd hc List.not_mem_nil
  · rintro e ⟨t, ht, d, hd, he⟩
    cases ht with
    | child hc _ => exact absurd hc List.not_mem_nil
    | here =>
      rw [List.mem_singleton.mp hd] at he
      cases he with
      | here => rfl
      | child hc he =>
        rw [List.mem_singleton.mp hc] at he
        cases he with
        | here => rfl
        | child hc _ => exact absurd hc List.not_mem_nil

theorem renderBody_refuses_spread :
    (bareStmt (.dict [none] [emptyTuple])).Paired ∧ (bareStmt (.dict [none] [emptyTuple])).Offends ∧
    ∃ e, (renderBody [bareStmt (.dict [none] [emptyTuple])] []).result = .error e :=
  have hoffends : (bareStmt (.dict [none] [emptyTuple])).Offends :=
    bareStmt_offends (List.mem_singleton_self _)
  ⟨bareStmt_spread_paired, hoffends,
    renderBody_refuses [bareStmt (.dict [none] [emptyTuple])] []
      ⟨_, List.mem_singleton_self _, Or.inr ⟨bareStmt_spread_paired, hoffends⟩⟩⟩

/-- What is left over is passed over, with everything in it: a value that has no key, and a default
    that has no parameter.  So it is not true that every construct without rendering is met. -/
theorem renderBody_passes_over_surplus :
    ((bareStmt (.dict [] [emptyTuple])).Offends ∧
      (renderBody [bareStmt (.dict [] [emptyTuple])] []).result = .ok "\x7b\x7d") ∧
    ((bareStmt (thunk [emptyTuple])).Offends ∧
      (renderBody [bareStmt (thunk [emptyTuple])] []).result = .ok "(() => (null))") ∧
    ¬∀ (stmts : List Stmt) (declared : List String), (∃ s ∈ stmts, s.Offends) →
      ∃ e, (renderBody stmts declared).result = .error e := by
  have hdict : (bareStmt (.dict [] [emptyTuple])).Offends :=
    bareStmt_offends (List.mem_singleton_self _)
  have hthunk : (bareStmt (thunk [emptyTuple])).Offends :=
    bareStmt_offends List.mem_cons_self
  have hresult : (renderBody [bareStmt (.dict [] [emptyTuple])] []).result = .ok "\x7b\x7d" := rfl
  refine ⟨⟨hdict, hresult⟩, ⟨hthunk, rfl⟩, fun hall => ?_⟩
  obtain ⟨e, he⟩ := hall [bareStmt (.dict [] [emptyTuple])] [] ⟨_, List.mem_singleton_self _, hdict⟩
  rw [hresult] at he
  cases he

end ScriptTree
