/-
  ScriptTree/Proofs/Supported.lean
  ================================
  **Which trees can be rendered.**  `Expr.supported` and `Stmt.supported` look at a tree and at
  nothing else: no scopes, no cache, no templates.  A body is rendered exactly if all of its
  statements are supported (`renderBody_succeeds_iff`), whatever is declared beforehand.

  The proof goes over drafts, which know neither scopes nor cache.  One lemma per building block of
  the rules says when it succeeds, and the rules are then read off case by case.  The one place where
  success depends on a text rendered before is a comparison: it has to have as many operands as
  its operators ask for.
-/
import ScriptTree.Proofs.Draft

namespace ScriptTree

open Rendition

/-! ### Supported trees -/

/-- A parameter list that can be rendered.  Defaults beyond the number of positional parameters are
    not looked at. -/
def Params.supported (params : Params Bool) : Bool :=
  params.kwOnly.isEmpty && params.kwRest.isNone &&
    (params.defaults.take params.positional.length).all id

/-- Whether a comparison has a spelling. -/
def CmpOperator.supported (op : CmpOperator) : Bool := op != .isIn && op != .notIn

/-- Whether a form can be rendered, from the same about its children. -/
def ExprForm.supported : ExprForm Bool → Bool
  | .boolOp _ values => values.all id
  | .binOp left op right => left && op != .matMult && right
  | .unaryOp _ operand => operand
  | .lambda params body => params.supported && body
  | .ifExp test body orelse => test && body && orelse
  -- keys and values pair up as far as both go
  | .dict keys values => (keys.zip values).all fun (key, value) => key.all id && value
  | .compare left ops comparators =>
    !ops.isEmpty && ops.length == comparators.length && ops.all CmpOperator.supported && left &&
      comparators.all id
  | .call func args keywords => keywords.isEmpty && func && args.all id
  | .constant _ => true
  | .attribute value _ => value
  | .subscript value index => value && index
  | .name _ => true
  | .list elts => elts.all id
  | .starred value => value
  | .tuple _ | .set _ | .listComp .. | .dictComp .. | .generatorExp .. | .await _ | .yield _
  | .namedExpr .. | .slice .. | .joinedStr _ => false

def Expr.supported : Expr → Bool := Expr.fold fun _ form => form.supported

/-- Whether a form can be rendered, from the same about the statements below it. -/
def StmtForm.supported : StmtForm Bool Expr → Bool
  | .functionDef _ params body decorators =>
    decorators.isEmpty && (params.map Expr.supported).supported && body.all id
  | .ret value => value.all Expr.supported
  | .delete targets => targets.all Expr.supported
  | .assign targets value => value.supported && targets.all Expr.supported
  | .augAssign target op value => target.supported && op != .matMult && value.supported
  | .forLoop target iter body orelse =>
    orelse.isEmpty && target.kind == .name && iter.supported && body.all id
  | .whileLoop test body orelse => orelse.isEmpty && test.supported && body.all id
  | .cond test body orelse => test.supported && body.all id && orelse.all id
  | .raise exc cause => cause.isNone && exc.all Expr.supported
  | .expr value => value.supported
  | .pass | .breakLoop | .continueLoop => true
  | .classDef .. | .tryStmt .. | .withStmt .. | .assert .. | .importStmt _ | .globalStmt _
  | .nonlocalStmt _ => false

def Stmt.supported : Stmt → Bool := Stmt.fold fun _ form => form.supported

theorem Expr.supported_mk (l : Loc) (form : ExprForm Expr) :
    Expr.supported ⟨l, form⟩ = (form.map Expr.supported).supported :=
  Expr.fold_mk _ l form

theorem Stmt.supported_mk (l : Loc) (form : StmtForm Stmt Expr) :
    Stmt.supported ⟨l, form⟩ = (form.map Stmt.supported).supported :=
  Stmt.fold_mk _ l form

/-! ### Drafts that succeed -/

namespace Draft

variable {α β : Type}

def Succeeds (d : Draft α) : Prop := ∃ a, d.result = .ok a

@[simp] theorem succeeds_pure (a : α) : (pure a : Draft α).Succeeds := ⟨a, rfl⟩

@[simp] theorem not_succeeds_fail (e : RenderError) : ¬(fail e : Draft α).Succeeds := by
  rintro ⟨a, ⟨⟩⟩

@[simp] theorem succeeds_text (t : String) : (text t : Draft Sketch).Succeeds := ⟨_, rfl⟩

@[simp] theorem succeeds_assign (name value : String) :
    (Rendition.assign name value : Draft Sketch).Succeeds := ⟨_, rfl⟩

@[simp] theorem succeeds_around (l : Loc) (d : Draft α) :
    (around l d).Succeeds ↔ d.Succeeds := by
  constructor
  · rintro ⟨a, ha⟩
    exact ⟨a, result_of_around ha⟩
  · rintro ⟨a, ha⟩
    refine ⟨a, ?_⟩
    show d.result.mapError _ = _
    rw [ha]
    rfl

@[simp] theorem succeeds_inScope (names : List String) (d : Draft α) :
    (inScope names d).Succeeds ↔ d.Succeeds := Iff.rfl

@[simp] theorem succeeds_read (d : Draft α) : (read d).Succeeds ↔ d.Succeeds := by
  show (∃ a, (d.andThen _).result = .ok a) ↔ _
  rw [andThen_result]
  rfl

@[simp] theorem succeeds_readTwice (d : Draft String) : (readTwice d).Succeeds ↔ d.Succeeds := by
  show (∃ a, d.result.map _ = .ok a) ↔ ∃ a, d.result = .ok a
  cases d.result with
  | error e => simp [Except.map]
  | ok a => simp [Except.map]

/-- What follows succeeds or not, but the result before it decides nothing. -/
theorem succeeds_bind {d : Draft α} {f : α → Draft β} {p : Prop}
    (hf : ∀ a, d.result = .ok a → ((f a).Succeeds ↔ p)) :
    (d >>= f).Succeeds ↔ d.Succeeds ∧ p := by
  cases hd : d.result with
  | error e =>
    rw [Succeeds, bind_of_error hd, Succeeds, hd]
    simp
  | ok a =>
    rw [Succeeds, bind_of_ok hd, Succeeds, hd]
    have hnext := hf a hd
    rw [Succeeds] at hnext
    simp [hnext]

theorem succeeds_map {d : Draft α} {f : α → β} :
    (d >>= fun a => pure (f a)).Succeeds ↔ d.Succeeds := by
  rw [succeeds_bind fun a _ => iff_of_true (succeeds_pure (f a)) trivial, and_true]

theorem succeeds_then_text {d : Draft α} {f : α → String} :
    (d >>= fun a => text (f a) : Draft Sketch).Succeeds ↔ d.Succeeds := by
  rw [succeeds_bind fun a _ => iff_of_true (succeeds_text (f a)) trivial, and_true]

theorem succeeds_given (x : Except RenderError α) :
    (given x : Draft α).Succeeds ↔ ∃ a, x = .ok a := by
  cases x with
  | error e => simp [given]
  | ok a => simp [given]

theorem succeeds_both (d e : Draft Sketch) : (both d e).Succeeds ↔ d.Succeeds ∧ e.Succeeds :=
  succeeds_bind fun _ _ => succeeds_map

theorem succeeds_wrap (a b : String) (d : Draft Sketch) :
    (wrap a d b).Succeeds ↔ d.Succeeds := by
  simp [wrap, succeeds_both]

theorem succeeds_all (ds : List (Draft α)) :
    (all ds).Succeeds ↔ ∀ d ∈ ds, d.Succeeds := by
  induction ds with
  | nil => simp [all]
  | cons d rest ih =>
    rw [all, succeeds_bind fun _ _ => succeeds_map, ih, List.forall_mem_cons]

theorem length_of_all {ds : List (Draft α)} {as : List α} (h : (all ds).result = .ok as) :
    as.length = ds.length := by
  induction ds generalizing as with
  | nil =>
    cases h
    rfl
  | cons d rest ih =>
    obtain ⟨a, -, h⟩ := result_of_bind h
    obtain ⟨more, hmore, h⟩ := result_of_bind h
    cases h
    simp [ih hmore]

theorem succeeds_joined (separator : String) (ds : List (Draft String)) :
    (joined separator ds).Succeeds ↔ ∀ d ∈ ds, d.Succeeds := by
  rw [joined, succeeds_map, succeeds_all]

theorem succeeds_optional (d : Option (Draft String)) :
    (Rendition.optional d).Succeeds ↔ ∀ e ∈ d, e.Succeeds := by
  cases d with
  | none => simp [Rendition.optional]
  | some e => simp [Rendition.optional]

theorem succeeds_lines (ds : List (Draft Sketch)) :
    (lines ds).Succeeds ↔ ∀ d ∈ ds, d.Succeeds := by
  induction ds with
  | nil => simp [lines]
  | cons d rest ih =>
    cases rest with
    | nil => simp [lines]
    | cons next rest => rw [lines, succeeds_both, succeeds_wrap, ih, List.forall_mem_cons (a := d)]

end Draft

/-! ### The rules for expressions -/

theorem CmpOperator.spell_ok_iff (op : CmpOperator) :
    (∃ s, op.spell = .ok s) ↔ op.supported = true := by
  cases op <;> simp [spell, spelling?, supported]

theorem BinaryOperator.spell_ok_iff {op : BinaryOperator} (hop : op ≠ .floorDiv) :
    (∃ s, op.spell = .ok s) ↔ op ≠ .matMult := by
  cases op <;> simp [spell, spelling?] at hop ⊢

/-- A chain with enough operands is refused for its operators only. -/
theorem ExprForm.comparisons_ok_iff {texts : List String} {ops : List CmpOperator}
    (hlength : texts.length = ops.length + 1) :
    (∃ pairs, comparisons texts ops = .ok pairs) ↔ ∀ op ∈ ops, op.supported = true := by
  induction ops generalizing texts with
  | nil =>
    obtain ⟨left, rfl⟩ := List.length_eq_one_iff.mp hlength
    simp [comparisons]
  | cons op ops ih =>
    obtain ⟨left, texts, rfl⟩ := List.exists_cons_of_length_eq_add_one hlength
    obtain ⟨right, rest, rfl⟩ := List.exists_cons_of_length_eq_add_one (Nat.succ.inj hlength)
    have hrest : (∃ pairs, comparisons (right :: rest) ops = .ok pairs) ↔
        ∀ op ∈ ops, op.supported = true := ih (Nat.succ.inj hlength)
    rw [List.forall_mem_cons, ← hrest, ← op.spell_ok_iff, comparisons]
    cases op.spell with
    | error e => simp [bind, Except.bind]
    | ok spelling =>
      cases comparisons (right :: rest) ops with
      | error e => simp [bind, Except.bind]
      | ok pairs => simp [bind, Except.bind, pure, Except.pure]

namespace Draft

/-- Which defaults a parameter list renders: the first ones, as many as there are parameters. -/
theorem succeeds_positional (params : Params (Draft String)) :
    (∀ d ∈ params.positional.mapIdx params.directParam, d.Succeeds) ↔
      ∀ d ∈ params.defaults.take params.positional.length, d.Succeeds := by
  have hparam : ∀ (i : Nat) (param : Param), (params.directParam i param).Succeeds ↔
      ∀ j, params.defaultIndex? i = some j → ∀ d, params.defaults[j]? = some d → d.Succeeds := by
    intro i param
    rw [Params.directParam]
    cases params.defaultIndex? i with
    | none => simp
    | some j =>
      cases hd : params.defaults[j]? with
      | none => simp [hd]
      | some d => simp [hd, succeeds_map]
  simp only [List.mem_mapIdx, forall_exists_index, List.mem_take_iff_getElem]
  constructor
  · rintro h d j hj rfl
    -- the default at `j` belongs to the parameter that many places behind the first one with a default
    have hi : params.positional.length - params.defaults.length + j < params.positional.length := by
      omega
    refine (hparam _ _).mp (h _ _ hi rfl) j ?_ _ (List.getElem?_eq_getElem (by omega))
    simp only [Params.defaultIndex?]
    rw [if_neg (by omega), Nat.add_sub_cancel_left]
  · rintro h _ i hi rfl
    refine (hparam i _).mpr fun j hj d hd => ?_
    obtain ⟨hlt, rfl⟩ := List.getElem?_eq_some_iff.mp hd
    refine h _ j ?_ rfl
    simp only [Params.defaultIndex?] at hj
    split at hj
    · cases hj
    · cases hj
      omega

theorem succeeds_params (params : Params Expr)
    (h : ∀ e ∈ params.defaults, (e.direct : Draft String).Succeeds ↔ e.supported = true) :
    ((params.map Expr.direct).direct : Draft String).Succeeds ↔
      (params.map Expr.supported).supported = true := by
  have hdefaults : (∀ d ∈ (params.map (Expr.direct (M := Draft))).defaults.take
        (params.map (Expr.direct (M := Draft))).positional.length, d.Succeeds) ↔
      ∀ e ∈ params.defaults.take params.positional.length, e.supported = true := by
    simp only [Params.map, Params.positional, ← List.map_take, List.forall_mem_map]
    exact forall₂_congr fun e he => h e (List.mem_of_mem_take he)
  obtain ⟨loc, posOnly, args, rest, kwOnly, kwRest, defaults⟩ := params
  cases kwOnly with
  | cons param rest => simp [Params.map, Params.direct, Params.supported, unsupported]
  | nil =>
    cases kwRest with
    | some param => simp [Params.map, Params.direct, Params.supported, unsupported]
    | none =>
      rw [Params.direct]
      simp only [Params.map] at hdefaults ⊢
      rw [succeeds_map, succeeds_all, succeeds_positional, hdefaults]
      simp [Params.supported, Params.positional, ← List.map_take]

theorem succeeds_entry (key : Option (Draft String)) (value : Draft String) :
    (ExprForm.directEntry (key, value)).Succeeds ↔ value.Succeeds ∧ ∀ d ∈ key, d.Succeeds := by
  rw [ExprForm.directEntry]
  cases key with
  | none => simp [succeeds_map]
  | some key => simp [succeeds_bind fun _ _ => succeeds_map]

end Draft

/-- A form is rendered without error if its children are and it is of a supported shape. -/
theorem ExprForm.draft_succeeds_iff {form : ExprForm Expr}
    (ih : ∀ e ∈ form.children, (e.direct : Draft String).Succeeds ↔ e.supported = true) :
    ((form.map Expr.direct).direct : Draft String).Succeeds ↔
      (form.map Expr.supported).supported = true := by
  have hlist : ∀ es : List Expr, (∀ e ∈ es, e ∈ form.children) →
      ((∀ d ∈ es.map (Expr.direct (M := Draft)), d.Succeeds) ↔
        (es.map Expr.supported).all id = true) := by
    intro es hes
    simp only [List.forall_mem_map, List.all_map, List.all_eq_true, Function.comp_apply, id_eq]
    exact forall₂_congr fun e he => ih e (hes e he)
  cases form with
  | boolOp op values =>
    simp only [ExprForm.map, ExprForm.direct, ExprForm.supported]
    rw [Draft.succeeds_map, Draft.succeeds_all]
    exact hlist values fun e he => he
  | binOp left op right =>
    have hleft := ih left (by simp [children])
    have hright := ih right (by simp [children])
    by_cases hop : op = .floorDiv
    · subst hop
      simp only [ExprForm.map, ExprForm.direct, ExprForm.supported]
      rw [Draft.succeeds_bind fun _ _ => Draft.succeeds_map]
      simp [hleft, hright]
    · simp only [ExprForm.map, ExprForm.supported]
      rw [Simulation.direct_binOp hop]
      rw [Draft.succeeds_bind fun _ _ => Draft.succeeds_bind fun _ _ => Draft.succeeds_map]
      simp [hleft, hright, Draft.succeeds_given, op.spell_ok_iff hop, and_assoc]
  | unaryOp op operand =>
    have hoperand := ih operand (by simp [children])
    simp only [ExprForm.map, ExprForm.direct, ExprForm.supported]
    rw [Draft.succeeds_bind fun _ _ => Draft.succeeds_map]
    simp [hoperand]
  | lambda params body =>
    have hparams := Draft.succeeds_params params fun e he => ih e (by simp [children, he])
    have hbody := ih body (by simp [children])
    simp only [ExprForm.map, ExprForm.direct, ExprForm.supported, Draft.succeeds_inScope]
    rw [Draft.succeeds_bind fun _ _ => Draft.succeeds_map]
    simp [hparams, hbody]
  | ifExp test body orelse =>
    have htest := ih test (by simp [children])
    have hbody := ih body (by simp [children])
    have horelse := ih orelse (by simp [children])
    simp only [ExprForm.map, ExprForm.direct, ExprForm.supported]
    rw [Draft.succeeds_bind fun _ _ => Draft.succeeds_bind fun _ _ => Draft.succeeds_map]
    simp [htest, hbody, horelse, and_assoc]
  | dict keys values =>
    simp only [ExprForm.map, ExprForm.direct, ExprForm.supported]
    rw [Draft.succeeds_map, Draft.succeeds_all]
    simp only [List.zip_map, List.map_map, List.forall_mem_map, List.all_map, List.all_eq_true]
    refine forall₂_congr fun entry hentry => ?_
    obtain ⟨key, value⟩ := entry
    obtain ⟨hkey, hvalue⟩ := List.of_mem_zip hentry
    have hv := ih value (by simp [children, hvalue])
    have hk : ∀ k ∈ key, (k.direct : Draft String).Succeeds ↔ k.supported = true := by
      intro k hmem
      refine ih k (List.mem_append_left _ (List.mem_flatMap.mpr ⟨key, hkey, ?_⟩))
      simpa using hmem
    simp only [Function.comp_apply, Prod.map_apply, Draft.succeeds_entry, hv]
    cases key with
    | none => simp
    | some k => simp [hk k rfl, and_comm]
  | compare left ops comparators =>
    have hleft := ih left (by simp [children])
    have hothers := hlist comparators fun e he => by simp [children, he]
    have hshape : (!ops.isEmpty && ops.length == comparators.length) =
        !(ops.isEmpty || ops.length != comparators.length) := by
      simp [bne]
    simp only [ExprForm.map, ExprForm.direct, ExprForm.supported, List.length_map]
    rw [hshape]
    cases hwrong : ops.isEmpty || ops.length != comparators.length with
    | true => simp
    | false =>
      have hlength : ops.length = comparators.length := by simp_all
      have hcheck : ∀ (l : String) (others : List String),
          (all (comparators.map (Expr.direct (M := Draft)))).result = .ok others →
          ((given (comparisons (l :: others) ops) >>= fun pairs => pure (conjunction pairs) :
            Draft String).Succeeds ↔ ops.all CmpOperator.supported = true) := by
        intro l others hall
        have hcount := Draft.length_of_all hall
        rw [List.length_map] at hcount
        rw [Draft.succeeds_map, Draft.succeeds_given, comparisons_ok_iff, List.all_eq_true]
        rw [List.length_cons, hcount, hlength]
      simp only [Bool.false_eq_true, if_false]
      rw [Draft.succeeds_bind fun l _ => Draft.succeeds_bind fun others hall => hcheck l others hall]
      rw [Draft.succeeds_read, Draft.succeeds_all, hleft, hothers]
      simp only [Bool.not_false, Bool.true_and, Bool.and_eq_true]
      tauto
  | call func args keywords =>
    have hfunc := ih func (by simp [children])
    have hargs := hlist args fun e he => by simp [children, he]
    cases keywords with
    | cons keyword rest => simp [ExprForm.map, ExprForm.direct, ExprForm.supported, unsupported]
    | nil =>
      simp only [ExprForm.map, ExprForm.direct, ExprForm.supported, List.map_nil]
      rw [Draft.succeeds_bind fun _ _ => Draft.succeeds_map]
      rw [Draft.succeeds_read, Draft.succeeds_read, Draft.succeeds_joined, hfunc, hargs]
      simp
  | constant value => simp [ExprForm.map, ExprForm.direct, ExprForm.supported]
  | «attribute» value attr =>
    have hvalue := ih value (by simp [children])
    simp only [ExprForm.map, ExprForm.direct, ExprForm.supported]
    rw [Draft.succeeds_bind fun _ _ => Draft.succeeds_map]
    simp [hvalue]
  | subscript value index =>
    have hvalue := ih value (by simp [children])
    have hindex := ih index (by simp [children])
    simp only [ExprForm.map, ExprForm.direct, ExprForm.supported]
    rw [Draft.succeeds_bind fun _ _ => Draft.succeeds_map]
    simp [hvalue, hindex]
  | name id => simp [ExprForm.map, ExprForm.direct, ExprForm.supported]
  | list elts =>
    simp only [ExprForm.map, ExprForm.direct, ExprForm.supported]
    rw [Draft.succeeds_map, Draft.succeeds_read, Draft.succeeds_joined]
    exact hlist elts fun e he => he
  | starred value =>
    simp only [ExprForm.map, ExprForm.direct, ExprForm.supported]
    rw [Draft.succeeds_map, Draft.succeeds_read]
    exact ih value (by simp [children])
  | _ => simp [ExprForm.map, ExprForm.direct, ExprForm.supported, unsupported]

theorem Expr.draft_succeeds_iff (e : Expr) :
    (e.direct : Draft String).Succeeds ↔ e.supported = true := by
  induction e with
  | mk l form ih =>
    rw [Expr.direct_mk, Expr.supported_mk, Draft.succeeds_around]
    exact ExprForm.draft_succeeds_iff ih

/-! ### The rules for statements -/

theorem StmtForm.draft_succeeds_iff {form : StmtForm Stmt Expr}
    (ih : ∀ s ∈ form.children, (s.direct : Draft Sketch).Succeeds ↔ s.supported = true) :
    ((form.map fun s => (s.loc, (s.direct : Draft Sketch))).direct).Succeeds ↔
      (form.map Stmt.supported).supported = true := by
  have hexprs : ∀ es : List Expr, (∀ d ∈ es.map (Expr.direct (M := Draft)), d.Succeeds) ↔
      es.all Expr.supported = true := by
    intro es
    simp only [List.forall_mem_map, List.all_eq_true]
    exact forall₂_congr fun e _ => e.draft_succeeds_iff
  have hoption : ∀ e : Option Expr,
      (Rendition.optional (e.map (Expr.direct (M := Draft)))).Succeeds ↔
        e.all Expr.supported = true := by
    intro e
    rw [Draft.succeeds_optional]
    cases e with
    | none => simp
    | some e => simp [e.draft_succeeds_iff]
  have hblock : ∀ ss : List Stmt, (∀ s ∈ ss, s ∈ form.children) →
      ((lines ((ss.map fun s => (s.loc, (s.direct : Draft Sketch))).map Prod.snd)).Succeeds ↔
        (ss.map Stmt.supported).all id = true) := by
    intro ss hss
    rw [Draft.succeeds_lines]
    simp only [List.map_map, List.forall_mem_map, List.all_map, List.all_eq_true,
      Function.comp_apply, id_eq]
    exact forall₂_congr fun s hs => ih s (hss s hs)
  cases form with
  | functionDef name params body decorators =>
    have hbody := hblock body fun s hs => hs
    have hparams := Draft.succeeds_params params fun e _ => e.draft_succeeds_iff
    cases decorators with
    | cons decorator rest => simp [StmtForm.map, StmtForm.direct, StmtForm.supported, unsupported]
    | nil =>
      simp only [StmtForm.map, StmtForm.direct, StmtForm.supported]
      rw [Draft.succeeds_bind fun _ _ => (Draft.succeeds_inScope _ _).trans
        (Draft.succeeds_bind fun _ _ => Draft.succeeds_wrap _ _ _)]
      rw [Draft.succeeds_read, Draft.succeeds_read, hparams, hbody]
      simp
  | ret value =>
    simp only [StmtForm.map, StmtForm.direct, StmtForm.supported]
    rw [Draft.succeeds_then_text, Draft.succeeds_read, hoption]
  | delete targets =>
    simp only [StmtForm.map, StmtForm.direct, StmtForm.supported]
    rw [Draft.succeeds_then_text, Draft.succeeds_all, hexprs]
  | assign targets value =>
    simp only [StmtForm.map, StmtForm.direct, StmtForm.supported]
    have htargets : ∀ v : String, (lines (targets.map fun target => do
        let name ← target.direct
        Rendition.assign name v : List (Draft Sketch))).Succeeds ↔
          targets.all Expr.supported = true := by
      intro v
      rw [Draft.succeeds_lines, List.forall_mem_map, List.all_eq_true]
      refine forall₂_congr fun target _ => ?_
      rw [Draft.succeeds_bind fun name _ => iff_of_true (Draft.succeeds_assign name v) trivial]
      rw [and_true, target.draft_succeeds_iff]
    rw [Draft.succeeds_bind fun v _ => htargets v, Draft.succeeds_read, value.draft_succeeds_iff]
    simp
  | augAssign target op value =>
    have htarget := target.draft_succeeds_iff
    have hvalue := value.draft_succeeds_iff
    by_cases hop : op = .floorDiv
    · subst hop
      simp only [StmtForm.map, StmtForm.direct, StmtForm.supported]
      rw [Draft.succeeds_bind fun _ _ => Draft.succeeds_then_text]
      simp [htarget, hvalue]
    · simp only [StmtForm.map, StmtForm.supported]
      rw [Simulation.direct_augAssign hop]
      rw [Draft.succeeds_bind fun _ _ => Draft.succeeds_bind fun _ _ => Draft.succeeds_then_text]
      simp [htarget, hvalue, Draft.succeeds_given, op.spell_ok_iff hop, and_assoc]
  | forLoop target iter body orelse =>
    have hbody := hblock body fun s hs => by simp [children, hs]
    cases orelse with
    | cons stmt rest => simp [StmtForm.map, StmtForm.direct, StmtForm.supported, unsupported]
    | nil =>
      obtain ⟨loc, form⟩ := target
      simp only [StmtForm.map, StmtForm.direct, StmtForm.supported, List.map_nil]
      cases form with
      | name id =>
        rw [Draft.succeeds_bind fun _ _ => (Draft.succeeds_inScope _ _).trans
          (Draft.succeeds_wrap _ _ _)]
        rw [Draft.succeeds_read, Draft.succeeds_read, iter.draft_succeeds_iff, hbody]
        simp [Expr.kind, ExprForm.kind]
      | _ => simp [Expr.kind, ExprForm.kind, unsupported]
  | whileLoop test body orelse =>
    have hbody := hblock body fun s hs => by simp [children, hs]
    cases orelse with
    | cons stmt rest => simp [StmtForm.map, StmtForm.direct, StmtForm.supported, unsupported]
    | nil =>
      simp only [StmtForm.map, StmtForm.direct, StmtForm.supported, List.map_nil]
      rw [Draft.succeeds_bind fun _ _ => Draft.succeeds_wrap _ _ _]
      rw [Draft.succeeds_read, Draft.succeeds_read, test.draft_succeeds_iff, hbody]
      simp
  | cond test body orelse =>
    have hbody := hblock body fun s hs => by simp [children, hs]
    have horelse := hblock orelse fun s hs => by simp [children, hs]
    simp only [StmtForm.map, StmtForm.direct, StmtForm.supported]
    rw [Draft.succeeds_bind fun _ _ => (Draft.succeeds_both _ _).trans
      (and_congr (Draft.succeeds_wrap _ _ _) (Draft.succeeds_wrap _ _ _))]
    rw [Draft.succeeds_read, Draft.succeeds_read, Draft.succeeds_read, test.draft_succeeds_iff, hbody,
      horelse]
    simp [and_assoc]
  | raise exc cause =>
    cases cause with
    | some cause => simp [StmtForm.map, StmtForm.direct, StmtForm.supported, unsupported]
    | none =>
      simp only [StmtForm.map, StmtForm.direct, StmtForm.supported]
      rw [Draft.succeeds_then_text, Draft.succeeds_read, hoption]
      simp
  | expr value =>
    simp only [StmtForm.map, StmtForm.direct, StmtForm.supported]
    rw [Draft.succeeds_then_text, Draft.succeeds_read, value.draft_succeeds_iff]
  | pass => simp [StmtForm.map, StmtForm.direct, StmtForm.supported]
  | breakLoop => simp [StmtForm.map, StmtForm.direct, StmtForm.supported]
  | continueLoop => simp [StmtForm.map, StmtForm.direct, StmtForm.supported]
  | _ => simp [StmtForm.map, StmtForm.direct, StmtForm.supported, unsupported]

theorem Stmt.draft_succeeds_iff (s : Stmt) :
    (s.direct : Draft Sketch).Succeeds ↔ s.supported = true := by
  induction s with
  | mk l form ih =>
    rw [Stmt.direct_mk, Stmt.supported_mk, Draft.succeeds_around]
    exact StmtForm.draft_succeeds_iff ih

/-! ### Bodies -/

theorem Draft.ofStmts_succeeds_iff (stmts : List Stmt) :
    (Draft.ofStmts stmts).Succeeds ↔ ∀ s ∈ stmts, s.supported = true := by
  rw [Draft.ofStmts, directAll, Draft.succeeds_lines, List.forall_mem_map]
  exact forall₂_congr fun s _ => s.draft_succeeds_iff

theorem renderBody_ok_iff_draft (stmts : List Stmt) (declared : List String) :
    (∃ text, (renderBody stmts declared).result = .ok text) ↔ (Draft.ofStmts stmts).Succeeds := by
  have hbody := renderBody_eq_draft stmts declared
  simp only at hbody
  rw [hbody, Draft.Succeeds]
  cases (Draft.ofStmts stmts).result with
  | error e => simp [Except.map]
  | ok sketch => simp [Except.map]

/-- **Rendering succeeds exactly on supported trees**, whatever is declared beforehand. -/
theorem renderBody_succeeds_iff (stmts : List Stmt) (declared : List String) :
    (∃ text, (renderBody stmts declared).result = .ok text) ↔
      ∀ s ∈ stmts, s.supported = true :=
  (renderBody_ok_iff_draft stmts declared).trans (Draft.ofStmts_succeeds_iff stmts)

end ScriptTree
