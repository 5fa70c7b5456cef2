/-
  ScriptTree/Proofs/Offences.lean
  ===============================
  **Which error is reported.**  A tree may hold many things that have no rendering.  `offencesOf` lists
  all of them in the order in which rendering comes to them, each with its *trail*: the location of
  the offending part itself, if the rule names one, and then the locations of the nodes around it from
  the inside out.

  A pass fails exactly if the list is not empty.  Its error is about the first offence of the list and
  is located at the first place on the trail that is not synthetic (`renderStmts_reports_first`),
  whatever is declared or stored beforehand.

  The proof carries `Draft.Reports` through the building blocks of the rules: offences of actions that
  follow each other are put in a row, and a node extends the trails of what happens inside it.
-/
import ScriptTree.Proofs.FieldCounts

namespace ScriptTree

open Rendition

/-! ### Offences -/

/-- Why something has no rendering. -/
inductive Cause where
  | construct (what : Construct)
  /-- A comparison without operators, or with another number of them than of right operands. -/
  | arity

def Cause.fault : Cause → RenderFault
  | .construct what => .unsupported what
  | .arity => .missingField (.expr .compare) .comparators

/-- Something without rendering, and the places where an error about it may be located. -/
structure Offence where
  cause : Cause
  trail : List Loc

namespace Offence

/-- The offence as it is seen from the node around it. -/
def within (l : Loc) (o : Offence) : Offence := ⟨o.cause, o.trail ++ [l]⟩

/-- The first place on the trail that stands for a piece of source. -/
def loc? (o : Offence) : Option Loc := o.trail.find? fun l => !l.isSynthetic

def error (o : Offence) : RenderError := ⟨o.cause.fault, o.loc?⟩

/-- A construct that has no place but its node's. -/
def ofNode (what : Construct) : Offence := ⟨.construct what, []⟩

/-- A clause that has to be empty.  It is located at its first part. -/
def ofClause (what : Construct) (parts : List Loc) : List Offence :=
  parts.head?.toList.map fun l => ⟨.construct what, [l]⟩

end Offence

def BinaryOperator.offences (op : BinaryOperator) : List Offence :=
  if op = .matMult then [.ofNode (.binaryOperator op)] else []

def CmpOperator.offences (op : CmpOperator) : List Offence :=
  if op = .isIn ∨ op = .notIn then [.ofNode (.cmpOperator op)] else []

/-- The offences of a parameter list, from those of its defaults. -/
def Params.offences (params : Params (List Offence)) : List Offence :=
  Offence.ofClause .keywordOnlyParams (params.kwOnly.map Param.loc) ++
    Offence.ofClause .keywordRest (params.kwRest.toList.map Param.loc) ++ params.dealt.flatten

/-- The offences of a form in order, from those of its children. -/
def ExprForm.offences (form : ExprForm (List Offence)) : List Offence :=
  match form with
  | .boolOp _ values => values.flatten
  | .binOp left op right => left ++ op.offences ++ right
  | .unaryOp _ operand => operand
  | .lambda params body => params.offences ++ body
  | .ifExp test body orelse => test ++ body ++ orelse
  -- keys and values pair up as far as both go, and the value of a pair comes first
  | .dict keys values => (keys.zip values).flatMap fun (key, value) => value ++ key.getD []
  | .compare left ops comparators =>
    (if ops.isEmpty || ops.length != comparators.length then [⟨.arity, []⟩] else []) ++ left ++
      comparators.flatten ++ ops.flatMap CmpOperator.offences
  | .call func args keywords =>
    Offence.ofClause .keywordArguments (keywords.map Keyword.loc) ++ func ++ args.flatten
  | .constant _ | .name _ => []
  | .attribute value _ => value
  | .subscript value index => value ++ index
  | .list elts => elts.flatten
  | .starred value => value
  | .tuple _ | .set _ | .listComp .. | .dictComp .. | .generatorExp .. | .await _ | .yield _
  | .namedExpr .. | .slice .. | .joinedStr _ => [.ofNode (.node (.expr form.kind))]

def Expr.offences : Expr → List Offence :=
  Expr.fold fun l form => form.offences.map (Offence.within l)

/-- The offences of a form in order.  The statements below it are known by their locations and their
    offences. -/
def StmtForm.offences (form : StmtForm (Loc × List Offence) Expr) : List Offence :=
  match form with
  | .functionDef _ params body decorators =>
    Offence.ofClause .decorators (decorators.map Expr.loc) ++
      (params.map Expr.offences).offences ++ body.flatMap Prod.snd
  | .ret value => value.toList.flatMap Expr.offences
  | .delete targets => targets.flatMap Expr.offences
  | .assign targets value => value.offences ++ targets.flatMap Expr.offences
  | .augAssign target op value => target.offences ++ op.offences ++ value.offences
  | .forLoop target iter body orelse =>
    Offence.ofClause .forElse (orelse.map Prod.fst) ++
      (if target.kind = .name then [] else
        [⟨.construct (.loopTarget target.kind), [target.loc]⟩]) ++
      iter.offences ++ body.flatMap Prod.snd
  | .whileLoop test body orelse =>
    Offence.ofClause .whileElse (orelse.map Prod.fst) ++ test.offences ++ body.flatMap Prod.snd
  | .cond test body orelse => test.offences ++ body.flatMap Prod.snd ++ orelse.flatMap Prod.snd
  | .raise exc cause =>
    Offence.ofClause .raiseFrom (cause.toList.map Expr.loc) ++ exc.toList.flatMap Expr.offences
  | .expr value => value.offences
  | .pass | .breakLoop | .continueLoop => []
  | .classDef .. | .tryStmt .. | .withStmt .. | .assert .. | .importStmt _ | .globalStmt _
  | .nonlocalStmt _ => [.ofNode (.node (.stmt form.kind))]

/-- A statement with its location and its offences. -/
def Stmt.judged : Stmt → Loc × List Offence :=
  Stmt.fold fun l form => (l, form.offences.map (Offence.within l))

def Stmt.offences (s : Stmt) : List Offence := s.judged.2

/-- Everything in a list of statements that has no rendering, in the order in which rendering comes
    to it. -/
def offencesOf (stmts : List Stmt) : List Offence := stmts.flatMap Stmt.offences

theorem Expr.offences_mk (l : Loc) (form : ExprForm Expr) :
    Expr.offences ⟨l, form⟩ = (form.map Expr.offences).offences.map (Offence.within l) :=
  Expr.fold_mk _ l form

theorem Stmt.judged_eq (s : Stmt) : s.judged = (s.loc, s.offences) := by
  obtain ⟨l, form⟩ := s
  rw [Stmt.offences, Stmt.judged, Stmt.fold_mk]

theorem Stmt.offences_mk (l : Loc) (form : StmtForm Stmt Expr) :
    Stmt.offences ⟨l, form⟩ =
      (form.map fun s => (s.loc, s.offences)).offences.map (Offence.within l) := by
  have hjudged : (fun s : Stmt => (s.loc, s.offences)) = Stmt.judged :=
    funext fun s => s.judged_eq.symm
  rw [hjudged, Stmt.offences, Stmt.judged, Stmt.fold_mk]

/-! ### Errors on their way out -/

/-- An error gets the location of a node around it just as the trail says. -/
theorem Offence.error_within (l : Loc) (o : Offence) : (o.within l).error = o.error.around l := by
  have hloc : (o.within l).loc? = o.loc?.or (if l.isSynthetic then none else some l) := by
    unfold loc? within
    rw [List.find?_append]
    by_cases hl : l.isSynthetic = true <;> simp [hl]
  unfold error RenderError.around
  rw [hloc]
  rcases o.loc? with _ | known
  · by_cases hl : l.isSynthetic = true <;> simp [hl, within]
  · rfl

namespace Draft

variable {α β : Type}

/-- The draft fails with the first of the offences, or succeeds if there are none. -/
def Reports (d : Draft α) : List Offence → Prop
  | [] => d.Succeeds
  | o :: _ => d.result = .error o.error

variable {d : Draft α} {os os' : List Offence}

theorem Reports.of_eq (h : d.Reports os) (heq : os = os') : d.Reports os' := heq ▸ h

/-- What a draft reports shows in its result alone. -/
theorem Reports.of_result {d e : Draft α} (h : d.Reports os) (heq : e.result = d.result) :
    e.Reports os := by
  rcases os with _ | ⟨o, rest⟩
  · obtain ⟨a, ha⟩ := h
    exact ⟨a, heq.trans ha⟩
  · exact heq.trans h

theorem reports_pure (a : α) : (pure a : Draft α).Reports [] := ⟨a, rfl⟩

theorem reports_text (t : String) : (text t : Draft Sketch).Reports [] := ⟨_, rfl⟩

theorem reports_assign (name value : String) :
    (Rendition.assign name value : Draft Sketch).Reports [] := ⟨_, rfl⟩

theorem reports_fail (o : Offence) (rest : List Offence) :
    (fail o.error : Draft α).Reports (o :: rest) := rfl

theorem reports_unsupported (what : Construct) (rest : List Offence) :
    (unsupported what : Draft α).Reports (.ofNode what :: rest) := reports_fail (.ofNode what) rest

theorem Reports.bind {f : α → Draft β} (hd : d.Reports os)
    (hf : ∀ a, d.result = .ok a → (f a).Reports os') : (d >>= f).Reports (os ++ os') := by
  rcases os with _ | ⟨o, rest⟩
  · obtain ⟨a, ha⟩ := hd
    refine (hf a ha).of_result ?_
    rw [bind_of_ok ha]
  · show (d >>= f).result = .error o.error
    rw [bind_of_error hd]

theorem Reports.map {f : α → β} (hd : d.Reports os) :
    (d >>= fun a => pure (f a)).Reports os :=
  (hd.bind fun a _ => reports_pure (f a)).of_eq (List.append_nil os)

theorem Reports.thenText {f : α → String} (hd : d.Reports os) :
    (d >>= fun a => text (f a) : Draft Sketch).Reports os :=
  (hd.bind fun a _ => reports_text (f a)).of_eq (List.append_nil os)

/-- A node extends the trails of the offences inside it. -/
theorem Reports.around (l : Loc) (hd : d.Reports os) :
    (Rendition.around l d).Reports (os.map (Offence.within l)) := by
  rcases os with _ | ⟨o, rest⟩
  · exact (succeeds_around l d).mpr hd
  · show d.result.mapError (fun e => e.around l) = .error (o.within l).error
    rw [show d.result = .error o.error from hd, o.error_within]
    rfl

theorem Reports.inScope (names : List String) (hd : d.Reports os) :
    (Rendition.inScope names d).Reports os :=
  hd.of_result rfl

theorem Reports.read (hd : d.Reports os) : (Rendition.read d).Reports os :=
  hd.of_result (d.andThen_result _)

theorem Reports.readTwice {d : Draft String} (hd : d.Reports os) :
    (Rendition.readTwice d).Reports os := by
  rcases os with _ | ⟨o, rest⟩
  · exact (succeeds_readTwice d).mpr hd
  · show d.result.map _ = .error o.error
    rw [show d.result = .error o.error from hd]
    rfl

theorem Reports.both {d e : Draft Sketch} (hd : d.Reports os) (he : e.Reports os') :
    (Rendition.both d e).Reports (os ++ os') :=
  hd.bind fun _ _ => he.map

theorem Reports.wrap {d : Draft Sketch} (before after : String) (hd : d.Reports os) :
    (Rendition.wrap before d after).Reports os :=
  (((reports_text before).both hd).both (reports_text after)).of_eq (by simp)

theorem reports_all {γ : Type} {f : γ → Draft α} {offences : γ → List Offence} {xs : List γ}
    (h : ∀ x ∈ xs, (f x).Reports (offences x)) :
    (all (xs.map f)).Reports (xs.flatMap offences) := by
  induction xs with
  | nil => exact reports_pure []
  | cons x rest ih =>
    rw [List.forall_mem_cons] at h
    rw [List.flatMap_cons]
    exact h.1.bind fun _ _ => (ih h.2).map

theorem reports_lines {γ : Type} {f : γ → Draft Sketch} {offences : γ → List Offence} {xs : List γ}
    (h : ∀ x ∈ xs, (f x).Reports (offences x)) :
    (lines (xs.map f)).Reports (xs.flatMap offences) := by
  induction xs with
  | nil => exact reports_text ""
  | cons x rest ih =>
    rw [List.forall_mem_cons] at h
    rw [List.flatMap_cons]
    rcases rest with _ | ⟨next, rest⟩
    · exact h.1.of_eq (by simp)
    · exact (h.1.wrap "" ";\n").both (ih h.2)

/-- A rule that looks at a clause first and refuses it unless it is empty. -/
theorem reports_clause {γ : Type} {what : Construct} {parts : List γ} {loc : γ → Loc} {d : Draft α}
    (hrefuses : ∀ part rest, parts = part :: rest →
      d = Rendition.around (loc part) (unsupported what))
    (haccepts : parts = [] → d.Reports os) :
    d.Reports (Offence.ofClause what (parts.map loc) ++ os) := by
  rcases parts with _ | ⟨part, rest⟩
  · exact haccepts rfl
  · rw [hrefuses part rest rfl]
    exact (reports_unsupported what []).around (loc part)

end Draft

/-! ### The rules for expressions -/

theorem BinaryOperator.draft_reports {op : BinaryOperator} (hop : op ≠ .floorDiv) :
    (given op.spell : Draft String).Reports op.offences := by
  cases op <;> first | exact absurd rfl hop | exact Draft.reports_pure _ | rfl

theorem CmpOperator.draft_reports (op : CmpOperator) :
    (given op.spell : Draft String).Reports op.offences := by
  cases op <;> first | exact Draft.reports_pure _ | rfl

namespace Draft

variable {α β : Type}

theorem given_bind (x : Except RenderError α) (f : α → Except RenderError β) :
    (given (x >>= f) : Draft β) = given x >>= fun a => given (f a) := by
  rcases x with e | a <;> rfl

/-- The operators of a chain are looked at in order.  There is an operand for each. -/
theorem reports_comparisons {texts : List String} {ops : List CmpOperator}
    (hlength : texts.length = ops.length + 1) :
    (given (ExprForm.comparisons texts ops) : Draft (List String)).Reports
      (ops.flatMap CmpOperator.offences) := by
  induction ops generalizing texts with
  | nil =>
    obtain ⟨left, rfl⟩ := List.length_eq_one_iff.mp hlength
    exact reports_pure []
  | cons op ops ih =>
    obtain ⟨left, texts, rfl⟩ := List.exists_cons_of_length_eq_add_one hlength
    obtain ⟨right, rest, rfl⟩ := List.exists_cons_of_length_eq_add_one (Nat.succ.inj hlength)
    have hrest : (given (ExprForm.comparisons (right :: rest) ops) : Draft (List String)).Reports
        (ops.flatMap CmpOperator.offences) := ih (Nat.succ.inj hlength)
    rw [ExprForm.comparisons, given_bind, List.flatMap_cons]
    refine op.draft_reports.bind fun spelling _ => ?_
    rw [given_bind]
    exact hrest.map

theorem reports_param {params : Params Expr} (i : Nat) (param : Param)
    (h : ∀ e ∈ params.defaults, (e.direct : Draft String).Reports e.offences) :
    ((params.map Expr.direct).directParam i param : Draft String).Reports
      ((params.default? i).elim [] Expr.offences) := by
  have hindex : (params.map (Expr.direct (M := Draft))).defaultIndex? i = params.defaultIndex? i := by
    simp [Params.defaultIndex?, Params.map, Params.positional]
  rw [Params.directParam, Params.default?, hindex]
  rcases params.defaultIndex? i with _ | j
  · exact reports_pure _
  · have hdefault : (params.map (Expr.direct (M := Draft))).defaults[j]? =
        params.defaults[j]?.map Expr.direct := List.getElem?_map
    simp only [hdefault, Option.bind_some]
    rcases hj : params.defaults[j]? with _ | e
    · exact reports_pure _
    · exact (h e (List.mem_of_getElem? hj)).map

/-- The defaults are rendered in order, as far as there are parameters for them. -/
theorem reports_positional {params : Params Expr}
    (h : ∀ e ∈ params.defaults, (e.direct : Draft String).Reports e.offences) :
    (all (params.positional.mapIdx (params.map Expr.direct).directParam) :
      Draft (List String)).Reports (params.dealt.flatMap Expr.offences) := by
  rw [List.mapIdx_eq_zipIdx_map]
  refine (reports_all fun x _ => reports_param x.2 x.1 h).of_eq ?_
  calc params.positional.zipIdx.flatMap (fun x => (params.default? x.2).elim [] Expr.offences)
      = ((List.range params.positional.length).map params.default?).flatMap
          fun e => e.elim [] Expr.offences := by
        rw [List.range_eq_range', ← List.zipIdx_map_snd, List.flatMap_map, List.flatMap_map]
    _ = params.dealt.flatMap Expr.offences := by
        rw [params.defaults_dealt]
        simp [List.flatMap_append, List.flatMap_map, List.flatMap_replicate]

theorem reports_params (params : Params Expr)
    (h : ∀ e ∈ params.defaults, (e.direct : Draft String).Reports e.offences) :
    ((params.map Expr.direct).direct : Draft String).Reports
      (params.map Expr.offences).offences := by
  have hall := reports_positional h
  have hdealt : (params.map Expr.offences).dealt.flatten = params.dealt.flatMap Expr.offences := by
    rw [params.dealt_map, List.flatMap_def]
  rw [Params.offences, hdealt, List.append_assoc]
  obtain ⟨loc, posOnly, args, rest, kwOnly, kwRest, defaults⟩ := params
  apply reports_clause
  · rintro param more rfl
    rfl
  · rintro rfl
    rcases kwRest with _ | param
    · exact hall.map
    · exact (reports_unsupported _ []).around param.loc

theorem reports_entry {key : Option Expr} {value : Expr}
    (hkey : ∀ e ∈ key, (e.direct : Draft String).Reports e.offences)
    (hvalue : (value.direct : Draft String).Reports value.offences) :
    (ExprForm.directEntry (key.map Expr.direct, value.direct) : Draft String).Reports
      (value.offences ++ (key.map Expr.offences).getD []) := by
  unfold ExprForm.directEntry
  rcases key with _ | e
  · exact hvalue.map.of_eq (List.append_nil _).symm
  · exact hvalue.bind fun _ _ => (hkey e rfl).map

end Draft

theorem ExprForm.draft_reports {form : ExprForm Expr}
    (ih : ∀ e ∈ form.children, (e.direct : Draft String).Reports e.offences) :
    ((form.map Expr.direct).direct : Draft String).Reports (form.map Expr.offences).offences := by
  have hlist : ∀ es : List Expr, (∀ e ∈ es, e ∈ form.children) →
      (all (es.map Expr.direct) : Draft (List String)).Reports (es.map Expr.offences).flatten := by
    intro es hes
    exact (Draft.reports_all fun e he => ih e (hes e he)).of_eq (List.flatMap_def ..)
  cases form with
  | boolOp op values => exact (hlist values fun e he => he).map
  | binOp left op right =>
    have hleft := (ih left (by simp [children])).read
    have hright := (ih right (by simp [children])).read
    by_cases hop : op = .floorDiv
    · subst hop
      refine (hleft.bind fun _ _ => hright.map).of_eq ?_
      simp [ExprForm.map, offences, BinaryOperator.offences]
    · have hsign := (BinaryOperator.draft_reports hop).read
      simp only [ExprForm.map, offences]
      rw [Simulation.direct_binOp hop, List.append_assoc]
      exact hleft.bind fun _ _ => hsign.bind fun _ _ => hright.map
  | unaryOp op operand =>
    have hop := (Draft.reports_pure op.spelling).read
    exact hop.bind fun _ _ => (ih operand (by simp [children])).read.map
  | lambda params body =>
    have hparams := Draft.reports_params params fun e he => ih e (by simp [children, he])
    have hbody := (ih body (by simp [children])).read
    exact (hparams.bind fun _ _ => hbody.map).inScope _
  | ifExp test body orelse =>
    have htest := (ih test (by simp [children])).read
    have hbody := (ih body (by simp [children])).read
    have horelse := (ih orelse (by simp [children])).read
    refine (htest.bind fun _ _ => hbody.bind fun _ _ => horelse.map).of_eq ?_
    exact (List.append_assoc ..).symm
  | dict keys values =>
    have hentries : ∀ entry ∈ keys.zip values,
        (directEntry (entry.1.map Expr.direct, entry.2.direct) : Draft String).Reports
          (entry.2.offences ++ (entry.1.map Expr.offences).getD []) := by
      rintro ⟨key, value⟩ hentry
      obtain ⟨hkey, hvalue⟩ := List.of_mem_zip hentry
      refine Draft.reports_entry (fun e he => ih e ?_) (ih value (by simp [children, hvalue]))
      apply List.mem_append_left
      exact List.mem_flatMap.mpr ⟨key, hkey, by simpa using he⟩
    simp only [ExprForm.map, ExprForm.direct, List.zip_map, List.map_map, offences]
    refine (Draft.reports_all hentries).map.of_eq ?_
    rw [List.flatMap_map]
    rfl
  | compare left ops comparators =>
    have hleft := (ih left (by simp [children])).read
    have hothers := hlist comparators fun e he => by simp [children, he]
    simp only [ExprForm.map, ExprForm.direct, offences, List.length_map]
    split
    · exact Draft.reports_fail ⟨.arity, []⟩ _
    · next hshape =>
      have hlength : ops.length = comparators.length := by simp_all
      rw [List.nil_append, List.append_assoc]
      refine hleft.bind fun l _ => hothers.bind fun others hothers => ?_
      -- there are as many texts as operands, so the chain ends with its operators
      have hcount := Draft.length_of_all hothers
      rw [List.length_map] at hcount
      refine (Draft.reports_comparisons ?_).map
      rw [List.length_cons, hcount, hlength]
  | call func args keywords =>
    have hfunc := (ih func (by simp [children])).read
    have hargs := (hlist args fun e he => by simp [children, he]).map (f := ", ".intercalate)
    simp only [ExprForm.map, offences, List.map_map, List.append_assoc]
    apply Draft.reports_clause
    · rintro keyword rest rfl
      rfl
    · rintro rfl
      exact hfunc.bind fun _ _ => hargs.read.map
  | constant value => exact Draft.reports_pure _
  | «attribute» value attr =>
    have hattr := (Draft.reports_pure attr).read
    refine ((ih value (by simp [children])).read.bind fun _ _ => hattr.map).of_eq ?_
    exact List.append_nil _
  | subscript value index =>
    have hindex := (ih index (by simp [children])).read
    exact (ih value (by simp [children])).read.bind fun _ _ => hindex.map
  | name id => exact (Draft.reports_pure id).read
  | list elts =>
    have helts := (hlist elts fun e he => he).map (f := ", ".intercalate)
    exact helts.read.map
  | starred value => exact (ih value (by simp [children])).read.map
  | _ => exact Draft.reports_unsupported _ _

theorem Expr.draft_reports (e : Expr) : (e.direct : Draft String).Reports e.offences := by
  induction e with
  | mk l form ih =>
    rw [Expr.direct_mk, Expr.offences_mk]
    exact (ExprForm.draft_reports ih).around l

/-! ### The rules for statements -/

theorem Draft.reports_optional (e : Option Expr) :
    (optional (e.map Expr.direct) : Draft String).Reports (e.toList.flatMap Expr.offences) := by
  rcases e with _ | e
  · exact reports_pure _
  · exact e.draft_reports.of_eq (by simp)

theorem StmtForm.draft_reports {form : StmtForm Stmt Expr}
    (ih : ∀ s ∈ form.children, (s.direct : Draft Sketch).Reports s.offences) :
    ((form.map fun s => (s.loc, (s.direct : Draft Sketch))).direct).Reports
      (form.map fun s => (s.loc, s.offences)).offences := by
  have hblock : ∀ ss : List Stmt, (∀ s ∈ ss, s ∈ form.children) →
      (read (lines ((ss.map fun s => (s.loc, (s.direct : Draft Sketch))).map Prod.snd))).Reports
        ((ss.map fun s => (s.loc, s.offences)).flatMap Prod.snd) := by
    intro ss hss
    rw [List.map_map, List.flatMap_map]
    exact (Draft.reports_lines fun s hs => ih s (hss s hs)).read
  have hexprs := fun es : List Expr => Draft.reports_all fun e (_ : e ∈ es) => e.draft_reports
  cases form with
  | functionDef name params body decorators =>
    have hname := (Draft.reports_pure name).read
    have hparams := Draft.reports_params params fun e _ => e.draft_reports
    have hbody := hblock body fun s hs => hs
    simp only [StmtForm.map, offences]
    rw [List.append_assoc]
    apply Draft.reports_clause
    · rintro decorator rest rfl
      rfl
    · rintro rfl
      exact hname.bind fun _ _ => (hparams.bind fun _ _ => hbody.wrap _ _).inScope _
  | ret value => exact (Draft.reports_optional value).read.thenText
  | delete targets => exact (hexprs targets).thenText
  | assign targets value =>
    have htargets : ∀ v : String, (lines (targets.map fun target => do
        let name ← target.direct
        Rendition.assign name v : List (Draft Sketch))).Reports (targets.flatMap Expr.offences) := by
      intro v
      apply Draft.reports_lines
      intro target _
      refine (target.draft_reports.bind fun name _ => Draft.reports_assign name v).of_eq ?_
      exact List.append_nil _
    exact value.draft_reports.read.bind fun v _ => htargets v
  | augAssign target op value =>
    have htarget := target.draft_reports
    have hvalue := value.draft_reports.read
    by_cases hop : op = .floorDiv
    · subst hop
      refine (htarget.readTwice.bind fun _ _ => hvalue.thenText).of_eq ?_
      simp [StmtForm.map, offences, BinaryOperator.offences]
    · have hsign := (BinaryOperator.draft_reports hop).read
      simp only [StmtForm.map, offences]
      rw [Simulation.direct_augAssign hop, List.append_assoc]
      exact htarget.read.bind fun _ _ => hsign.bind fun _ _ => hvalue.thenText
  | forLoop target iter body orelse =>
    have hiter := iter.draft_reports.read
    have hbody := hblock body fun s hs => by simp [children, hs]
    simp only [StmtForm.map, offences]
    rw [List.map_map, List.append_assoc, List.append_assoc]
    apply Draft.reports_clause
    · rintro stmt rest rfl
      rfl
    · rintro rfl
      obtain ⟨loc, form⟩ := target
      cases form with
      | name id => exact hiter.bind fun _ _ => (hbody.wrap _ _).inScope _
      | _ => exact (Draft.reports_unsupported _ []).around loc
  | whileLoop test body orelse =>
    have hbody := hblock body fun s hs => by simp [children, hs]
    simp only [StmtForm.map, offences]
    rw [List.map_map, List.append_assoc]
    apply Draft.reports_clause
    · rintro stmt rest rfl
      rfl
    · rintro rfl
      exact test.draft_reports.read.bind fun _ _ => hbody.wrap _ _
  | cond test body orelse =>
    have hbody := hblock body fun s hs => by simp [children, hs]
    have horelse := hblock orelse fun s hs => by simp [children, hs]
    simp only [StmtForm.map, offences]
    rw [List.append_assoc]
    exact test.draft_reports.read.bind fun _ _ => (hbody.wrap _ _).both (horelse.wrap _ _)
  | raise exc cause =>
    rcases cause with _ | cause
    · exact (Draft.reports_optional exc).read.thenText
    · exact (Draft.reports_unsupported _ []).around cause.loc
  | expr value => exact value.draft_reports.read.thenText
  | pass => exact Draft.reports_text _
  | breakLoop => exact Draft.reports_text _
  | continueLoop => exact Draft.reports_text _
  | _ => exact Draft.reports_unsupported _ _

theorem Stmt.draft_reports (s : Stmt) : (s.direct : Draft Sketch).Reports s.offences := by
  induction s with
  | mk l form ih =>
    rw [Stmt.direct_mk, Stmt.offences_mk]
    exact (StmtForm.draft_reports ih).around l

/-! ### Passes -/

theorem Draft.ofStmts_reports (stmts : List Stmt) :
    (Draft.ofStmts stmts).Reports (offencesOf stmts) :=
  reports_lines fun s _ => s.draft_reports

theorem Performs.error_iff {κ : Type} {s : ScopeStack} {d : Draft Sketch} {o : Outcome κ String}
    (h : Performs s d o) (e : RenderError) : o.result = .error e ↔ d.result = .error e := by
  rw [h.result]
  rcases d.result with err | sketch <;> simp [Except.map]

theorem Draft.Reports.error_iff {α : Type} {d : Draft α} {os : List Offence} (h : d.Reports os)
    (e : RenderError) : d.result = .error e ↔ ∃ o rest, os = o :: rest ∧ e = o.error := by
  rcases os with _ | ⟨o, rest⟩
  · obtain ⟨a, ha⟩ := h
    simp [ha]
  · rw [show d.result = .error o.error from h]
    simp [eq_comm]

/-- **The reported error** is about the first offence of the tree and has the first location on its
    trail that is not synthetic.  It does not depend on the keys, on the scopes or on the cache of the
    renderer.  No error is about a raw value, and the only field that can be missing are the operands
    of a comparison. -/
theorem renderStmts_reports_first {κ : Type} [DecidableEq κ] (keyOf : Place → κ) (stmts : List Stmt)
    (hkeys : Set.InjOn keyOf (nodesOf stmts)) (r : Renderer κ) (e : RenderError) :
    ((Renderer.renderStmts keyOf stmts r).result = .error e ↔
      ∃ o rest, offencesOf stmts = o :: rest ∧ e.fault = o.cause.fault ∧
        e.loc = o.trail.find? fun l => !l.isSynthetic) ∧
    ((Renderer.renderStmts keyOf stmts r).result = .error e →
      (∃ what, e.fault = .unsupported what) ∨
        e.fault = .missingField (.expr .compare) .comparators) := by
  have hfirst : (Renderer.renderStmts keyOf stmts r).result = .error e ↔
      ∃ o rest, offencesOf stmts = o :: rest ∧ e = o.error :=
    ((performs_pass keyOf hkeys r).error_iff e).trans ((Draft.ofStmts_reports stmts).error_iff e)
  rw [hfirst]
  constructor
  · obtain ⟨fault, loc⟩ := e
    simp [Offence.error, Offence.loc?]
  · rintro ⟨⟨cause, trail⟩, rest, -, rfl⟩
    rcases cause with what | _
    · exact .inl ⟨what, rfl⟩
    · exact .inr rfl

/-- An assignment to a tuple, of a dictionary with a tuple for the only value and a set for its key.
    The dictionary and the tuple in it are synthetic. -/
def tangledAssign : List Stmt :=
  [⟨⟨7, 0⟩, .assign [⟨⟨7, 1⟩, .tuple []⟩]
    ⟨.synthetic, .dict [some ⟨⟨7, 6⟩, .set []⟩] [⟨.synthetic, .tuple []⟩]⟩⟩]

theorem renderStmts_reports_first_tangledAssign :
    Set.InjOn id (nodesOf tangledAssign) ∧
    (offencesOf tangledAssign).map Offence.error =
      [⟨.unsupported (.node (.expr .tuple)), some ⟨7, 0⟩⟩,
        ⟨.unsupported (.node (.expr .set)), some ⟨7, 6⟩⟩,
        ⟨.unsupported (.node (.expr .tuple)), some ⟨7, 1⟩⟩] ∧
    (Renderer.renderStmts id tangledAssign Renderer.new).result =
      .error ⟨.unsupported (.node (.expr .tuple)), some ⟨7, 0⟩⟩ := by
  have hkeys : Set.InjOn id (nodesOf tangledAssign) := Set.injOn_id _
  have hreports := renderStmts_reports_first id tangledAssign hkeys Renderer.new
  refine ⟨hkeys, rfl, ?_⟩
  apply (hreports _).1.mpr
  exact ⟨_, _, rfl, rfl, rfl⟩

end ScriptTree
