/-
  ScriptTree/Proofs/EventTrail.lean
  =================================
  **What a successful pass reports.**  The trail of a tree lists, in the order of rendering, where a
  scope is opened and closed and which target is assigned to.  It is read off the tree: a function,
  a loop over elements and a lambda in reach leave one pair of marks each, and an assignment one mark
  per target.  If a tree can be rendered, then its events are its trail, mark by mark
  (`Stmt.draft_traces`).

  In particular the target of a floor division in place leaves its marks once, although the text has
  it twice: the second reading finds the text of the first.
-/
import ScriptTree.Proofs.FieldCounts
import ScriptTree.Proofs.VarPlacement
import Mathlib.Data.List.Forall2

namespace ScriptTree

open Rendition

variable {α β : Type}

/-! ### Trails -/

/-- Something on the way through a tree that is reported. -/
inductive Mark where
  /-- A node of the kind opens a scope. -/
  | opened (kind : NodeKind)
  | closed (kind : NodeKind)
  | assigned (target : Expr)

/-- An event that reports a mark. -/
inductive Mark.Shows : Mark → Event → Prop
  | opened {kind : NodeKind} {depth : Nat} : Shows (.opened kind) (.enteredScope depth)
  | closed {kind : NodeKind} {depth : Nat} : Shows (.closed kind) (.exitedScope depth)
  | assigned {target : Expr} {name : String} {declared : Bool} :
      target.text = .ok name → Shows (.assigned target) (.assignment name declared)

/-- The marks between the two of a node that has a scope. -/
def scopeMarks (kind : NodeKind) (inner : List Mark) : List Mark :=
  .opened kind :: inner ++ [.closed kind]

/-- The trail of a form, from those of its children. -/
def ExprForm.trail : ExprForm (List Mark) → List Mark
  | .lambda params body => scopeMarks (.expr .lambda) (params.dealt.flatten ++ body)
  | form => form.reached.flatten

def Expr.trail : Expr → List Mark := Expr.fold fun _ form => form.trail

/-- The trail of a form, from those of the statements below it. -/
def StmtForm.trail : StmtForm (List Mark) Expr → List Mark
  | .functionDef _ params body _ =>
    scopeMarks (.stmt .functionDef) (params.dealt.flatMap Expr.trail ++ body.flatten)
  | .forLoop _ iter body _ => iter.trail ++ scopeMarks (.stmt .forLoop) body.flatten
  | .assign targets value =>
    value.trail ++ targets.flatMap fun target => target.trail ++ [.assigned target]
  | form => form.exprs.flatMap Expr.trail ++ form.children.flatten

def Stmt.trail : Stmt → List Mark := Stmt.fold fun _ form => form.trail

theorem Expr.trail_mk (l : Loc) (form : ExprForm Expr) :
    Expr.trail ⟨l, form⟩ = (form.map Expr.trail).trail :=
  Expr.fold_mk _ l form

theorem Stmt.trail_mk (l : Loc) (form : StmtForm Stmt Expr) :
    Stmt.trail ⟨l, form⟩ = (form.map Stmt.trail).trail :=
  Stmt.fold_mk _ l form

/-! ### Drafts that leave a trail -/

namespace ScopeStack

theorem depth_scope (s : ScopeStack) (names : List String) :
    (s.enter.declare names).depth = s.depth + 1 := by
  rw [depth, size_declare, size_enter]
  rfl

theorem depth_exit {s : ScopeStack} (h : 1 < s.depth) : s.exit.depth = s.depth - 1 := by
  rw [depth, frames_exit s h, Array.size_pop]
  rfl

end ScopeStack

theorem Act.depth_after_assign (s : ScopeStack) (name : String) :
    (Act.after s (.assign name)).depth = s.depth := by
  rw [Act.after]
  split
  · exact s.size_declare [name]
  · rfl

namespace Draft

/-- If the draft succeeds, then the events of its acts are the marks, and as many scopes are open
    after it as before. -/
def Traces (d : Draft α) (marks : List Mark) : Prop :=
  ∀ a, d.result = .ok a → ∀ s, (scopesAfter s d.acts).depth = s.depth ∧
    List.Forall₂ Mark.Shows marks (eventsOf s d.acts)

variable {d : Draft α} {marks marks' : List Mark}

theorem Traces.of_eq (h : d.Traces marks) (heq : marks = marks') : d.Traces marks' := heq ▸ h

theorem traces_pure (a : α) : (pure a : Draft α).Traces [] := fun _ _ _ => ⟨rfl, .nil⟩

theorem traces_fail (e : RenderError) : (fail e : Draft α).Traces marks := by
  rintro a ⟨⟩

theorem traces_text (t : String) : (text t : Draft Sketch).Traces [] := fun _ _ _ => ⟨rfl, .nil⟩

theorem traces_assign {target : Expr} {name : String} (h : target.text = .ok name) (value : String) :
    (Rendition.assign name value : Draft Sketch).Traces [.assigned target] := by
  intro _ _ s
  exact ⟨Act.depth_after_assign s name, .cons (.assigned h) .nil⟩

theorem Traces.bind {f : α → Draft β} (hd : d.Traces marks)
    (hf : ∀ a, d.result = .ok a → (f a).Traces marks') : (d >>= f).Traces (marks ++ marks') := by
  intro b hb s
  obtain ⟨a, ha, hfa⟩ := result_of_bind hb
  obtain ⟨hdepth, hmarks⟩ := hd a ha s
  obtain ⟨hdepth', hmarks'⟩ := hf a ha b hfa (scopesAfter s d.acts)
  rw [bind_of_ok ha]
  simp only [scopesAfter_append, eventsOf_append]
  exact ⟨hdepth'.trans hdepth, List.rel_append hmarks hmarks'⟩

theorem Traces.map {f : α → β} (hd : d.Traces marks) :
    (d >>= fun a => pure (f a)).Traces marks :=
  (hd.bind fun a _ => traces_pure (f a)).of_eq (List.append_nil _)

theorem Traces.thenText {f : α → String} (hd : d.Traces marks) :
    (d >>= fun a => text (f a) : Draft Sketch).Traces marks :=
  (hd.bind fun a _ => traces_text (f a)).of_eq (List.append_nil _)

theorem Traces.around (l : Loc) (hd : d.Traces marks) : (Rendition.around l d).Traces marks :=
  fun a ha => hd a (result_of_around ha)

theorem Traces.andThen {acts : List Act} (hd : d.Traces marks)
    (hstay : ∀ s, scopesAfter s acts = s) (hsilent : ∀ s, eventsOf s acts = []) :
    (d.andThen acts).Traces marks := by
  intro a ha s
  have hok : d.result = .ok a := (d.andThen_result _).symm.trans ha
  obtain ⟨hdepth, hmarks⟩ := hd a hok s
  rw [andThen_of_ok _ hok]
  simp only [scopesAfter_append, eventsOf_append, hstay, hsilent, List.append_nil]
  exact ⟨hdepth, hmarks⟩

theorem Traces.read (hd : d.Traces marks) : (Rendition.read d).Traces marks :=
  hd.andThen (fun _ => rfl) fun _ => rfl

/-- What is read twice is rendered once. -/
theorem Traces.readTwice {d : Draft String} (hd : d.Traces marks) :
    (Rendition.readTwice d).Traces marks := by
  have hboth : (d.andThen [.compute, .reuse]).Traces marks := hd.andThen (fun _ => rfl) fun _ => rfl
  intro pair hpair s
  replace hpair : d.result.map _ = .ok pair := hpair
  rcases hok : d.result with e | a
  · rw [hok] at hpair
    cases hpair
  · exact hboth a ((d.andThen_result _).trans hok) s

/-- If what is done inside a scope closes the scopes it opens, then the scope itself is closed. -/
theorem acts_inScope {names : List String} {s : ScopeStack}
    (h : (scopesAfter (s.enter.declare names) d.acts).depth = (s.enter.declare names).depth) :
    (scopesAfter s (Rendition.inScope names d).acts).depth = s.depth ∧
    eventsOf s (Rendition.inScope names d).acts =
      .enteredScope (s.depth + 1) :: eventsOf (s.enter.declare names) d.acts ++
        [.exitedScope s.depth] := by
  rw [ScopeStack.depth_scope] at h
  have hpositive : 0 < s.depth := s.nonempty
  have hopen : 1 < (scopesAfter (s.enter.declare names) d.acts).depth := by omega
  have hexit : (scopesAfter (s.enter.declare names) d.acts).exit.depth = s.depth := by
    rw [ScopeStack.depth_exit hopen, h]
    rfl
  have hacts : (Rendition.inScope names d).acts = .enter names :: d.acts ++ [.leave] := rfl
  have hleave : eventsOf (scopesAfter (s.enter.declare names) d.acts) [.leave] =
      [.exitedScope s.depth] := by
    rw [eventsOf, Act.events, if_pos hopen, hexit]
    rfl
  rw [hacts, scopesAfter_append, eventsOf_append]
  refine ⟨hexit, ?_⟩
  show .enteredScope s.enter.depth :: eventsOf (s.enter.declare names) d.acts ++ eventsOf _ [.leave] = _
  rw [show s.enter.depth = s.depth + 1 from s.size_enter]
  exact congrArg _ hleave

theorem Traces.inScope (kind : NodeKind) (names : List String) (hd : d.Traces marks) :
    (Rendition.inScope names d).Traces (scopeMarks kind marks) := by
  intro a ha s
  obtain ⟨hdepth, hmarks⟩ := hd a ha (s.enter.declare names)
  obtain ⟨hclosed, hevents⟩ := acts_inScope hdepth
  rw [hevents]
  exact ⟨hclosed, List.rel_append (.cons .opened hmarks) (.cons .closed .nil)⟩

theorem traces_given (x : Except RenderError α) : (given x : Draft α).Traces [] := by
  rcases x with e | a
  · exact traces_fail e
  · exact traces_pure a

theorem Traces.both {d e : Draft Sketch} (hd : d.Traces marks) (he : e.Traces marks') :
    (Rendition.both d e).Traces (marks ++ marks') :=
  hd.bind fun _ _ => he.map

theorem Traces.wrap {d : Draft Sketch} (before after : String) (hd : d.Traces marks) :
    (Rendition.wrap before d after).Traces marks :=
  (((traces_text before).both hd).both (traces_text after)).of_eq (by simp)

theorem traces_all {γ : Type} {f : γ → Draft α} {trail : γ → List Mark} {xs : List γ}
    (h : ∀ x ∈ xs, (f x).Traces (trail x)) : (all (xs.map f)).Traces (xs.flatMap trail) := by
  induction xs with
  | nil => exact traces_pure []
  | cons x rest ih =>
    rw [List.forall_mem_cons] at h
    rw [List.flatMap_cons]
    exact h.1.bind fun _ _ => (ih h.2).map

theorem traces_lines {γ : Type} {f : γ → Draft Sketch} {trail : γ → List Mark} {xs : List γ}
    (h : ∀ x ∈ xs, (f x).Traces (trail x)) : (lines (xs.map f)).Traces (xs.flatMap trail) := by
  induction xs with
  | nil => exact traces_text ""
  | cons x rest ih =>
    rw [List.forall_mem_cons] at h
    rw [List.flatMap_cons]
    rcases rest with _ | ⟨next, rest⟩
    · exact h.1.of_eq (by simp)
    · exact (h.1.wrap "" ";\n").both (ih h.2)

end Draft

/-! ### The rules for expressions -/

namespace Draft

theorem traces_param {params : Params Expr} (i : Nat) (param : Param)
    (h : ∀ e ∈ params.defaults, (e.direct : Draft String).Traces e.trail) :
    ((params.map Expr.direct).directParam i param : Draft String).Traces
      ((params.default? i).elim [] Expr.trail) := by
  have hindex : (params.map (Expr.direct (M := Draft))).defaultIndex? i = params.defaultIndex? i := by
    simp [Params.defaultIndex?, Params.map, Params.positional]
  rw [Params.directParam, Params.default?, hindex]
  rcases params.defaultIndex? i with _ | j
  · exact traces_pure _
  · have hdefault : (params.map (Expr.direct (M := Draft))).defaults[j]? =
        params.defaults[j]?.map Expr.direct := List.getElem?_map
    simp only [hdefault, Option.bind_some]
    rcases hj : params.defaults[j]? with _ | e
    · exact traces_pure _
    · exact (h e (List.mem_of_getElem? hj)).map

theorem traces_params (params : Params Expr)
    (h : ∀ e ∈ params.defaults, (e.direct : Draft String).Traces e.trail) :
    ((params.map Expr.direct).direct : Draft String).Traces (params.dealt.flatMap Expr.trail) := by
  have hall : (all (params.positional.mapIdx (params.map Expr.direct).directParam) :
      Draft (List String)).Traces (params.dealt.flatMap Expr.trail) := by
    rw [List.mapIdx_eq_zipIdx_map]
    refine (traces_all fun x _ => traces_param x.2 x.1 h).of_eq ?_
    calc params.positional.zipIdx.flatMap (fun x => (params.default? x.2).elim [] Expr.trail)
        = ((List.range params.positional.length).map params.default?).flatMap
            fun e => e.elim [] Expr.trail := by
          rw [List.range_eq_range', ← List.zipIdx_map_snd, List.flatMap_map, List.flatMap_map]
      _ = params.dealt.flatMap Expr.trail := by
          rw [params.defaults_dealt]
          simp [List.flatMap_append, List.flatMap_map, List.flatMap_replicate]
  obtain ⟨loc, posOnly, args, rest, kwOnly, kwRest, defaults⟩ := params
  rcases kwOnly with _ | ⟨param, more⟩
  · rcases kwRest with _ | param
    · exact hall.map
    · exact (traces_fail _).around _
  · exact (traces_fail _).around _

theorem traces_entry {key : Option Expr} {value : Expr}
    (hkey : ∀ e ∈ key, (e.direct : Draft String).Traces e.trail)
    (hvalue : (value.direct : Draft String).Traces value.trail) :
    (ExprForm.directEntry (key.map Expr.direct, value.direct) : Draft String).Traces
      (value.trail ++ (key.map Expr.trail).toList.flatten) := by
  unfold ExprForm.directEntry
  rcases key with _ | e
  · exact hvalue.map.of_eq (List.append_nil _).symm
  · exact (hvalue.bind fun _ _ => (hkey e rfl).map).of_eq (by simp)

end Draft

/-- A form leaves the trails of its children in reach, in a scope if it is a lambda. -/
theorem ExprForm.draft_traces {form : ExprForm Expr}
    (ih : ∀ e ∈ form.children, (e.direct : Draft String).Traces e.trail) :
    ((form.map Expr.direct).direct : Draft String).Traces (form.map Expr.trail).trail := by
  have hlist : ∀ es : List Expr, (∀ e ∈ es, e ∈ form.children) →
      (all (es.map Expr.direct) : Draft (List String)).Traces (es.map Expr.trail).flatten := by
    intro es hes
    exact (Draft.traces_all fun e he => ih e (hes e he)).of_eq (List.flatMap_def ..)
  cases form with
  | boolOp op values => exact (hlist values fun e he => he).map
  | binOp left op right =>
    have hleft := (ih left (by simp [children])).read
    have hright := (ih right (by simp [children])).read
    by_cases hop : op = .floorDiv
    · subst hop
      refine (hleft.bind fun _ _ => hright.map).of_eq ?_
      simp [ExprForm.map, trail, reached, children]
    · have hsign := (Draft.traces_given op.spell).read
      simp only [ExprForm.map]
      rw [Simulation.direct_binOp hop]
      refine (hleft.bind fun _ _ => hsign.bind fun _ _ => hright.map).of_eq ?_
      simp [trail, reached, children]
  | unaryOp op operand =>
    have hop := (Draft.traces_pure op.spelling).read
    have hoperand := (ih operand (by simp [children])).read
    refine (hop.bind fun _ _ => hoperand.map).of_eq ?_
    simp [ExprForm.map, trail, reached, children]
  | lambda params body =>
    have hparams := Draft.traces_params params fun e he => ih e (by simp [children, he])
    have hbody := (ih body (by simp [children])).read
    refine ((hparams.bind fun _ _ => hbody.map).inScope (.expr .lambda) _).of_eq ?_
    simp only [ExprForm.map, trail, params.dealt_map, List.flatMap_def]
  | ifExp test body orelse =>
    have htest := (ih test (by simp [children])).read
    have hbody := (ih body (by simp [children])).read
    have horelse := (ih orelse (by simp [children])).read
    refine (htest.bind fun _ _ => hbody.bind fun _ _ => horelse.map).of_eq ?_
    simp [ExprForm.map, trail, reached, children]
  | dict keys values =>
    have hentries : ∀ entry ∈ keys.zip values,
        (directEntry (entry.1.map Expr.direct, entry.2.direct) : Draft String).Traces
          (entry.2.trail ++ (entry.1.map Expr.trail).toList.flatten) := by
      rintro ⟨key, value⟩ hentry
      obtain ⟨hkey, hvalue⟩ := List.of_mem_zip hentry
      refine Draft.traces_entry (fun e he => ih e ?_) (ih value (by simp [children, hvalue]))
      apply List.mem_append_left
      exact List.mem_flatMap.mpr ⟨key, hkey, by simpa using he⟩
    simp only [ExprForm.map, ExprForm.direct, List.zip_map, List.map_map, trail, reached]
    refine (Draft.traces_all hentries).map.of_eq ?_
    rw [List.flatMap_map, ← List.flatMap_id, List.flatMap_assoc]
    simp
  | compare left ops comparators =>
    have hleft := (ih left (by simp [children])).read
    have hothers := hlist comparators fun e he => by simp [children, he]
    simp only [ExprForm.map, ExprForm.direct]
    split
    · exact Draft.traces_fail _
    · refine (hleft.bind fun _ _ => hothers.bind fun _ _ => (Draft.traces_given _).map).of_eq ?_
      simp [trail, reached, children]
  | call func args keywords =>
    have hfunc := (ih func (by simp [children])).read
    have hargs := (hlist args fun e he => by simp [children, he]).map (f := ", ".intercalate)
    rcases keywords with _ | ⟨keyword, rest⟩
    · refine (hfunc.bind fun _ _ => hargs.read.map).of_eq ?_
      simp [ExprForm.map, trail, reached, children]
    · exact (Draft.traces_fail _).around _
  | constant value => exact Draft.traces_pure _
  | «attribute» value attr =>
    have hvalue := (ih value (by simp [children])).read
    have hattr := (Draft.traces_pure attr).read
    refine (hvalue.bind fun _ _ => hattr.map).of_eq ?_
    simp [ExprForm.map, trail, reached, children]
  | subscript value index =>
    have hvalue := (ih value (by simp [children])).read
    have hindex := (ih index (by simp [children])).read
    refine (hvalue.bind fun _ _ => hindex.map).of_eq ?_
    simp [ExprForm.map, trail, reached, children]
  | name id => exact (Draft.traces_pure id).read
  | list elts => exact ((hlist elts fun e he => he).map (f := ", ".intercalate)).read.map
  | starred value =>
    refine (ih value (by simp [children])).read.map.of_eq ?_
    simp [ExprForm.map, trail, reached, children]
  | _ => exact Draft.traces_fail _

theorem Expr.draft_traces (e : Expr) : (e.direct : Draft String).Traces e.trail := by
  induction e with
  | mk l form ih =>
    rw [Expr.direct_mk, Expr.trail_mk]
    exact (ExprForm.draft_traces ih).around l

/-! ### The rules for statements -/

theorem Draft.traces_optional (e : Option Expr) :
    (optional (e.map Expr.direct) : Draft String).Traces (e.toList.flatMap Expr.trail) := by
  rcases e with _ | e
  · exact traces_pure _
  · exact e.draft_traces.of_eq (by simp)

theorem Draft.traces_target (target : Expr) (value : String) :
    (do
      let name ← target.direct
      Rendition.assign name value : Draft Sketch).Traces (target.trail ++ [.assigned target]) := by
  refine target.draft_traces.bind fun name hname => traces_assign ?_ value
  rw [target.text_eq_draft, hname]

theorem StmtForm.draft_traces {form : StmtForm Stmt Expr}
    (ih : ∀ s ∈ form.children, (s.direct : Draft Sketch).Traces s.trail) :
    ((form.map fun s => (s.loc, (s.direct : Draft Sketch))).direct).Traces
      (form.map Stmt.trail).trail := by
  have hblock : ∀ ss : List Stmt, (∀ s ∈ ss, s ∈ form.children) →
      (read (lines ((ss.map fun s => (s.loc, (s.direct : Draft Sketch))).map Prod.snd))).Traces
        (ss.map Stmt.trail).flatten := by
    intro ss hss
    rw [List.map_map, ← List.flatMap_def]
    exact (Draft.traces_lines fun s hs => ih s (hss s hs)).read
  have hexprs := fun es : List Expr => Draft.traces_all fun e (_ : e ∈ es) => e.draft_traces
  cases form with
  | functionDef name params body decorators =>
    have hname := (Draft.traces_pure name).read
    have hparams := Draft.traces_params params fun e _ => e.draft_traces
    have hbody := hblock body fun s hs => hs
    rcases decorators with _ | ⟨decorator, rest⟩
    · exact hname.bind fun _ _ => (hparams.bind fun _ _ => hbody.wrap _ _).inScope _ _
    · exact (Draft.traces_fail _).around _
  | ret value =>
    refine (Draft.traces_optional value).read.thenText.of_eq ?_
    simp [StmtForm.map, trail, exprs, children]
  | delete targets =>
    refine (hexprs targets).thenText.of_eq ?_
    simp [StmtForm.map, trail, exprs, children]
  | assign targets value =>
    exact value.draft_traces.read.bind fun v _ =>
      Draft.traces_lines fun target _ => Draft.traces_target target v
  | augAssign target op value =>
    have htarget := target.draft_traces
    have hvalue := value.draft_traces.read
    by_cases hop : op = .floorDiv
    · subst hop
      refine (htarget.readTwice.bind fun _ _ => hvalue.thenText).of_eq ?_
      simp [StmtForm.map, trail, exprs, children]
    · have hsign := (Draft.traces_given op.spell).read
      simp only [StmtForm.map]
      rw [Simulation.direct_augAssign hop]
      refine (htarget.read.bind fun _ _ => hsign.bind fun _ _ => hvalue.thenText).of_eq ?_
      simp [trail, exprs, children]
  | forLoop target iter body orelse =>
    have hiter := iter.draft_traces.read
    have hbody := hblock body fun s hs => by simp [children, hs]
    rcases orelse with _ | ⟨stmt, rest⟩
    · obtain ⟨loc, form⟩ := target
      cases form with
      | name id => exact hiter.bind fun _ _ => (hbody.wrap _ _).inScope _ _
      | _ => exact (Draft.traces_fail _).around _
    · exact (Draft.traces_fail _).around _
  | whileLoop test body orelse =>
    have htest := test.draft_traces.read
    have hbody := hblock body fun s hs => by simp [children, hs]
    rcases orelse with _ | ⟨stmt, rest⟩
    · refine (htest.bind fun _ _ => hbody.wrap _ _).of_eq ?_
      simp [StmtForm.map, trail, exprs, children]
    · exact (Draft.traces_fail _).around _
  | cond test body orelse =>
    have htest := test.draft_traces.read
    have hbody := hblock body fun s hs => by simp [children, hs]
    have horelse := hblock orelse fun s hs => by simp [children, hs]
    refine (htest.bind fun _ _ => (hbody.wrap _ _).both (horelse.wrap _ _)).of_eq ?_
    simp [StmtForm.map, trail, exprs, children]
  | raise exc cause =>
    rcases cause with _ | cause
    · refine (Draft.traces_optional exc).read.thenText.of_eq ?_
      simp [StmtForm.map, trail, exprs, children]
    · exact (Draft.traces_fail _).around _
  | expr value =>
    refine value.draft_traces.read.thenText.of_eq ?_
    simp [StmtForm.map, trail, exprs, children]
  | pass => exact Draft.traces_text _
  | breakLoop => exact Draft.traces_text _
  | continueLoop => exact Draft.traces_text _
  | _ => exact Draft.traces_fail _

theorem Stmt.draft_traces (s : Stmt) : (s.direct : Draft Sketch).Traces s.trail := by
  induction s with
  | mk l form ih =>
    rw [Stmt.direct_mk, Stmt.trail_mk]
    exact (StmtForm.draft_traces ih).around l

/-! ### How many scopes are opened -/

/-- Whether the nodes of a kind open a scope. -/
def NodeKind.opensScope : NodeKind → Bool
  | .stmt .functionDef | .stmt .forLoop | .expr .lambda => true
  | _ => false

/-- The kinds of all nodes of an expression that are rendered. -/
def Expr.renderedKinds : Expr → List NodeKind :=
  Expr.fold fun _ form => .expr form.kind :: form.reached.flatten

def StmtForm.renderedKinds : StmtForm (List NodeKind) Expr → List NodeKind
  | .functionDef _ params body _ =>
    .stmt .functionDef :: (params.dealt.flatMap Expr.renderedKinds ++ body.flatten)
  -- the target of a loop is not rendered
  | .forLoop _ iter body _ => .stmt .forLoop :: (iter.renderedKinds ++ body.flatten)
  | form => .stmt form.kind :: (form.exprs.flatMap Expr.renderedKinds ++ form.children.flatten)

/-- The kinds of all nodes of a statement that are rendered. -/
def Stmt.renderedKinds : Stmt → List NodeKind := Stmt.fold fun _ form => form.renderedKinds

theorem Expr.renderedKinds_mk (l : Loc) (form : ExprForm Expr) :
    Expr.renderedKinds ⟨l, form⟩ = .expr (form.map Expr.renderedKinds).kind ::
      (form.map Expr.renderedKinds).reached.flatten :=
  Expr.fold_mk _ l form

theorem Stmt.renderedKinds_mk (l : Loc) (form : StmtForm Stmt Expr) :
    Stmt.renderedKinds ⟨l, form⟩ = (form.map Stmt.renderedKinds).renderedKinds :=
  Stmt.fold_mk _ l form

def Mark.isOpened : Mark → Bool
  | .opened _ => true
  | .closed _ | .assigned _ => false

def Event.isEntered : Event → Bool
  | .enteredScope _ => true
  | _ => false

theorem ExprForm.reached_map {ε φ : Type} (f : ε → φ) (form : ExprForm ε) :
    (form.map f).reached = form.reached.map f := by
  have hoption : ∀ o : Option ε, (o.map f).toList = o.toList.map f := by
    intro o
    cases o <;> rfl
  have hchildren := children_map f form
  cases form with
  | lambda params body => simp [map, reached, params.dealt_map]
  | dict keys values =>
    simp [map, reached, List.zip_map, List.flatMap_map, List.map_flatMap, hoption]
  | _ => exact hchildren

theorem ExprForm.mem_children_of_reached {ε : Type} {form : ExprForm ε} {c : ε}
    (h : c ∈ form.reached) : c ∈ form.children := by
  cases form with
  | lambda params body =>
    rcases List.mem_append.mp h with h | h
    · exact List.mem_append_left _ (List.mem_of_mem_take h)
    · exact List.mem_append_right _ h
  | dict keys values =>
    obtain ⟨⟨key, value⟩, hentry, h⟩ := List.mem_flatMap.mp h
    obtain ⟨hkey, hvalue⟩ := List.of_mem_zip hentry
    rcases List.mem_cons.mp h with rfl | h
    · exact List.mem_append_right _ hvalue
    · exact List.mem_append_left _ (List.mem_flatMap.mpr ⟨key, hkey, h⟩)
  | _ => exact h

theorem countP_scopeMarks (kind : NodeKind) (inner : List Mark) :
    (scopeMarks kind inner).countP Mark.isOpened = inner.countP Mark.isOpened + 1 := by
  simp [scopeMarks, List.countP_cons, Mark.isOpened]

theorem ExprForm.countP_trail (form : ExprForm (List Mark)) :
    form.trail.countP Mark.isOpened =
      (form.reached.map (List.countP Mark.isOpened)).sum +
        if (NodeKind.expr form.kind).opensScope then 1 else 0 := by
  cases form with
  | lambda params body =>
    rw [trail, countP_scopeMarks, List.countP_append, List.countP_flatten, reached]
    simp [kind, NodeKind.opensScope]
  | _ => exact List.countP_flatten

/-- An expression opens a scope for each of its lambdas that are rendered. -/
theorem Expr.countP_trail (e : Expr) :
    e.trail.countP Mark.isOpened = e.renderedKinds.countP NodeKind.opensScope := by
  induction e with
  | mk l form ih =>
    have hkind : (form.map Expr.trail).kind = (form.map Expr.renderedKinds).kind := by
      cases form <;> rfl
    have hchildren : form.reached.map (List.countP Mark.isOpened ∘ Expr.trail) =
        form.reached.map (List.countP NodeKind.opensScope ∘ Expr.renderedKinds) :=
      List.map_congr_left fun e he => ih e (ExprForm.mem_children_of_reached he)
    rw [trail_mk, ExprForm.countP_trail, renderedKinds_mk, List.countP_cons, List.countP_flatten,
      ExprForm.reached_map, ExprForm.reached_map, List.map_map, List.map_map, hkind, hchildren]

theorem countP_exprTrails (es : List Expr) :
    (es.flatMap Expr.trail).countP Mark.isOpened =
      (es.flatMap Expr.renderedKinds).countP NodeKind.opensScope := by
  simp only [List.countP_flatMap, Function.comp_def, Expr.countP_trail]

/-- A statement opens a scope for each of its functions and loops over elements and for each lambda
    that is rendered. -/
theorem Stmt.countP_trail (s : Stmt) :
    s.trail.countP Mark.isOpened = s.renderedKinds.countP NodeKind.opensScope := by
  induction s with
  | mk l form ih =>
    have hblock : ∀ ss : List Stmt, (∀ s ∈ ss, s ∈ form.children) →
        (ss.map Stmt.trail).flatten.countP Mark.isOpened =
          (ss.map Stmt.renderedKinds).flatten.countP NodeKind.opensScope := by
      intro ss hss
      rw [List.countP_flatten, List.countP_flatten, List.map_map, List.map_map]
      exact congrArg List.sum (List.map_congr_left fun s hs => ih s (hss s hs))
    have hrest : ((form.map Stmt.trail).exprs.flatMap Expr.trail ++
          (form.map Stmt.trail).children.flatten).countP Mark.isOpened =
        ((form.map Stmt.renderedKinds).exprs.flatMap Expr.renderedKinds ++
          (form.map Stmt.renderedKinds).children.flatten).countP NodeKind.opensScope := by
      rw [StmtForm.exprs_map, StmtForm.exprs_map, StmtForm.children_map, StmtForm.children_map,
        List.countP_append, List.countP_append, countP_exprTrails, hblock form.children fun s hs => hs]
    rw [trail_mk, renderedKinds_mk]
    cases form with
    | functionDef name params body decorators =>
      simp only [StmtForm.map, StmtForm.trail, StmtForm.renderedKinds, countP_scopeMarks,
        List.countP_append, List.countP_cons, countP_exprTrails, hblock body fun s hs => hs]
      rfl
    | forLoop target iter body orelse =>
      have hbody := hblock body fun s hs => by simp [StmtForm.children, hs]
      simp only [StmtForm.map, StmtForm.trail, StmtForm.renderedKinds, countP_scopeMarks,
        List.countP_append, List.countP_cons, iter.countP_trail, hbody]
      rfl
    | assign targets value =>
      have htargets : (targets.flatMap fun target => target.trail ++ [.assigned target]).countP
          Mark.isOpened = (targets.flatMap Expr.renderedKinds).countP NodeKind.opensScope := by
        rw [← countP_exprTrails, List.countP_flatMap, List.countP_flatMap]
        simp [Function.comp_def, Mark.isOpened]
      simp only [StmtForm.map, StmtForm.trail, List.countP_append, value.countP_trail, htargets]
      simp [StmtForm.renderedKinds, StmtForm.exprs, StmtForm.children, StmtForm.kind,
        NodeKind.opensScope, Nat.add_comm]
    | _ => exact hrest

theorem countP_isEntered {marks : List Mark} {es : List Event}
    (h : List.Forall₂ Mark.Shows marks es) :
    es.countP Event.isEntered = marks.countP Mark.isOpened := by
  induction h with
  | nil => rfl
  | @cons mark event marks es hshows _ ih =>
    have hone : event.isEntered = mark.isOpened := by
      cases hshows <;> rfl
    rw [List.countP_cons, List.countP_cons, ih, hone]

end ScriptTree
