/-
  ScriptTree/Proofs/NestedTexts.lean
  ==================================
  **Rendered texts nest, and those of expressions hold together.**  Take a tree whose names are words
  and whose strings mean themselves between two quotes (`Expr.Tidy`, `Stmt.Tidy`).  Then the brackets
  of every rendered text match and nest outside of strings, and outside of all brackets the text of
  an expression has no blank, no comma and no semicolon: wherever it is put, it is not split
  (`rendered_nested_unsplit`).

  Strings are written as they are, so it is for the tree to see that they mean themselves.  In a script
  it is not enough that they have no quotes: behind a backslash at the end of a string the quote does
  not end it (`backslash_keeps_string_open`).

  The plain renderer makes the same texts as the one with a cache.  What its actions ensure is
  gathered in `Plain.Ensures`, with one lemma per building block of the rules; the texts themselves
  are followed in `Nesting`.
-/
import ScriptTree.Proofs.CacheTransparency
import ScriptTree.Proofs.Nesting
import ScriptTree.Proofs.Subtrees

namespace ScriptTree

open Rendition

/-! ### Tidy trees -/

/-- The names that the rule of a form writes. -/
def ExprForm.names {ε : Type} : ExprForm ε → List String
  | .name id => [id]
  | .attribute _ attr => [attr]
  | .lambda params _ => params.boundNames
  | _ => []

def ExprForm.strings {ε : Type} : ExprForm ε → List String
  | .constant (.str s) => [s]
  | _ => []

def StmtForm.names {σ ε : Type} : StmtForm σ ε → List String
  | .functionDef name params _ _ => name :: params.boundNames
  | _ => []

/-- A form whose names are words and whose strings mean themselves between two quotes. -/
structure ExprForm.Tidy {ε : Type} (q : Quoting) (form : ExprForm ε) : Prop where
  names : ∀ name ∈ form.names, Ordinary name.toList
  strings : ∀ s ∈ form.strings, q.Admits s.toList

/-- Every form in the expression is tidy. -/
def Expr.Tidy (q : Quoting) (e : Expr) : Prop := ∀ c : Expr, c.Within e → c.form.Tidy q

/-- Every form in the statement is tidy. -/
structure Stmt.Tidy (q : Quoting) (s : Stmt) : Prop where
  names : ∀ t : Stmt, t.Within s → ∀ name ∈ t.form.names, Ordinary name.toList
  exprs : ∀ e : Expr, e.WithinStmt s → e.form.Tidy q

instance {ε : Type} (q : Quoting) (form : ExprForm ε) : Decidable (form.Tidy q) :=
  decidable_of_iff ((∀ name ∈ form.names, Ordinary name.toList) ∧
      ∀ s ∈ form.strings, q.Admits s.toList)
    ⟨fun h => ⟨h.1, h.2⟩, fun h => ⟨h.names, h.strings⟩⟩

variable {q : Quoting}

theorem Expr.tidy_mk {l : Loc} {form : ExprForm Expr} :
    (⟨l, form⟩ : Expr).Tidy q ↔ form.Tidy q ∧ ∀ c ∈ form.children, c.Tidy q := by
  constructor
  · intro h
    exact ⟨h _ (.here _), fun c hc d hd => h d (.child hc hd)⟩
  · rintro ⟨hform, hchildren⟩ c hc
    rcases hc with _ | ⟨hchild, hin⟩
    · exact hform
    · exact hchildren _ hchild c hin

theorem Stmt.tidy_mk {l : Loc} {form : StmtForm Stmt Expr} :
    (⟨l, form⟩ : Stmt).Tidy q ↔ (∀ name ∈ form.names, Ordinary name.toList) ∧
      (∀ e ∈ form.exprs, e.Tidy q) ∧ ∀ t ∈ form.children, t.Tidy q := by
  constructor
  · intro h
    refine ⟨h.names _ (.here _), fun e he c hc => h.exprs c ⟨_, .here _, e, he, hc⟩, ?_⟩
    intro t ht
    refine ⟨fun u hu => h.names u (.child ht hu), ?_⟩
    rintro e ⟨u, hu, hin⟩
    exact h.exprs e ⟨u, .child ht hu, hin⟩
  · rintro ⟨hnames, hexprs, hchildren⟩
    constructor
    · intro t ht
      rcases ht with _ | ⟨hchild, hin⟩
      · exact hnames
      · exact (hchildren _ hchild).names t hin
    · rintro e ⟨t, ht, d, hd, hin⟩
      rcases ht with _ | ⟨hchild, ht⟩
      · exact hexprs d hd e hin
      · exact (hchildren _ hchild).exprs e ⟨t, ht, d, hd, hin⟩

theorem Params.name_mem_boundNames {ε : Type} {params : Params ε} {param : Param}
    (h : param ∈ params.positional ++ params.rest.toList) : param.name ∈ params.boundNames := by
  unfold Params.boundNames
  refine List.mem_map_of_mem ?_
  exact List.mem_append_left _ (List.mem_append_left _ h)

/-! ### What plain actions ensure -/

namespace Plain

variable {α β γ : Type}

/-- Every result of the action has the property. -/
def Ensures (d : Plain α) (P : α → Prop) : Prop := ∀ s a, (d.run s).1 = .ok a → P a

variable {d : Plain α} {P : α → Prop} {Q : β → Prop}

theorem ensures_pure {a : α} (h : P a) : (pure a : Plain α).Ensures P := by
  rintro s b ⟨⟩
  exact h

theorem ensures_fail (e : RenderError) : (fail e : Plain α).Ensures P := by
  rintro s a ⟨⟩

theorem Ensures.bind {f : α → Plain β} (hd : d.Ensures P) (hf : ∀ a, P a → (f a).Ensures Q) :
    (d >>= f).Ensures Q := by
  intro s b hb
  rcases hrun : d.run s with ⟨e | a, s'⟩
  · rw [run_bind_of_error hrun] at hb
    cases hb
  · rw [run_bind_of_ok hrun] at hb
    have ha := hd s a (by rw [hrun])
    exact hf a ha s' b hb

theorem Ensures.map {f : α → β} (hd : d.Ensures P) (hf : ∀ a, P a → Q (f a)) :
    (d >>= fun a => pure (f a)).Ensures Q :=
  hd.bind fun a ha => ensures_pure (hf a ha)

theorem Ensures.around (l : Loc) (hd : d.Ensures P) : Ensures (Rendition.around l d) P := by
  intro s a ha
  rw [run_around] at ha
  rcases hrun : (d.run s).1 with e | b
  · rw [hrun] at ha
    cases ha
  · rw [hrun] at ha
    cases ha
    exact hd s a hrun

theorem Ensures.inScope (names : List String) (hd : d.Ensures P) :
    Ensures (Rendition.inScope names d) P :=
  fun s a ha => hd (s.enter.declare names) a ha

theorem Ensures.read (hd : d.Ensures P) : Ensures (Rendition.read d) P := hd

theorem Ensures.readTwice {d : Plain String} {P : String → Prop} (hd : d.Ensures P) :
    Ensures (Rendition.readTwice d) fun pair => P pair.1 ∧ P pair.2 :=
  hd.bind fun _ ha => hd.map fun _ hb => ⟨ha, hb⟩

theorem ensures_given {x : Except RenderError α} (h : ∀ a, x = .ok a → P a) :
    (given x : Plain α).Ensures P := by
  rcases x with e | a
  · exact ensures_fail e
  · exact ensures_pure (h a rfl)

theorem ensures_all {f : γ → Plain α} {xs : List γ} (h : ∀ x ∈ xs, (f x).Ensures P) :
    (all (xs.map f)).Ensures fun as => ∀ a ∈ as, P a := by
  induction xs with
  | nil => exact ensures_pure (List.forall_mem_nil _)
  | cons x rest ih =>
    obtain ⟨hx, hrest⟩ := List.forall_mem_cons.mp h
    exact hx.bind fun a ha => (ih hrest).map fun as has => List.forall_mem_cons.mpr ⟨ha, has⟩

section Texts

variable {m n : Plain String} {P Q R : String → Prop}

theorem ensures_text {t : String} (h : P t) : (text t : Plain String).Ensures P := ensures_pure h

theorem Ensures.both (hm : m.Ensures P) (hn : n.Ensures Q) (h : ∀ a b, P a → Q b → R (a ++ b)) :
    Ensures (Rendition.both m n) R :=
  hm.bind fun a ha => hn.map fun b hb => h a b ha hb

theorem Ensures.wrap (hm : m.Ensures P) (before after : String)
    (h : ∀ t, P t → Q (before ++ t ++ after)) : Ensures (Rendition.wrap before m after) Q := by
  have hbefore : Ensures (text before) fun t => t = before := ensures_text rfl
  have hafter : Ensures (text after) fun t => t = after := ensures_text rfl
  have hfront := hbefore.both hm (R := fun t => ∃ u, P u ∧ t = before ++ u) (by
    rintro a t rfl ht
    exact ⟨t, ht, rfl⟩)
  refine hfront.both hafter ?_
  rintro a b ⟨t, ht, rfl⟩ rfl
  exact h t ht

/-- Statements in a row match if each of them does. -/
theorem ensures_lines {f : γ → Plain String} {xs : List γ}
    (h : ∀ x ∈ xs, (f x).Ensures (Matched q)) : (lines (xs.map f)).Ensures (Matched q) := by
  induction xs with
  | nil => exact ensures_text matched_empty
  | cons x rest ih =>
    obtain ⟨hx, hrest⟩ := List.forall_mem_cons.mp h
    rcases rest with _ | ⟨next, rest⟩
    · exact hx
    · have hline : Ensures (Rendition.wrap "" (f x) ";\n") (Matched q) :=
        hx.wrap _ _ fun t ht => (matched_empty.append ht).append matched_lineBreak
      exact hline.both (ih hrest) fun a b ha hb => ha.append hb

theorem ensures_assign {name value : String} (hname : Sealed q name) (hvalue : Sealed q value) :
    Ensures (Rendition.assign name value : Plain String) (Matched q) := by
  have hmatched := matched_assign hname hvalue
  have hvar : Matched q "var " := fun _ => rfl
  intro s a ha
  replace ha : (if isReference name || s.contains name then
      (Except.ok (name ++ " = " ++ value), s)
    else (.ok ("var " ++ name ++ " = " ++ value), s.declare [name])).1 = .ok a := ha
  split at ha
  · cases ha
    exact hmatched
  · cases ha
    simpa only [String.append_assoc] using hvar.append hmatched

end Texts

/-! ### The rules for expressions -/

theorem ensures_joined {es : List Expr} (h : ∀ e ∈ es, (e.direct : Plain String).Ensures (Sealed q)) :
    (joined ", " (es.map Expr.direct) : Plain String).Ensures (Enclosed q) :=
  (ensures_all h).map fun _ htexts => enclosed_commas fun x hx => (htexts x hx).enclosed

theorem ensures_optional (e : Option Expr)
    (h : ∀ d ∈ e.toList, (d.direct : Plain String).Ensures (Sealed q)) :
    (optional (e.map Expr.direct) : Plain String).Ensures (Sealed q) := by
  rcases e with _ | e
  · exact ensures_pure fun _ => rfl
  · exact h e List.mem_cons_self

theorem ensures_param {params : Params Expr} (i : Nat) {param : Param}
    (hname : Ordinary param.name.toList)
    (h : ∀ e ∈ params.defaults, (e.direct : Plain String).Ensures (Sealed q)) :
    ((params.map Expr.direct).directParam i param : Plain String).Ensures (Enclosed q) := by
  have hparam : Enclosed q param.name := (sealed_of_ordinary hname).enclosed
  have hequals : Enclosed q " = " := fun _ _ => rfl
  unfold Params.directParam
  split
  · exact ensures_pure hparam
  · split
    · exact ensures_pure hparam
    · next default hdefault =>
      obtain ⟨e, he, rfl⟩ := List.mem_map.mp (List.mem_of_getElem? hdefault)
      exact (h e he).map fun t ht => (hparam.append hequals).append ht.enclosed

theorem ensures_params {params : Params Expr}
    (hnames : ∀ name ∈ params.boundNames, Ordinary name.toList)
    (h : ∀ e ∈ params.defaults, (e.direct : Plain String).Ensures (Sealed q)) :
    ((params.map Expr.direct).direct : Plain String).Ensures (Enclosed q) := by
  have hparam : ∀ param ∈ params.positional ++ params.rest.toList, Ordinary param.name.toList :=
    fun param hmem => hnames _ (Params.name_mem_boundNames hmem)
  have hpoints : Enclosed q "..." := fun _ _ => rfl
  have hrest : ∀ text ∈ params.rest.toList.map fun param => "..." ++ param.name, Enclosed q text := by
    rw [List.forall_mem_map]
    intro param hmem
    have hname := hparam param (List.mem_append_right _ hmem)
    exact hpoints.append (sealed_of_ordinary hname).enclosed
  have hall : (all (params.positional.mapIdx (params.map Expr.direct).directParam) :
      Plain (List String)).Ensures fun texts => ∀ t ∈ texts, Enclosed q t := by
    rw [List.mapIdx_eq_zipIdx_map]
    apply ensures_all
    intro x hx
    have hmem := List.fst_mem_of_mem_zipIdx hx
    exact ensures_param x.2 (hparam x.1 (List.mem_append_left _ hmem)) h
  obtain ⟨loc, posOnly, args, rest, kwOnly, kwRest, defaults⟩ := params
  rcases kwOnly with _ | ⟨param, more⟩
  · rcases kwRest with _ | param
    · refine hall.map fun texts htexts => enclosed_commas ?_
      exact List.forall_mem_append.mpr ⟨htexts, hrest⟩
    · exact (ensures_fail _).around _
  · exact (ensures_fail _).around _

theorem ensures_entry {key : Option Expr} {value : Expr}
    (hkey : ∀ e ∈ key, (e.direct : Plain String).Ensures (Sealed q))
    (hvalue : (value.direct : Plain String).Ensures (Sealed q)) :
    (ExprForm.directEntry (key.map Expr.direct, value.direct) : Plain String).Ensures (Enclosed q) := by
  have hcolon : Enclosed q ": " := fun _ _ => rfl
  unfold ExprForm.directEntry
  rcases key with _ | e
  · exact hvalue.map fun v hv => (sealed_spread hv).enclosed
  · exact hvalue.bind fun v hv => (hkey e rfl).map fun k hk =>
      (hk.enclosed.append hcolon).append hv.enclosed

end Plain

/-- What the rule of a tidy form writes can stand anywhere, if this holds of its children. -/
theorem ExprForm.plain_sealed {form : ExprForm Expr} (htidy : form.Tidy q)
    (ih : ∀ e ∈ form.children, (e.direct : Plain String).Ensures (Sealed q)) :
    ((form.map Expr.direct).direct : Plain String).Ensures (Sealed q) := by
  cases form with
  | boolOp op values =>
    refine (Plain.ensures_all ih).map fun texts htexts => sealed_round ?_
    exact enclosed_intercalate op.enclosed_spelling fun x hx => (htexts x hx).enclosed
  | binOp left op right =>
    have hleft := (ih left (by simp [children])).read
    have hright := (ih right (by simp [children])).read
    by_cases hop : op = .floorDiv
    · subst hop
      exact hleft.bind fun l hl => hright.map fun r hr => sealed_floorDiv hl hr
    · have hsign : (given op.spell : Plain String).Ensures (Enclosed q) :=
        Plain.ensures_given fun sign hspell => BinaryOperator.enclosed_spell hspell
      simp only [ExprForm.map]
      rw [Simulation.direct_binOp hop]
      exact hleft.bind fun l hl => hsign.read.bind fun sign hs => hright.map fun r hr =>
        sealed_operation hl hs hr
  | unaryOp op operand =>
    have hoperand := (ih operand (by simp [children])).read
    have hsign : (pure op.spelling : Plain String).Ensures (Enclosed q) :=
      Plain.ensures_pure op.enclosed_spelling
    exact hsign.read.bind fun sign hs => hoperand.map fun t ht => sealed_sign hs ht
  | lambda params body =>
    have hparams := Plain.ensures_params htidy.names fun e he => ih e (by simp [children, he])
    have hbody := (ih body (by simp [children])).read
    exact (hparams.bind fun p hp => hbody.map fun t ht => sealed_arrow hp ht).inScope _
  | ifExp test body orelse =>
    have htest := (ih test (by simp [children])).read
    have hbody := (ih body (by simp [children])).read
    have horelse := (ih orelse (by simp [children])).read
    exact htest.bind fun t ht => hbody.bind fun b hb => horelse.map fun e he =>
      sealed_choice ht hb he
  | dict keys values =>
    have hentries : ∀ entry ∈ keys.zip values,
        (directEntry (entry.1.map Expr.direct, entry.2.direct) : Plain String).Ensures (Enclosed q) := by
      rintro ⟨key, value⟩ hentry
      obtain ⟨hkey, hvalue⟩ := List.of_mem_zip hentry
      refine Plain.ensures_entry (fun e he => ih e ?_) (ih value (by simp [children, hvalue]))
      apply List.mem_append_left
      exact List.mem_flatMap.mpr ⟨key, hkey, by simpa using he⟩
    simp only [ExprForm.map, ExprForm.direct, List.zip_map, List.map_map]
    exact (Plain.ensures_all hentries).map fun texts htexts => sealed_curly (enclosed_commas htexts)
  | compare left ops comparators =>
    have hleft := (ih left (by simp [children])).read
    have hothers := Plain.ensures_all fun e (he : e ∈ comparators) => ih e (by simp [children, he])
    simp only [ExprForm.map, ExprForm.direct]
    split
    · exact Plain.ensures_fail _
    · refine hleft.bind fun l hl => hothers.bind fun others hothers => ?_
      have hpairs : (given (comparisons (l :: others) ops) : Plain (List String)).Ensures
          fun pairs => ∀ x ∈ pairs, Sealed q x :=
        Plain.ensures_given fun pairs hpairs =>
          sealed_comparisons (List.forall_mem_cons.mpr ⟨hl, hothers⟩) hpairs
      exact hpairs.map fun pairs => sealed_conjunction
  | call func args keywords =>
    have hfunc := (ih func (by simp [children])).read
    have hargs := (Plain.ensures_joined fun e (he : e ∈ args) => ih e (by simp [children, he])).read
    rcases keywords with _ | ⟨keyword, rest⟩
    · exact hfunc.bind fun f hf => hargs.map fun a ha => sealed_call hf ha
    · exact (Plain.ensures_fail _).around _
  | constant value =>
    refine Plain.ensures_pure (sealed_spelling ?_)
    rintro s rfl
    exact htidy.strings s List.mem_cons_self
  | «attribute» value attr =>
    have hvalue := (ih value (by simp [children])).read
    have hattr : Sealed q attr := sealed_of_ordinary (htidy.names attr List.mem_cons_self)
    exact hvalue.bind fun v hv => (Plain.ensures_pure hattr).read.map fun a ha => sealed_member hv ha
  | subscript value index =>
    have hvalue := (ih value (by simp [children])).read
    have hindex := (ih index (by simp [children])).read
    exact hvalue.bind fun v hv => hindex.map fun i hi => sealed_subscript hv hi.enclosed
  | name id => exact (Plain.ensures_pure (sealed_of_ordinary (htidy.names id List.mem_cons_self))).read
  | list elts => exact (Plain.ensures_joined ih).read.map fun t ht => sealed_square ht
  | starred value => exact (ih value (by simp [children])).read.map fun v hv => sealed_spread hv
  | _ => exact Plain.ensures_fail _

theorem Expr.plain_sealed {e : Expr} (h : e.Tidy q) : (e.direct : Plain String).Ensures (Sealed q) := by
  induction e with
  | mk l form ih =>
    rw [Expr.direct_mk]
    obtain ⟨hform, hchildren⟩ := Expr.tidy_mk.mp h
    exact (ExprForm.plain_sealed hform fun e he => ih e he (hchildren e he)).around l

/-! ### The rules for statements -/

theorem StmtForm.plain_matched {form : StmtForm Stmt Expr}
    (hnames : ∀ name ∈ form.names, Ordinary name.toList)
    (htidy : ∀ e ∈ form.exprs, e.Tidy q)
    (ih : ∀ s ∈ form.children, (s.direct : Plain String).Ensures (Matched q)) :
    ((form.map fun s => (s.loc, (s.direct : Plain String))).direct).Ensures (Matched q) := by
  have hexprs : ∀ e ∈ form.exprs, (e.direct : Plain String).Ensures (Sealed q) :=
    fun e he => Expr.plain_sealed (htidy e he)
  have hblock : ∀ ss : List Stmt, (∀ s ∈ ss, s ∈ form.children) →
      (read (lines ((ss.map fun s => (s.loc, (s.direct : Plain String))).map Prod.snd))).Ensures
        (Matched q) := by
    intro ss hss
    rw [List.map_map]
    exact (Plain.ensures_lines fun s hs => ih s (hss s hs)).read
  cases form with
  | functionDef name params body decorators =>
    obtain ⟨hname, hparams⟩ := List.forall_mem_cons.mp hnames
    have hname' : (pure name : Plain String).Ensures (Sealed q) :=
      Plain.ensures_pure (sealed_of_ordinary hname)
    have hparams' := Plain.ensures_params hparams fun e he => hexprs e (by simp [exprs, he])
    have hbody := hblock body fun s hs => hs
    rcases decorators with _ | ⟨decorator, rest⟩
    · refine hname'.read.bind fun n hn => (hparams'.bind fun p hp => ?_).inScope _
      exact hbody.wrap _ _ fun t ht => ((opens_function hn hp).append ht).matched closes_block
    · exact (Plain.ensures_fail _).around _
  | ret value =>
    have hword : Matched q "return " := fun _ => rfl
    exact (Plain.ensures_optional value hexprs).read.bind fun v hv =>
      Plain.ensures_text (hword.append hv.matched)
  | delete targets =>
    have hword : Matched q "delete " := fun _ => rfl
    refine (Plain.ensures_all hexprs).bind fun texts htexts => Plain.ensures_text ?_
    refine intercalate_of matched_empty (fun _ _ => Matched.append) matched_lineBreak ?_
    exact List.forall_mem_map.mpr fun t ht => hword.append (htexts t ht).matched
  | assign targets value =>
    have hvalue := (hexprs value (by simp [exprs])).read
    refine hvalue.bind fun v hv => Plain.ensures_lines fun target htarget => ?_
    exact (hexprs target (by simp [exprs, htarget])).bind fun n hn => Plain.ensures_assign hn hv
  | augAssign target op value =>
    have htarget := hexprs target (by simp [exprs])
    have hvalue := (hexprs value (by simp [exprs])).read
    by_cases hop : op = .floorDiv
    · subst hop
      exact htarget.readTwice.bind fun pair hpair => hvalue.bind fun v hv =>
        Plain.ensures_text (matched_floorDiv hpair.1 hpair.2 hv)
    · have hsign : (given op.spell : Plain String).Ensures fun sign =>
          Matched q (" " ++ sign ++ "= ") := by
        apply Plain.ensures_given
        intro sign hspell
        cases op <;> cases hspell <;> exact fun _ => rfl
      simp only [StmtForm.map]
      rw [Simulation.direct_augAssign hop]
      refine htarget.read.bind fun t ht => hsign.read.bind fun sign hs => hvalue.bind fun v hv =>
        Plain.ensures_text ?_
      simpa only [String.append_assoc] using (ht.matched.append hs).append hv.matched
  | forLoop target iter body orelse =>
    have hiter := (hexprs iter (by simp [exprs])).read
    have hbody := hblock body fun s hs => by simp [children, hs]
    have htarget := htidy target (by simp [exprs])
    rcases orelse with _ | ⟨stmt, rest⟩
    · obtain ⟨loc, form⟩ := target
      obtain ⟨hform, -⟩ := Expr.tidy_mk.mp htarget
      cases form with
      | name id =>
        have hid : Sealed q id := sealed_of_ordinary (hform.names id List.mem_cons_self)
        refine hiter.bind fun i hi => Plain.Ensures.inScope _ (hbody.wrap _ _ fun t ht => ?_)
        exact matched_forEach hi hid ht
      | _ => exact (Plain.ensures_fail _).around _
    · exact (Plain.ensures_fail _).around _
  | whileLoop test body orelse =>
    have htest := (hexprs test (by simp [exprs])).read
    have hbody := hblock body fun s hs => by simp [children, hs]
    rcases orelse with _ | ⟨stmt, rest⟩
    · have hword : ∀ opened, Scans q freely (.code opened) "while (" (.code (.round :: opened)) :=
        fun _ => rfl
      refine htest.bind fun t ht => hbody.wrap _ _ fun b hb => ?_
      exact ((opens_condition ht hword).append hb).matched closes_block
    · exact (Plain.ensures_fail _).around _
  | cond test body orelse =>
    have htest := (hexprs test (by simp [exprs])).read
    have hbody := hblock body fun s hs => by simp [children, hs]
    have horelse := hblock orelse fun s hs => by simp [children, hs]
    have hword : ∀ opened, Scans q freely (.code opened) "if (" (.code (.round :: opened)) :=
      fun _ => rfl
    have helse : ∀ opened, Scans q freely (.code (.curly :: opened)) "\n\x7d else \x7b\n"
        (.code (.curly :: opened)) := fun _ => rfl
    refine htest.bind fun t ht => ?_
    -- the brace behind `else` is opened in one part and closed in the other
    have hfirst := hbody.wrap ("if (" ++ t ++ ") \x7b\n") "\n\x7d else \x7b\n" (Q := Opens q) (by
      intro b hb opened
      exact ((opens_condition ht hword).append hb opened).append (helse opened))
    have hsecond := horelse.wrap "" "\n\x7d" (Q := Closes q) fun e he =>
      (matched_empty.append he).close closes_block
    exact hfirst.both hsecond fun a b ha hb => ha.matched hb
  | raise exc cause =>
    rcases cause with _ | cause
    · refine (Plain.ensures_optional exc fun e he => hexprs e (by simpa [exprs] using he)).read.bind
        fun e he => Plain.ensures_text fun opened => ?_
      have hword : Scans q freely (.code opened) "throw new Error(" (.code (.round :: opened)) := rfl
      exact (hword.append (he.matched _)).append rfl
    · exact (Plain.ensures_fail _).around _
  | expr value =>
    exact (hexprs value List.mem_cons_self).read.bind fun v hv => Plain.ensures_text hv.matched
  | pass => exact Plain.ensures_text matched_empty
  | breakLoop => exact Plain.ensures_text fun _ => rfl
  | continueLoop => exact Plain.ensures_text fun _ => rfl
  | _ => exact Plain.ensures_fail _

theorem Stmt.plain_matched {s : Stmt} (h : s.Tidy q) : (s.direct : Plain String).Ensures (Matched q) := by
  induction s with
  | mk l form ih =>
    rw [Stmt.direct_mk]
    obtain ⟨hnames, hexprs, hchildren⟩ := Stmt.tidy_mk.mp h
    have hform := StmtForm.plain_matched hnames hexprs fun s hs => ih s hs (hchildren s hs)
    exact hform.around l

/-! ### What a renderer returns -/

/-- **Brackets nest, and expressions hold together.**  Every text that a renderer returns for tidy
    statements has brackets that match and nest outside of strings.  For a tidy expression, moreover,
    no blank, comma or semicolon stands outside of all brackets and strings.  This holds for a reader
    of scripts, and for one who takes strings as they are. -/
theorem rendered_nested_unsplit (q : Quoting) {κ : Type} [DecidableEq κ] (keyOf : Place → κ)
    (r : Renderer κ) :
    (∀ stmts : List Stmt, Set.InjOn keyOf (nodesOf stmts) → (∀ s ∈ stmts, s.Tidy q) →
      ∀ text, (Renderer.renderStmts keyOf stmts r).result = .ok text → Nested q text.toList) ∧
    ∀ e : Expr, Set.InjOn keyOf (e.nodes []) → e.Tidy q →
      ∀ text, (Renderer.renderExpr keyOf e r).result = .ok text →
        Nested q text.toList ∧ Unsplit q text.toList := by
  constructor
  · intro stmts hkeys htidy text htext
    have hplain := ((transparency keyOf (nodesOf stmts) hkeys).render_all stmts subset_rfl)
      r.startPass fresh_empty |>.1
    have hmatched : (directAll stmts : Plain String).Ensures (Matched q) :=
      Plain.ensures_lines fun s hs => Stmt.plain_matched (htidy s hs)
    refine hmatched r.startPass.scopes text ?_ []
    rw [hplain]
    exact htext
  · intro e hkeys htidy text htext
    have hplain := (((transparency keyOf (e.nodes []) hkeys).render_expr e [] subset_rfl).1
      r.startPass fresh_empty).1
    have hsealed : Sealed q text := by
      apply Expr.plain_sealed htidy r.startPass.scopes text
      rw [hplain]
      exact htext
    exact ⟨hsealed.nested, hsealed.unsplit⟩

/-- A call with a string that would split the text or open a bracket, and with a list. -/
def bracketCall : Expr :=
  let name (id : String) : Expr := ⟨.synthetic, .name id⟩
  ⟨.synthetic, .call (name "g")
    [⟨.synthetic, .constant (.str "a(; ")⟩, ⟨.synthetic, .list [name "x", name "$y"]⟩] []⟩

/-- A function that returns the call. -/
def bracketFunction : Stmt :=
  let params : Params Expr := ⟨.synthetic, [], [⟨.synthetic, "$y"⟩], none, [], none, []⟩
  ⟨.synthetic, .functionDef "f_1" params [⟨.synthetic, .ret (some bracketCall)⟩] []⟩

theorem tidy_bracketCall : bracketCall.Tidy .script := by
  simp only [bracketCall, Expr.tidy_mk, ExprForm.children, List.forall_mem_cons, List.append_nil,
    List.map_nil, List.not_mem_nil, false_imp_iff, implies_true, and_true]
  decide

theorem tidy_bracketFunction : bracketFunction.Tidy .script := by
  simp only [bracketFunction, Stmt.tidy_mk, StmtForm.children, StmtForm.exprs, Option.toList_some,
    List.forall_mem_cons, List.append_nil, List.not_mem_nil, false_imp_iff, implies_true, and_true,
    true_and, tidy_bracketCall]
  decide

theorem rendered_nested_unsplit_bracketFunction :
    bracketCall.Tidy .script ∧ bracketFunction.Tidy .script ∧
    (Renderer.renderExpr id bracketCall Renderer.new).result = .ok "g(\"a(; \", [x, $y])" ∧
    (Renderer.renderStmts id [bracketFunction] Renderer.new).result =
      .ok "function f_1($y) \x7b\nreturn g(\"a(; \", [x, $y])\n\x7d" ∧
    Nested .script "g(\"a(; \", [x, $y])".toList ∧
    Unsplit .script "g(\"a(; \", [x, $y])".toList ∧
    Nested .script "function f_1($y) \x7b\nreturn g(\"a(; \", [x, $y])\n\x7d".toList := by
  have hresults := rendered_nested_unsplit .script id Renderer.new
  have hexpr : (Renderer.renderExpr id bracketCall Renderer.new).result =
      .ok "g(\"a(; \", [x, $y])" := rfl
  have hstmts : (Renderer.renderStmts id [bracketFunction] Renderer.new).result =
      .ok "function f_1($y) \x7b\nreturn g(\"a(; \", [x, $y])\n\x7d" := rfl
  have htidy : ∀ s ∈ [bracketFunction], s.Tidy .script :=
    List.forall_mem_singleton.mpr tidy_bracketFunction
  obtain ⟨hnested, hunsplit⟩ := hresults.2 bracketCall (Set.injOn_id _) tidy_bracketCall _ hexpr
  refine ⟨tidy_bracketCall, tidy_bracketFunction, hexpr, hstmts, hnested, hunsplit, ?_⟩
  exact hresults.1 [bracketFunction] (Set.injOn_id _) htidy _ hstmts

/-- A call with one string. -/
def stringCall (func : ExprForm Expr) (s : String) : Expr :=
  ⟨.synthetic, .call ⟨.synthetic, func⟩ [⟨.synthetic, .constant (.str s)⟩] []⟩

theorem tidy_stringCall {func : ExprForm Expr} {s : String} (hfunc : func.Tidy .verbatim)
    (hleaf : func.children = []) (hs : '"' ∉ s.toList) : (stringCall func s).Tidy .verbatim := by
  have hcallee : (⟨.synthetic, func⟩ : Expr).Tidy .verbatim :=
    Expr.tidy_mk.mpr ⟨hfunc, hleaf ▸ List.forall_mem_nil _⟩
  have hstring : (⟨.synthetic, .constant (.str s)⟩ : Expr).Tidy .verbatim := by
    refine Expr.tidy_mk.mpr ⟨⟨List.forall_mem_nil _, ?_⟩, List.forall_mem_nil _⟩
    exact List.forall_mem_singleton.mpr (admits_verbatim.mpr hs)
  refine Expr.tidy_mk.mpr ⟨⟨List.forall_mem_nil _, List.forall_mem_nil _⟩, ?_⟩
  exact List.forall_mem_cons.mpr ⟨hcallee, List.forall_mem_singleton.mpr hstring⟩

/-- Strings without quotes are not enough for a reader of scripts.  Behind a backslash the quote that
    should end the string does not: the bracket of `g("\")` is never closed, and in `"\"("x, y")` the
    string ends where the next one should begin, with a comma and a blank behind it. -/
theorem backslash_keeps_string_open :
    (stringCall (.name "g") "\\").Tidy .verbatim ∧
    (Renderer.renderExpr id (stringCall (.name "g") "\\") Renderer.new).result =
      .ok "g(\"\\\")" ∧
    ¬Nested .script "g(\"\\\")".toList ∧
    (stringCall (.constant (.str "\\")) "x, y").Tidy .verbatim ∧
    (Renderer.renderExpr id (stringCall (.constant (.str "\\")) "x, y") Renderer.new).result =
      .ok "\"\\\"(\"x, y\")" ∧
    ¬Unsplit .script "\"\\\"(\"x, y\")".toList := by
  refine ⟨tidy_stringCall (by decide) rfl (by decide), rfl, ?_,
    tidy_stringCall (by decide) rfl (by decide), rfl, ?_⟩
  · unfold Nested
    decide
  · intro h
    have hcomma := h "\"\\\"(\"x".toList ',' " y\")".toList rfl rfl
    cases hcomma

end ScriptTree
